import LS8.Proofs.Effect
import LS8.Proofs.Stack

/-!
# Where the stack starts

A program that names the stack pointer nowhere sees of its stack only the values that it has pushed,
and finds the same values wherever the stack lies. So the same program with its stack at two
addresses keeps two machines displaced against each other (`Core.Displaced`): both rings hold the
same list, and the memories agree on every cell out of reach of both stacks. Each operation keeps
them so (`Displaced.perform`), as long as the instructions lie out of reach.

The two windows may overlap and go round address zero, since a cell is compared only through the
list or out of reach of both (`stack_base_transparent`).
-/

namespace LS8

/-- The cells that a stack of at most `depth` values below `base` can come to. -/
def reach (base : UInt8) (depth : ℕ) : List UInt8 :=
  (List.range depth).map fun d => base - UInt8.ofNat (d + 1)

theorem mem_reach {base a : UInt8} {depth : ℕ} :
    a ∈ reach base depth ↔ ∃ d, 1 ≤ d ∧ d ≤ depth ∧ a = base - UInt8.ofNat d := by
  unfold reach
  rw [List.mem_map]
  refine ⟨?_, ?_⟩
  · rintro ⟨d, hd, rfl⟩
    rw [List.mem_range] at hd
    exact ⟨d + 1, by omega, by omega, rfl⟩
  · rintro ⟨d, h1, hd, rfl⟩
    obtain ⟨e, rfl⟩ := Nat.exists_eq_add_of_le' h1
    exact ⟨e, List.mem_range.2 (by omega), rfl⟩

namespace Operation

/-- The registers that the operands name. -/
def operandRegisters : Operation → List Register
  | .load r _ | .print r | .push r | .pop r | .call r => [r]
  | .compute _ r s => [r, s]
  | .halt | .ret => []

theorem disciplined_of_operands {op : Operation} {stack : List UInt8}
    (hplain : ∀ r ∈ op.operandRegisters, r ≠ .stackPointer)
    (htop : op.readsTop = true → stack ≠ []) : op.Disciplined stack := by
  cases op with
  | load r value | compute o r s => exact hplain r List.mem_cons_self
  | pop r => exact ⟨hplain r List.mem_cons_self, htop rfl⟩
  | ret => exact htop rfl
  | _ => trivial

end Operation

namespace Core

/-- The cores are the same but for their stacks, which hold the same values below `base` and below
`base'`. -/
structure Displaced (c c' : Core) (base base' : UInt8) (depth : ℕ) (stack : List UInt8) :
    Prop where
  pc : c.pc = c'.pc
  registers : ∀ r ≠ Register.stackPointer, c.registers.get r = c'.registers.get r
  holds : c.Holds base stack
  holds' : c'.Holds base' stack
  apart : ∀ a, a ∉ reach base depth → a ∉ reach base' depth → c.memory.read a = c'.memory.read a

variable {c c' : Core} {base base' : UInt8} {depth : ℕ} {stack : List UInt8} {op : Operation}

theorem Displaced.top_eq (h : Displaced c c' base base' depth stack) (hne : stack ≠ []) :
    c.memory.read c.registers.sp = c'.memory.read c'.registers.sp :=
  Option.some_inj.1 ((h.holds.head hne).symm.trans (h.holds'.head hne))

/-- A cell out of reach of the stack keeps its byte. -/
theorem Holds.read_of_not_mem_reach (h : c.Holds base stack)
    (hlen : (c.stackAfter stack op).length ≤ depth) {a : UInt8} (ha : a ∉ reach base depth) :
    (c.perform op).memory.read a = c.memory.read a := by
  refine read_perform stack fun hgrows hcell => ha (mem_reach.2 ?_)
  refine ⟨stack.length + 1, by omega, by omega, ?_⟩
  rw [hcell, h.sp, UInt8.ofNat_add]
  grind

section Plain

variable (h : Displaced c c' base base' depth stack)
  (hplain : ∀ r ∈ op.operandRegisters, r ≠ .stackPointer)

include h hplain

theorem Displaced.stackAfter_eq : c.stackAfter stack op = c'.stackAfter stack op := by
  cases op with
  | push r =>
    have hr := hplain r List.mem_cons_self
    simp only [stackAfter, if_neg hr, h.registers r hr]
  | call r => simp only [stackAfter, h.pc]
  | _ => rfl

variable (htop : op.readsTop = true → stack ≠ [])

include htop

theorem Displaced.pc_perform : (c.perform op).pc = (c'.perform op).pc := by
  cases op with
  | call r =>
    have hr := hplain r List.mem_cons_self
    simp only [perform, Registers.get_lowerSp, if_neg hr, h.registers r hr]
  | ret => exact h.top_eq (htop rfl)
  | halt => exact h.pc
  | _ => simp only [perform, h.pc]

theorem Displaced.registers_perform {s : Register} (hs : s ≠ .stackPointer) :
    (c.perform op).registers.get s = (c'.perform op).registers.get s := by
  have hsame := h.registers s hs
  cases op with
  | load r value => simp only [perform, Registers.get_set, hsame]
  | compute o r t =>
    have hr := hplain r List.mem_cons_self
    have ht := hplain t (List.mem_cons_of_mem r List.mem_cons_self)
    simp only [perform, Registers.get_set, hsame, h.registers r hr, h.registers t ht]
  | push r | call r => simp only [perform, Registers.get_lowerSp, if_neg hs, hsame]
  | pop r =>
    simp only [perform, Registers.get_raiseSp, if_neg hs, Registers.get_set, hsame,
      h.top_eq (htop rfl)]
  | ret => simp only [perform, Registers.get_raiseSp, if_neg hs, hsame]
  | print _ | halt => exact hsame

theorem Displaced.perform (hlen : (c.stackAfter stack op).length ≤ depth) (hdepth : depth ≤ 256) :
    Displaced (c.perform op) (c'.perform op) base base' depth (c.stackAfter stack op) := by
  have hstack := h.stackAfter_eq hplain
  have hdisc := Operation.disciplined_of_operands hplain htop
  refine ⟨h.pc_perform hplain htop, fun r hr => h.registers_perform hplain htop hr,
    h.holds.perform hdisc (by omega), ?_, fun a ha ha' => ?_⟩
  · rw [hstack] at hlen ⊢
    exact h.holds'.perform hdisc (by omega)
  · rw [h.holds.read_of_not_mem_reach hlen ha,
      h.holds'.read_of_not_mem_reach (hstack ▸ hlen) ha', h.apart a ha ha']

end Plain

end Core

namespace Machine

variable {σ : Type}

/-- A machine at reset whose stack starts below the address, with a program in memory. -/
def programmed (sink : σ) (config : Config) (image : Image) (base : UInt8) : Machine σ :=
  { initial sink { config with initialSp := base } with memory := Memory.zero.load image }

/-- The machines are the same but for their stacks. -/
structure Displaced (a b : Machine σ) (base base' : UInt8) (depth : ℕ) (stack : List UInt8) :
    Prop where
  core : a.core.Displaced b.core base base' depth stack
  halted : a.halted = b.halted
  sink : a.sink = b.sink
  stats : a.stats = b.stats

theorem displaced_programmed (sink : σ) (config : Config) (image : Image) (base base' : UInt8)
    (depth : ℕ) : (programmed sink config image base).Displaced
      (programmed sink config image base') base base' depth [] := by
  have hholds : ∀ x, (programmed sink config image x).core.Holds x [] := by
    intro x
    refine ⟨?_, fun i hi => absurd hi (Nat.not_lt_zero i)⟩
    simp [core, programmed, initial, Registers.initial, Registers.sp]
  refine ⟨⟨rfl, fun r hr => ?_, hholds base, hholds base', fun _ _ _ => rfl⟩, rfl, rfl, rfl⟩
  simp only [core, programmed, initial, Registers.initial, Registers.get_set_of_ne _ _ hr.symm]

variable [OutputSink σ]

/-- The first `n` steps execute instructions that name the stack pointer nowhere and take nothing
from an empty stack. They keep at most `depth` values on it, and their instructions lie out of reach
of such a stack, be it below `base` or below `base'`. -/
structure LeavesStackAlone (m : Machine σ) (n depth : ℕ) (base base' : UInt8) : Prop where
  executed : ∀ k < n, ∃ i, (m.after k).step.result = .ok (.executed i)
  plain : ∀ k < n, ∀ op ∈ (m.after k).operation?, ∀ r ∈ op.operandRegisters, r ≠ .stackPointer
  balanced : ∀ k < n, ∀ op ∈ (m.after k).operation?, op.readsTop = true → m.stack k ≠ []
  bounded : ∀ k ≤ n, (m.stack k).length ≤ depth
  outOfReach : ∀ k < n, ∀ a ∈ (m.after k).instructionCells,
    a ∉ reach base depth ∧ a ∉ reach base' depth

theorem Displaced.step {a b : Machine σ} {base base' : UInt8} {depth : ℕ} {stack : List UInt8}
    {op : Operation} (h : a.Displaced b base base' depth stack) (hdone : a.Completes op)
    (hcells : ∀ x ∈ a.instructionCells, x ∉ reach base depth ∧ x ∉ reach base' depth)
    (hplain : ∀ r ∈ op.operandRegisters, r ≠ .stackPointer)
    (htop : op.readsTop = true → stack ≠ [])
    (hlen : (a.core.stackAfter stack op).length ≤ depth) (hdepth : depth ≤ 256) :
    b.step.result = a.step.result
      ∧ a.step.machine.Displaced b.step.machine base base' depth (a.core.stackAfter stack op) := by
  have hop : b.operation? = some op := by
    rw [← hdone.operation]
    refine (operation?_congr h.core.pc fun x hx => ?_).symm
    exact h.core.apart x (hcells x hx).1 (hcells x hx).2
  have hprinted : a.core.printed op = b.core.printed op := by
    cases op with
    | print r => exact congrArg some (h.core.registers r (hplain r List.mem_cons_self))
    | _ => rfl
  have hdone' : b.Completes op := by
    refine completes_of_operation (h.halted ▸ hdone.running) hop fun v hv => ?_
    rw [← h.sink, hdone.accepted v (hprinted.trans hv)]
  have hresult : b.step.result = a.step.result := hdone'.result.trans hdone.result.symm
  have hhands : a.handsOut = b.handsOut := by
    rw [handsOut_of_operation hdone.running hdone.operation,
      handsOut_of_operation hdone'.running hop, hprinted]
  refine ⟨hresult, ?_, ?_, ?_, ?_⟩
  · rw [hdone.core, hdone'.core]
    exact h.core.perform hplain htop hlen hdepth
  · rw [halted_step, halted_step, hresult]
  · rw [sink_step, sink_step, hhands, h.sink]
  · rw [stats_step, stats_step, hresult, h.stats]

theorem LeavesStackAlone.displaced {a b : Machine σ} {n depth : ℕ} {base base' : UInt8}
    (h : a.LeavesStackAlone n depth base base') (hdepth : depth ≤ 256)
    (hstart : a.Displaced b base base' depth []) :
    ∀ k ≤ n, (a.after k).Displaced (b.after k) base base' depth (a.stack k)
      ∧ ∀ j < k, (b.after j).step.result = (a.after j).step.result
  | 0, _ => ⟨hstart, nofun⟩
  | k + 1, hk => by
    obtain ⟨ih, hresults⟩ := displaced h hdepth hstart k (by omega)
    obtain ⟨i, hi⟩ := h.executed k hk
    obtain ⟨op, -, hdone⟩ := exists_completes hi
    have hstack := stack_succ hdone.operation
    have hlen := h.bounded (k + 1) hk
    rw [hstack] at hlen
    obtain ⟨hresult, hnext⟩ := ih.step hdone (h.outOfReach k hk)
      (h.plain k hk op hdone.operation) (h.balanced k hk op hdone.operation) hlen hdepth
    refine ⟨?_, fun j hj => ?_⟩
    · rw [after_succ, after_succ, hstack]
      exact hnext
    · rcases Nat.lt_succ_iff_lt_or_eq.1 hj with hj | rfl
      · exact hresults j hj
      · exact hresult

/-- A program that names the stack pointer nowhere and whose instructions lie out of reach of its
stack runs the same wherever its stack starts. -/
theorem stack_base_transparent {sink : σ} {config : Config} {image : Image} {base base' : UInt8}
    {n depth : ℕ} {a b : Machine σ} (ha : a = programmed sink config image base)
    (hb : b = programmed sink config image base') (hdepth : depth ≤ 256)
    (h : a.LeavesStackAlone n depth base base') :
    (∀ k < n, (b.after k).step.result = (a.after k).step.result)
      ∧ ∀ k ≤ n, (a.after k).pc = (b.after k).pc
        ∧ (∀ r ≠ Register.stackPointer,
          (a.after k).registers.get r = (b.after k).registers.get r)
        ∧ (a.after k).halted = (b.after k).halted ∧ (a.after k).sink = (b.after k).sink
        ∧ (a.after k).stats = (b.after k).stats
        ∧ (a.after k).registers.sp - base = (b.after k).registers.sp - base' := by
  subst ha hb
  have hruns := h.displaced hdepth (displaced_programmed sink config image base base' depth)
  refine ⟨(hruns n (Nat.le_refl n)).2, fun k hk => ?_⟩
  obtain ⟨hcore, hhalted, hsink, hstats⟩ := (hruns k hk).1
  refine ⟨hcore.pc, hcore.registers, hhalted, hsink, hstats, ?_⟩
  have hsp := hcore.holds.sp
  have hsp' := hcore.holds'.sp
  simp only [core] at hsp hsp'
  rw [hsp, hsp']
  grind

/-- A call of code that pushes a register, pops it into another one and returns. -/
def callsOnce : Image :=
  ⟨#[0x82, 0, 7, 0x50, 0, 0x01, 0, 0x45, 0, 0x46, 1, 0x11], by decide⟩

theorem leavesStackAlone_callsOnce :
    (programmed ({} : Collector) {} callsOnce 0).LeavesStackAlone 6 2 0 0xFF := by
  -- One table, since each evaluation reads the program out of the loaded image anew.
  obtain ⟨hsteps, hstack⟩ :
      let m := programmed ({} : Collector) {} callsOnce 0
      (∀ k < 6, (m.after k).halted = false
          ∧ (m.after k).operation?
            = [Operation.load 0 7, .call 0, .push 0, .pop 1, .ret, .halt][k]?
          ∧ (m.after k).instructionCells
            = [[0, 1, 2], [3, 4], [7, 8], [9, 10], [11], [5]].getD k [])
        ∧ ∀ k ≤ 6, m.stack k = [[], [], [5], [7, 5], [5], [], []].getD k [] := by decide +kernel
  refine ⟨fun k hk => ?_, fun k hk => ?_, fun k hk => ?_, fun k hk => ?_, fun k hk => ?_⟩
  · obtain ⟨hrun, hop, -⟩ := hsteps k hk
    rw [List.getElem?_eq_getElem hk] at hop
    exact ⟨_, (completes_of_operation hrun hop fun _ _ => rfl).result⟩
  · rw [(hsteps k hk).2.1]
    revert k
    decide
  · rw [(hsteps k hk).2.1, hstack k (Nat.le_of_lt hk)]
    revert k
    decide
  · rw [hstack k hk]
    revert k
    decide
  · rw [(hsteps k hk).2.2]
    revert k
    decide +kernel

/-- The windows of the two stacks overlap, and one of them goes round address zero. -/
theorem stack_base_transparent_callsOnce :
    (programmed ({} : Collector) {} callsOnce 0).LeavesStackAlone 6 2 0 0xFF
      ∧ ((programmed ({} : Collector) {} callsOnce 0xFF).after 4).step.result
        = .ok (.executed .ret)
      ∧ ((programmed ({} : Collector) {} callsOnce 0xFF).after 6).registers.get 1 = 7
      ∧ ((programmed ({} : Collector) {} callsOnce 0xFF).after 6).halted = true := by
  obtain ⟨hresults, hstates⟩ := stack_base_transparent rfl rfl (by decide)
    leavesStackAlone_callsOnce
  obtain ⟨-, hregs, hhalted, -⟩ := hstates 6 (Nat.le_refl 6)
  obtain ⟨hret, hpopped, hend⟩ :
      ((programmed ({} : Collector) {} callsOnce 0).after 4).step.result = .ok (.executed .ret)
        ∧ ((programmed ({} : Collector) {} callsOnce 0).after 6).registers.get 1 = 7
        ∧ ((programmed ({} : Collector) {} callsOnce 0).after 6).halted = true := by decide +kernel
  exact ⟨leavesStackAlone_callsOnce, (hresults 4 (by omega)).trans hret,
    (hregs 1 (by decide)).symm.trans hpopped, hhalted.symm.trans hend⟩

end Machine

end LS8
