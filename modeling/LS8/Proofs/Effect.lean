import LS8.Proofs.Unplugged

/-!
# What a step depends on and what it changes

Of memory a step depends on few cells: that of the opcode, those of the operands that a defined
opcode announces, and the top of the stack where an operation takes it (`Machine.uses`). The bytes
that are fetched beyond these do not matter, so machines that agree on the cells used and on
registers, program counter, policy and the answer of the output take the same step (`Alike.step`).
What becomes of the other parts follows from the result (`halted_step`, `stats_step`), from the
value handed out (`sink_step`) and from the cell written (`memory_step`).
-/

namespace LS8

/-- The memory after a write, if there is one. -/
def Memory.store (m : Memory) : Option (UInt8 × UInt8) → Memory
  | some (address, value) => m.write address value
  | none => m

/-- The counters after a step with this result. -/
def Stats.stepped (s : Stats) : Except Fault Outcome → Stats
  | .ok (.executed i) => s.completed i
  | .ok (.skipped _ _) => { s with steps := s.steps + 1, skipped := s.skipped + 1 }
  | .ok .halted => s
  | .error _ => { s with steps := s.steps + 1 }

/-- Whether a step with this result leaves the machine halted. -/
def halts : Except Fault Outcome → Bool
  | .ok (.executed i) => i = .hlt
  | .ok (.skipped _ _) => false
  | .ok .halted | .error _ => true

namespace Operation

/-- The operation takes the byte at the top of the stack. -/
def readsTop : Operation → Bool
  | .pop _ | .ret => true
  | _ => false

theorem readsTop_iff {op : Operation} :
    op.readsTop = true ↔ op.instruction = .pop ∨ op.instruction = .ret := by
  cases op
  case compute o r s => cases o <;> simp [readsTop, instruction, Arithmetic.instruction]
  all_goals simp [readsTop, instruction]

/-- Bytes that the opcode does not announce as operands do not matter. -/
theorem resolve_congr {i : Instruction} {a b a' b' : UInt8}
    (ha : 1 ≤ (operandCount i.opcode).toNat → a = a')
    (hb : 2 ≤ (operandCount i.opcode).toNat → b = b') : resolve i a b = resolve i a' b' := by
  cases i
  case ldi | add | mul =>
    obtain rfl := ha (by decide)
    obtain rfl := hb (by decide)
    rfl
  case prn | push | pop | call =>
    obtain rfl := ha (by decide)
    rfl
  case hlt | ret => rfl

end Operation

namespace Core

/-- The cell that the operation writes, with the value. -/
def stored (c : Core) : Operation → Option (UInt8 × UInt8)
  | .push r => some (c.registers.sp - 1, c.registers.lowerSp.get r)
  | .call _ => some (c.registers.sp - 1, c.pc + 2)
  | _ => none

theorem memory_perform (c : Core) (op : Operation) :
    (c.perform op).memory = c.memory.store (c.stored op) := by
  cases op
  case push r | call r =>
    simp [perform, stored, Memory.store, Operation.instruction, Instruction.size_eq]
  all_goals rfl

theorem perform_congr (c c' : Core) {op : Operation} (hregs : c.registers = c'.registers)
    (hpc : c.pc = c'.pc)
    (htop : op.readsTop = true → c.memory.read c.registers.sp = c'.memory.read c.registers.sp) :
    (c.perform op).registers = (c'.perform op).registers
      ∧ (c.perform op).pc = (c'.perform op).pc := by
  obtain ⟨registers, memory, pc⟩ := c
  obtain ⟨registers', memory', pc'⟩ := c'
  dsimp only at hregs hpc htop
  subst hregs hpc
  cases op
  case pop r | ret =>
    have hread := htop rfl
    simp only [perform, hread, and_self]
  all_goals exact ⟨rfl, rfl⟩

theorem stored_congr {c c' : Core} (hregs : c.registers = c'.registers) (hpc : c.pc = c'.pc) :
    c.stored = c'.stored := by
  funext op
  cases op <;> simp only [stored, hregs, hpc]

theorem printed_congr {c c' : Core} (hregs : c.registers = c'.registers) :
    c.printed = c'.printed := by
  funext op
  cases op <;> simp only [printed, hregs]

end Core

namespace Machine

variable {σ : Type}

/-- The cells of the instruction at the program counter: that of its opcode and, where the opcode is
defined, those of as many operands as it announces. -/
def instructionCells (m : Machine σ) : List UInt8 :=
  match Instruction.decode (m.fetch 0) with
  | some i => (List.range ((operandCount i.opcode).toNat + 1)).map (m.pc + UInt8.ofNat ·)
  | none => [m.pc]

/-- The cells that a step depends on. -/
def uses (m : Machine σ) : List UInt8 :=
  if m.halted then []
  else m.instructionCells ++ if m.operation?.any Operation.readsTop then [m.registers.sp] else []

/-- The cell that a step writes, with the value. -/
def writes (m : Machine σ) : Option (UInt8 × UInt8) :=
  if m.halted then none else m.operation?.bind m.core.stored

theorem mem_instructionCells {m : Machine σ} {a : UInt8} :
    a ∈ m.instructionCells ↔ ∃ d ≤ (operandCount (m.fetch 0)).toNat,
      (Instruction.decode (m.fetch 0) = none → d = 0) ∧ a = m.pc + UInt8.ofNat d := by
  unfold instructionCells
  split
  · rename_i i hdec
    rw [Instruction.opcode_of_decode hdec, List.mem_map]
    refine exists_congr fun d => ?_
    rw [List.mem_range, Nat.lt_succ_iff]
    refine and_congr_right fun _ => ?_
    exact ⟨fun h => ⟨fun hnone => by simp [hdec] at hnone, h.symm⟩, fun h => h.2.symm⟩
  · rename_i hdec
    rw [List.mem_singleton]
    refine ⟨fun h => ⟨0, Nat.zero_le _, fun _ => rfl, by simp [h]⟩, ?_⟩
    rintro ⟨d, -, hd, ha⟩
    rw [ha, hd hdec]
    simp

theorem pc_mem_instructionCells (m : Machine σ) : m.pc ∈ m.instructionCells :=
  mem_instructionCells.2 ⟨0, Nat.zero_le _, fun _ => rfl, by simp⟩

theorem operand_mem_instructionCells {m : Machine σ} {i : Instruction} {k : ℕ}
    (hdec : Instruction.decode (m.fetch 0) = some i) (hk : k ≤ (operandCount i.opcode).toNat) :
    m.pc + UInt8.ofNat k ∈ m.instructionCells := by
  rw [Instruction.opcode_of_decode hdec] at hk
  exact mem_instructionCells.2 ⟨k, hk, fun hnone => by simp [hdec] at hnone, rfl⟩

section SameInstruction

variable {τ : Type} {a : Machine σ} {b : Machine τ} (hpc : a.pc = b.pc)
  (hcells : ∀ x ∈ a.instructionCells, a.memory.read x = b.memory.read x)

include hpc hcells

theorem opcode_congr : a.fetch 0 = b.fetch 0 := by
  rw [fetch_zero, fetch_zero, ← hpc]
  exact hcells _ a.pc_mem_instructionCells

theorem resolve_fetch_congr {i : Instruction} (hdec : Instruction.decode (a.fetch 0) = some i) :
    Operation.resolve i (a.fetch 1) (a.fetch 2) = Operation.resolve i (b.fetch 1) (b.fetch 2) := by
  have hfetch : ∀ k ≤ (operandCount i.opcode).toNat,
      a.fetch (UInt8.ofNat k) = b.fetch (UInt8.ofNat k) := by
    intro k hk
    unfold fetch
    rw [← hpc]
    exact hcells _ (operand_mem_instructionCells hdec hk)
  exact Operation.resolve_congr (hfetch 1) (hfetch 2)

theorem operation?_congr : a.operation? = b.operation? := by
  unfold operation?
  rw [← opcode_congr hpc hcells]
  rcases hdec : Instruction.decode (a.fetch 0) with _ | i
  · rfl
  · rw [Option.bind_some, Option.bind_some, resolve_fetch_congr hpc hcells hdec]

end SameInstruction

theorem writes_of_halted {m : Machine σ} (h : m.halted = true) : m.writes = none := by
  unfold writes
  rw [if_pos h]

theorem writes_of_operation {m : Machine σ} {op : Operation} (hrun : m.halted = false)
    (h : m.operation? = some op) : m.writes = m.core.stored op := by
  unfold writes
  rw [hrun, h]
  rfl

theorem writes_of_no_operation {m : Machine σ} (h : m.operation? = none) : m.writes = none := by
  unfold writes
  rw [h]
  split <;> rfl

variable [OutputSink σ]

theorem halted_step (m : Machine σ) : m.step.machine.halted = halts m.step.result := by
  cases m.stepCase with
  | idle hh heq =>
    rw [heq]
    exact hh
  | undefinedSkip next hrun _ _ _ heq =>
    rw [heq]
    exact hrun
  | executed i op done hrun hdec hres hperf heq =>
    have hdone := completes_of_perform hrun hdec hres hperf heq
    rw [hdone.halted, hdone.result, halts]
    exact decide_eq_decide.2 Operation.instruction_eq_hlt_iff.symm
  | _ =>
    rename_i heq
    rw [heq]
    rfl

/-- A machine that is still running has met no fault. -/
theorem advances_of_running {m : Machine σ} {n : ℕ} (h : (m.after n).halted = false) :
    m.Advances n := by
  intro k hk
  refine ⟨running_before h (Nat.le_of_lt hk), ?_⟩
  have hnext := running_before h (show k + 1 ≤ n from hk)
  rw [after_succ, halted_step] at hnext
  rcases hr : (m.after k).step.result with fault | o
  · rw [hr] at hnext
    cases hnext
  · exact ⟨o, rfl⟩

theorem config_after (m : Machine σ) (n : ℕ) : (m.after n).config = m.config := by
  induction n with
  | zero => rfl
  | succ n ih => rw [after_succ, config_step, ih]

theorem stats_step (m : Machine σ) : m.step.machine.stats = m.stats.stepped m.step.result := by
  cases m.stepCase with
  | executed i op done hrun hdec hres hperf heq =>
    have hdone := completes_of_perform hrun hdec hres hperf heq
    rw [hdone.stats, hdone.result]
    rfl
  | _ =>
    rename_i heq
    rw [heq]
    rfl

theorem sink_step (m : Machine σ) :
    m.step.machine.sink = m.handsOut.elim m.sink fun v => (OutputSink.emit v m.sink).2 := by
  rcases m.step_cases_unplugged with ⟨-, -, htakes⟩ | ⟨v, cause, sink, hv, hemit, -, hmachine⟩
  · rcases hv : m.handsOut with _ | v <;> rw [hv] at htakes
    · exact (Option.some_inj.1 htakes).symm
    · rw [Option.elim_some, accepts_of_takeAll? htakes]
  · rw [hmachine, hv, Option.elim_some, hemit]
    rfl

theorem collected_step (m : Machine Collector) :
    m.step.machine.sink.values.toList = m.sink.values.toList ++ m.handsOut.toList := by
  rw [sink_step]
  rcases m.handsOut with _ | v
  · exact (List.append_nil _).symm
  · exact Array.toList_push

theorem memory_step (m : Machine σ) : m.step.machine.memory = m.memory.store m.writes := by
  cases m.stepCase with
  | idle hh heq =>
    rw [heq, writes_of_halted hh]
    rfl
  | undefinedHalt _ hundef _ heq | undefinedSkip _ _ hundef _ _ heq =>
    rw [heq, writes_of_no_operation (operation?_of_undefined hundef)]
    rfl
  | badRegister _ _ _ hdec hbad heq =>
    rw [heq, writes_of_no_operation (operation?_of_bad hdec hbad)]
    rfl
  | refused r _ _ hrun hdec hres _ heq =>
    have hop : m.operation? = some (.print r) := operation?_eq_some_iff.2 ⟨_, hdec, hres⟩
    rw [heq, writes_of_operation hrun hop]
    rfl
  | executed i op done hrun hdec hres hperf heq =>
    have hdone := completes_of_perform hrun hdec hres hperf heq
    have hmemory : m.step.machine.memory = (m.core.perform op).memory :=
      congrArg Core.memory hdone.core
    rw [hmemory, writes_of_operation hrun hdone.operation, Core.memory_perform]
    rfl

theorem takes_top_iff {m : Machine σ} (hrun : m.halted = false) :
    m.operation?.any Operation.readsTop = true
      ↔ m.step.result = .ok (.executed .pop) ∨ m.step.result = .ok (.executed .ret) := by
  constructor
  · intro h
    obtain ⟨op, hop, hreads⟩ := (Option.any_eq_true _ _).1 h
    have hquiet : m.core.printed op = none := by
      cases op with
      | print r => cases hreads
      | _ => rfl
    have hdone : m.Completes op := by
      refine completes_of_operation hrun hop fun v hv => ?_
      rw [hquiet] at hv
      cases hv
    rw [hdone.result]
    rcases Operation.readsTop_iff.1 hreads with hi | hi <;> rw [hi] <;> simp
  · intro h
    have hreads : ∃ op, op.readsTop = true ∧ m.operation? = some op := by
      rcases h with h | h <;> obtain ⟨op, hi, hdone⟩ := exists_completes h
      · exact ⟨op, Operation.readsTop_iff.2 (.inl hi), hdone.operation⟩
      · exact ⟨op, Operation.readsTop_iff.2 (.inr hi), hdone.operation⟩
    obtain ⟨op, hreads, hop⟩ := hreads
    rw [hop, Option.any_some, hreads]

/-- A running machine's step uses the opcode, the operands that a defined opcode announces, and the
top of the stack for a pop or a return. -/
theorem mem_uses {m : Machine σ} {a : UInt8} :
    a ∈ m.uses ↔ m.halted = false
      ∧ ((∃ d ≤ (operandCount (m.fetch 0)).toNat,
          (Instruction.decode (m.fetch 0) = none → d = 0) ∧ a = m.pc + UInt8.ofNat d)
        ∨ a = m.registers.sp ∧ (m.step.result = .ok (.executed .pop)
          ∨ m.step.result = .ok (.executed .ret))) := by
  rcases hrun : m.halted with _ | _
  · rw [uses, hrun, ← mem_instructionCells, ← takes_top_iff hrun]
    by_cases htop : m.operation?.any Operation.readsTop = true <;> simp [htop]
  · simp [uses, hrun]

/-- The machines differ in nothing that the first one's step depends on. -/
structure Alike (a b : Machine σ) : Prop where
  halted : a.halted = b.halted
  policy : a.config.unknownInstruction = b.config.unknownInstruction
  registers : a.registers = b.registers
  pc : a.pc = b.pc
  used : ∀ x ∈ a.uses, a.memory.read x = b.memory.read x
  answers : ∀ v, (OutputSink.emit v a.sink).1 = (OutputSink.emit v b.sink).1

namespace Alike

variable {a b : Machine σ}

theorem instruction_cells (h : a.Alike b) (hrun : a.halted = false) :
    ∀ x ∈ a.instructionCells, a.memory.read x = b.memory.read x := by
  intro x hx
  refine h.used x ?_
  unfold uses
  rw [hrun]
  exact List.mem_append_left _ hx

theorem top (h : a.Alike b) (hrun : a.halted = false) {op : Operation}
    (hop : a.operation? = some op) (hreads : op.readsTop = true) :
    a.memory.read a.registers.sp = b.memory.read a.registers.sp := by
  refine h.used _ ?_
  unfold uses
  rw [hrun, hop, Option.any_some, hreads]
  exact List.mem_append_right _ (List.mem_singleton_self _)

theorem operation?_eq (h : a.Alike b) (hrun : a.halted = false) : a.operation? = b.operation? :=
  operation?_congr h.pc (h.instruction_cells hrun)

theorem handsOut_eq (h : a.Alike b) : a.handsOut = b.handsOut := by
  rcases hrun : a.halted with _ | _
  · have hprinted : a.core.printed = b.core.printed := Core.printed_congr h.registers
    unfold handsOut
    rw [← h.halted, ← h.operation?_eq hrun, hprinted]
  · rw [handsOut_of_halted hrun, handsOut_of_halted (h.halted ▸ hrun)]

theorem writes_eq (h : a.Alike b) : a.writes = b.writes := by
  rcases hrun : a.halted with _ | _
  · have hstored : a.core.stored = b.core.stored := Core.stored_congr h.registers h.pc
    unfold writes
    rw [← h.halted, ← h.operation?_eq hrun, hstored]
  · rw [writes_of_halted hrun, writes_of_halted (h.halted ▸ hrun)]

/-- Machines that differ in nothing that a step depends on take the same step. -/
theorem step (h : a.Alike b) :
    a.step.result = b.step.result ∧ a.step.machine.registers = b.step.machine.registers
      ∧ a.step.machine.pc = b.step.machine.pc := by
  cases a.stepCase with
  | idle hh heq =>
    rw [heq, step_of_halted (h.halted ▸ hh)]
    exact ⟨rfl, h.registers, h.pc⟩
  | undefinedHalt hrun hundef hpol heq =>
    have hopcode := opcode_congr h.pc (h.instruction_cells hrun)
    rw [heq, step_of_undefined_halt (h.halted ▸ hrun) (hopcode ▸ hundef) (h.policy ▸ hpol),
      hopcode, h.pc]
    exact ⟨rfl, h.registers, h.pc⟩
  | undefinedSkip next hrun hundef hpol hnext heq =>
    subst hnext
    have hopcode := opcode_congr h.pc (h.instruction_cells hrun)
    rw [heq, step_of_undefined_skip (h.halted ▸ hrun) (hopcode ▸ hundef) (h.policy ▸ hpol),
      hopcode, h.pc]
    exact ⟨rfl, h.registers, rfl⟩
  | badRegister i index hrun hdec hbad heq =>
    have hcells := h.instruction_cells hrun
    rw [heq, step_of_bad_register (h.halted ▸ hrun) (opcode_congr h.pc hcells ▸ hdec)
      (resolve_fetch_congr h.pc hcells hdec ▸ hbad), h.pc]
    exact ⟨rfl, h.registers, h.pc⟩
  | refused r cause sink hrun hdec hres hrefused heq =>
    have hop : a.operation? = some (.print r) := operation?_eq_some_iff.2 ⟨_, hdec, hres⟩
    have hv : b.handsOut = some (a.registers.get r) :=
      h.handsOut_eq.symm.trans (handsOut_of_operation hrun hop)
    have hanswer := h.answers (a.registers.get r)
    rcases hemit : OutputSink.emit (a.registers.get r) b.sink with ⟨answer, next⟩
    rw [hrefused, hemit] at hanswer
    subst hanswer
    obtain ⟨hresult, hmachine⟩ := step_of_refuses hv hemit
    rw [heq, hresult, hmachine]
    exact ⟨rfl, h.registers, h.pc⟩
  | executed i op done hrun hdec hres hperf heq =>
    have hdone := completes_of_perform hrun hdec hres hperf heq
    have hother : b.Completes op := by
      refine completes_of_operation (h.halted ▸ hrun)
        ((h.operation?_eq hrun).symm.trans hdone.operation) fun v hv => ?_
      have hprinted : a.core.printed = b.core.printed := Core.printed_congr h.registers
      rw [← h.answers v, hdone.accepted v (by rw [hprinted, hv])]
    obtain ⟨hregs, hpc⟩ := Core.perform_congr a.core b.core h.registers h.pc
      (h.top hrun hdone.operation)
    refine ⟨hdone.result.trans hother.result.symm, ?_, ?_⟩
    · exact (congrArg Core.registers hdone.core).trans
        (hregs.trans (congrArg Core.registers hother.core).symm)
    · exact (congrArg Core.pc hdone.core).trans (hpc.trans (congrArg Core.pc hother.core).symm)

end Alike

end Machine

end LS8
