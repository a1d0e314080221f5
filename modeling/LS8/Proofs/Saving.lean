import LS8.Proofs.Core
import LS8.Proofs.Run

/-!
# Registers saved on the stack

A push stores what its register holds once the stack pointer is lowered, and a pop raises the
pointer that its value leaves behind. So a pop undoes the push of the same register, the stack
pointer's no less than any other's, as long as the cell keeps its value (`Core.Restored.pop`). Up to
256 pushes write to different cells, and pops in the opposite order bring all the registers back
(`Core.restored_saving`). A machine that meets these operations completes them, and its output does
not see them (`saving_restores`).
-/

namespace LS8

namespace Registers

theorem set_get (r : Registers) (i : Register) : r.set i (r.get i) = r := by
  refine ext_get fun j => ?_
  rw [get_set]
  split_ifs with h
  · rw [h]
  · rfl

theorem raiseSp_lowerSp (r : Registers) : r.lowerSp.raiseSp = r := by
  refine ext_get fun j => ?_
  rw [get_raiseSp, sp_lowerSp, get_lowerSp]
  split_ifs with h
  · rw [h, UInt8.sub_add_cancel]
    rfl
  · rfl

end Registers

namespace Operation

/-- Pushes of registers and then pops in the opposite order. -/
def saving (rs : List Register) : List Operation :=
  rs.map .push ++ rs.reverse.map .pop

theorem saving_cons (r : Register) (rs : List Register) :
    saving (r :: rs) = .push r :: (saving rs ++ [.pop r]) := by
  simp [saving]

theorem length_saving (rs : List Register) : (saving rs).length = 2 * rs.length := by
  simp [saving]
  omega

/-- The operation neither prints nor halts. -/
def Internal (op : Operation) : Prop :=
  op ≠ .halt ∧ ∀ c : Core, c.printed op = none

theorem internal_of_mem_saving {rs : List Register} {op : Operation} (h : op ∈ saving rs) :
    op.Internal := by
  rcases List.mem_append.1 h with h | h
  all_goals
    obtain ⟨r, -, rfl⟩ := List.mem_map.1 h
    exact ⟨Operation.noConfusion, fun _ => rfl⟩

end Operation

namespace Core

/-- The core after operations, one behind the other. -/
def performAll (c : Core) (ops : List Operation) : Core :=
  ops.foldl perform c

/-- The second core is the first one with four bytes of code behind it for each register that was
saved, and with other values at most in as many cells below the stack pointer. -/
structure Restored (c c' : Core) (depth : ℕ) : Prop where
  registers : c'.registers = c.registers
  pc : c'.pc = c.pc + UInt8.ofNat (4 * depth)
  memory : ∀ a, (∀ d, 1 ≤ d → d ≤ depth → a ≠ c.registers.sp - UInt8.ofNat d) →
    c'.memory.read a = c.memory.read a

variable {c c' : Core}

theorem sub_ofNat_ne (a : UInt8) {d : ℕ} (hpos : 1 ≤ d) (hlt : d < 256) :
    a - UInt8.ofNat d ≠ a := by
  intro heq
  have hbyte : UInt8.ofNat d = 0 := by grind
  have hnat := congrArg UInt8.toNat hbyte
  simp at hnat
  omega

theorem perform_push (c : Core) (r : Register) :
    c.perform (.push r) = ⟨c.registers.lowerSp,
      c.memory.write (c.registers.sp - 1) (c.registers.lowerSp.get r), c.pc + 2⟩ := by
  simp [perform, Operation.instruction, Instruction.size_eq]

theorem perform_pop (c : Core) (r : Register) :
    c.perform (.pop r) = ⟨(c.registers.set r (c.memory.read c.registers.sp)).raiseSp, c.memory,
      c.pc + 2⟩ := by
  simp [perform, Operation.instruction, Instruction.size_eq]

/-- A pop undoes a push of the same register if what came in between brought the registers back and
wrote only below the cell that was pushed. -/
theorem Restored.pop {r : Register} {depth : ℕ} (h : (c.perform (.push r)).Restored c' depth)
    (hdepth : depth < 256) : c.Restored (c'.perform (.pop r)) (depth + 1) := by
  obtain ⟨hregs, hpc, hmemory⟩ := h
  simp only [perform_push, Registers.sp_lowerSp] at hregs hpc hmemory
  have hcell : c'.memory.read (c.registers.sp - 1) = c.registers.lowerSp.get r := by
    rw [hmemory _ fun d hpos hle => (sub_ofNat_ne _ hpos (by omega)).symm,
      Memory.read_write_self]
  rw [perform_pop, hregs, hpc]
  refine ⟨?_, ?_, fun a ha => ?_⟩
  · change (c.registers.lowerSp.set r (c'.memory.read c.registers.lowerSp.sp)).raiseSp = _
    rw [Registers.sp_lowerSp, hcell, Registers.set_get, Registers.raiseSp_lowerSp]
  · rw [Nat.mul_succ, UInt8.ofNat_add]
    change c.pc + 2 + UInt8.ofNat (4 * depth) + 2 = c.pc + (UInt8.ofNat (4 * depth) + 4)
    grind
  · have hfirst : c.registers.sp - 1 ≠ a := (ha 1 (Nat.le_refl 1) (by omega)).symm
    have hbelow : ∀ d, 1 ≤ d → d ≤ depth → a ≠ c.registers.sp - 1 - UInt8.ofNat d := by
      intro d hpos hle
      have hne := ha (d + 1) (by omega) (by omega)
      rw [UInt8.ofNat_add] at hne
      grind
    exact (hmemory a hbelow).trans (Memory.read_write_of_ne _ _ hfirst)

theorem restored_saving : ∀ (rs : List Register) (c : Core), rs.length ≤ 256 →
    c.Restored (c.performAll (Operation.saving rs)) rs.length
  | [], c, _ => ⟨rfl, (UInt8.add_zero _).symm, fun _ _ => rfl⟩
  | r :: rs, c, h => by
    have hinner := restored_saving rs (c.perform (.push r)) (Nat.le_of_succ_le h)
    rw [Operation.saving_cons, performAll, List.foldl_cons, List.foldl_append]
    exact hinner.pop h

end Core

namespace Machine

variable {σ : Type} [OutputSink σ]

/-- The next steps find the operations one behind the other. -/
def Meets (m : Machine σ) (ops : List Operation) : Prop :=
  ∀ k (h : k < ops.length), (m.after k).operation? = some ops[k]

variable {m : Machine σ}

theorem meets_cons_iff {op : Operation} {ops : List Operation} :
    m.Meets (op :: ops) ↔ m.operation? = some op ∧ m.step.machine.Meets ops := by
  constructor
  · intro h
    exact ⟨h 0 (Nat.zero_lt_succ _), fun k hk => h (k + 1) (Nat.succ_lt_succ hk)⟩
  · rintro ⟨hop, h⟩ k hk
    cases k with
    | zero => exact hop
    | succ k => exact h k (Nat.lt_of_succ_lt_succ hk)

/-- The second machine is the first one after operations that its output does not see. -/
structure Performed (m m' : Machine σ) (ops : List Operation) : Prop where
  running : m'.halted = false
  core : m'.core = m.core.performAll ops
  sink : m'.sink = m.sink

theorem performed_of_meets : ∀ {ops : List Operation} {m : Machine σ}, m.halted = false →
    (∀ op ∈ ops, op.Internal) → m.Meets ops →
      (∀ k (h : k < ops.length), (m.after k).Completes ops[k])
        ∧ m.Performed (m.after ops.length) ops
  | [], _, hrun, _, _ => ⟨fun _ hk => absurd hk (Nat.not_lt_zero _), hrun, rfl, rfl⟩
  | op :: ops, m, hrun, hinternal, h => by
    obtain ⟨hop, hmeets⟩ := meets_cons_iff.1 h
    obtain ⟨hne, hsilent⟩ := hinternal op List.mem_cons_self
    have hdone : m.Completes op := completes_of_operation hrun hop fun v hv => by
      rw [hsilent] at hv
      cases hv
    have hrun' : m.step.machine.halted = false := by
      rw [hdone.halted]
      exact decide_eq_false hne
    obtain ⟨hcompletes, hrunning, hcore, hsink⟩ := performed_of_meets hrun'
      (fun op' hmem => hinternal op' (List.mem_cons_of_mem _ hmem)) hmeets
    refine ⟨fun k hk => ?_, hrunning, ?_, hsink.trans (hdone.quiet (hsilent _))⟩
    · cases k with
      | zero => exact hdone
      | succ k => exact hcompletes k (Nat.lt_of_succ_lt_succ hk)
    · rw [hdone.core] at hcore
      exact hcore

/-- A running machine that meets pushes of up to 256 registers, and then pops of the same registers
in the opposite order, executes them all. All eight registers are as before, whether or not the
stack pointer is among those pushed, and so are the output and every cell but those just below
where the stack pointer is. -/
theorem saving_restores {rs : List Register} (running : m.halted = false) (hlen : rs.length ≤ 256)
    (h : m.Meets (Operation.saving rs)) :
    (∀ k (hk : k < (Operation.saving rs).length),
        (m.after k).step.result = .ok (.executed (Operation.saving rs)[k].instruction))
      ∧ (m.after (2 * rs.length)).registers = m.registers
      ∧ (m.after (2 * rs.length)).pc = m.pc + UInt8.ofNat (4 * rs.length)
      ∧ (m.after (2 * rs.length)).sink = m.sink
      ∧ ∀ a, (∀ d, 1 ≤ d → d ≤ rs.length → a ≠ m.registers.sp - UInt8.ofNat d) →
        (m.after (2 * rs.length)).memory.read a = m.memory.read a := by
  obtain ⟨hcompletes, -, hcore, hsink⟩ :=
    performed_of_meets running (fun _ hmem => Operation.internal_of_mem_saving hmem) h
  rw [Operation.length_saving] at hcore hsink
  have hrestored := Core.restored_saving rs m.core hlen
  rw [← hcore] at hrestored
  exact ⟨fun k hk => (hcompletes k hk).result, hrestored.registers, hrestored.pc, hsink,
    hrestored.memory⟩

/-- Code that saves another register and then the stack pointer twice. The first push writes over its
own opcode, at address zero, and the others go on from the last address. -/
def savesPointer : Machine Collector :=
  let code := [(0, 0x45), (1, 0x03), (2, 0x45), (3, 0x07), (4, 0x45), (5, 0x07),
    (6, 0x46), (7, 0x07), (8, 0x46), (9, 0x07), (0xA, 0x46), (0xB, 0x03)]
  { initial ({} : Collector) {} with
    registers := (Registers.initial 1).set ⟨3, by decide⟩ 0x2A
    memory := code.foldl (fun memory cell => memory.write cell.1 cell.2) Memory.zero }

theorem saving_restores_savesPointer :
    savesPointer.Meets
        (Operation.saving [⟨3, by decide⟩, Register.stackPointer, Register.stackPointer])
      ∧ ([0, 0xFF, 0xFE].map fun a => (savesPointer.after 3).memory.read a) = [0x2A, 0xFF, 0xFE]
      ∧ (savesPointer.after 6).registers = savesPointer.registers
      ∧ (savesPointer.after 6).pc = 12
      ∧ (savesPointer.after 6).memory.read 1 = savesPointer.memory.read 1 := by
  have hmeets : savesPointer.Meets
      (Operation.saving [⟨3, by decide⟩, Register.stackPointer, Register.stackPointer]) := by
    unfold Meets
    decide +kernel
  obtain ⟨-, hregs, hpc, -, hmemory⟩ := saving_restores rfl (by decide) hmeets
  refine ⟨hmeets, by decide +kernel, hregs, hpc, hmemory 1 fun d hpos hle => ?_⟩
  replace hle : d ≤ 3 := hle
  obtain rfl | rfl | rfl : d = 1 ∨ d = 2 ∨ d = 3 := by omega
  all_goals decide +kernel

end Machine

end LS8
