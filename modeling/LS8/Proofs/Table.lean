import LS8.Proofs.Core
import Mathlib.Data.Nat.Notation

/-!
# The instruction table

The instructions as documented, over lists of natural numbers and modulo 256
(`Numbers.execute`), with no bytes and no checked register indices. A machine shows as numbers
(`Machine.numbers`), and a step from a running machine whose opcode is defined, whose register
operands name registers and whose output accepts does to the numbers what the table says; an
opcode that is passed over is none of the table, and moves the program counter only
(`step_eq_table`).
-/

namespace LS8

/-- A machine's state as plain numbers. -/
@[ext] structure Numbers where
  registers : List ℕ
  memory : List ℕ
  pc : ℕ
  halted : Bool

namespace Numbers

/-- What an instruction of the table does: the state it leaves, and the value it prints. -/
structure Effect where
  instruction : Instruction
  state : Numbers
  printed : Option ℕ := none

def register (s : Numbers) (n : ℕ) : ℕ :=
  s.registers.getD n 0

def cell (s : Numbers) (address : ℕ) : ℕ :=
  s.memory.getD (address % 256) 0

def setRegister (s : Numbers) (n value : ℕ) : Numbers :=
  { s with registers := s.registers.set n (value % 256) }

def setCell (s : Numbers) (address value : ℕ) : Numbers :=
  { s with memory := s.memory.set (address % 256) (value % 256) }

def goTo (s : Numbers) (address : ℕ) : Numbers :=
  { s with pc := address % 256 }

/-- The table, by opcode. Modulo 256, adding 255 is taking one away. -/
def execute (s : Numbers) : Option Effect :=
  let a := s.cell (s.pc + 1)
  let b := s.cell (s.pc + 2)
  match s.cell s.pc with
  | 0b10000010 => some { instruction := .ldi, state := (s.setRegister a b).goTo (s.pc + 3) }
  | 0b01000111 =>
    some { instruction := .prn, state := s.goTo (s.pc + 2), printed := some (s.register a) }
  | 0b00000001 => some { instruction := .hlt, state := { s with halted := true } }
  | 0b10100000 =>
    let sum := s.register a + s.register b
    some { instruction := .add, state := (s.setRegister a sum).goTo (s.pc + 3) }
  | 0b10100010 =>
    let product := s.register a * s.register b
    some { instruction := .mul, state := (s.setRegister a product).goTo (s.pc + 3) }
  | 0b01000101 =>
    let t := s.setRegister 7 (s.register 7 + 255)
    some
      { instruction := .push, state := (t.setCell (t.register 7) (t.register a)).goTo (s.pc + 2) }
  | 0b01000110 =>
    let t := s.setRegister a (s.cell (s.register 7))
    some { instruction := .pop, state := (t.setRegister 7 (t.register 7 + 1)).goTo (s.pc + 2) }
  | 0b01010000 =>
    let t := s.setRegister 7 (s.register 7 + 255)
    some { instruction := .call, state := (t.setCell (t.register 7) (s.pc + 2)).goTo (t.register a) }
  | 0b00010001 =>
    let t := s.setRegister 7 (s.register 7 + 1)
    some { instruction := .ret, state := t.goTo (s.cell (s.register 7)) }
  | _ => none

/-- A core in numbers, with the flag that a machine has beside it. -/
def ofCore (c : Core) (halted : Bool) : Numbers where
  registers := c.registers.toList.map UInt8.toNat
  memory := c.memory.toList.map UInt8.toNat
  pc := c.pc.toNat
  halted

variable (c : Core) (halted : Bool)

@[simp] theorem pc_ofCore : (ofCore c halted).pc = c.pc.toNat := rfl

@[simp] theorem register_ofCore (r : Register) :
    (ofCore c halted).register r.val = (c.registers.get r).toNat := by
  simp [register, ofCore, Registers.getElem?_toList]

@[simp] theorem cell_ofCore (address : ℕ) :
    (ofCore c halted).cell address = (c.memory.read (UInt8.ofNat address)).toNat := by
  have h := Memory.getElem?_toList c.memory (UInt8.ofNat address)
  rw [UInt8.toNat_ofNat'] at h
  simp [cell, ofCore, h]

@[simp] theorem setRegister_ofCore (r : Register) (value : ℕ) :
    (ofCore c halted).setRegister r.val value
      = ofCore { c with registers := c.registers.set r (UInt8.ofNat value) } halted := by
  simp [setRegister, ofCore, Registers.toList_set, List.map_set]

@[simp] theorem setCell_ofCore (address value : ℕ) :
    (ofCore c halted).setCell address value
      = ofCore { c with memory := c.memory.write (UInt8.ofNat address) (UInt8.ofNat value) }
          halted := by
  simp [setCell, ofCore, Memory.toList_write, List.map_set]

@[simp] theorem goTo_ofCore (address : ℕ) :
    (ofCore c halted).goTo address = ofCore { c with pc := UInt8.ofNat address } halted := by
  simp [goTo, ofCore]

@[simp] theorem register_sp_ofCore :
    (ofCore c halted).register 7 = c.registers.sp.toNat :=
  register_ofCore c halted .stackPointer

@[simp] theorem setRegister_sp_ofCore (value : ℕ) :
    (ofCore c halted).setRegister 7 value
      = ofCore { c with registers := c.registers.setSp (UInt8.ofNat value) } halted :=
  setRegister_ofCore c halted .stackPointer value

theorem add_255 (b : UInt8) : b + 255 = b - 1 := by grind

variable {c}

theorem execute_of_undefined (h : Instruction.decode (c.memory.read c.pc) = none) :
    (ofCore c halted).execute = none := by
  have hne : ∀ i : Instruction, (ofCore c halted).cell c.pc.toNat ≠ i.opcode.toNat := by
    intro i heq
    rw [cell_ofCore, UInt8.ofNat_toNat, UInt8.toNat_inj] at heq
    rw [heq, Instruction.decode_opcode] at h
    cases h
  simp only [execute, pc_ofCore]
  split
  · exact absurd ‹_› (hne .ldi)
  · exact absurd ‹_› (hne .prn)
  · exact absurd ‹_› (hne .hlt)
  · exact absurd ‹_› (hne .add)
  · exact absurd ‹_› (hne .mul)
  · exact absurd ‹_› (hne .push)
  · exact absurd ‹_› (hne .pop)
  · exact absurd ‹_› (hne .call)
  · exact absurd ‹_› (hne .ret)
  · rfl

theorem execute_of_resolve {i : Instruction} {op : Operation}
    (hdec : Instruction.decode (c.memory.read c.pc) = some i)
    (hres : Operation.resolve i (c.memory.read (c.pc + 1)) (c.memory.read (c.pc + 2)) = .ok op) :
    (ofCore c halted).execute = some
      { instruction := i
        state := ofCore (c.perform op) (halted || decide (op = .halt))
        printed := (c.printed op).map UInt8.toNat } := by
  have hbyte := Instruction.opcode_of_decode hdec
  obtain rfl := Operation.instruction_of_resolve hres
  have hoperands := Operation.hasOperands_of_resolve hres
  have h0 : (ofCore c halted).cell c.pc.toNat = op.instruction.opcode.toNat := by
    simp [hbyte]
  have ha : (ofCore c halted).cell (c.pc.toNat + 1) = (c.memory.read (c.pc + 1)).toNat := by
    simp [UInt8.ofNat_add]
  have hb : (ofCore c halted).cell (c.pc.toNat + 2) = (c.memory.read (c.pc + 2)).toNat := by
    simp [UInt8.ofNat_add]
  cases op with
  | load r value =>
    obtain ⟨hr, rfl⟩ := hoperands
    simp only [execute, pc_ofCore, h0, ha, hb, ← hr, Operation.instruction, Instruction.opcode]
    simp [UInt8.ofNat_add, Core.perform, Core.printed, Operation.instruction, Instruction.size_eq]
  | print r =>
    have hr : r.val = _ := hoperands
    simp only [execute, pc_ofCore, h0, ha, ← hr, Operation.instruction, Instruction.opcode]
    simp [UInt8.ofNat_add, Core.perform, Core.printed, Operation.instruction, Instruction.size_eq]
  | halt =>
    simp only [execute, pc_ofCore, h0, Operation.instruction, Instruction.opcode]
    simp [Core.perform, Core.printed, ofCore]
  | compute o r s =>
    obtain ⟨hr, hs⟩ := hoperands
    cases o
    · simp only [execute, pc_ofCore, h0, ha, hb, ← hr, ← hs, Operation.instruction,
        Arithmetic.instruction, Instruction.opcode]
      simp [UInt8.ofNat_add, Core.perform, Core.printed, Operation.instruction,
        Arithmetic.instruction, Arithmetic.eval, Instruction.size_eq]
    · simp only [execute, pc_ofCore, h0, ha, hb, ← hr, ← hs, Operation.instruction,
        Arithmetic.instruction, Instruction.opcode]
      simp [UInt8.ofNat_add, Core.perform, Core.printed, Operation.instruction,
        Arithmetic.instruction, Arithmetic.eval, Instruction.size_eq]
  | push r =>
    have hr : r.val = _ := hoperands
    simp only [execute, pc_ofCore, h0, ha, ← hr, Operation.instruction, Instruction.opcode]
    simp [UInt8.ofNat_add, add_255, Core.perform, Core.printed, Operation.instruction,
      Instruction.size_eq, Registers.lowerSp]
  | pop r =>
    have hr : r.val = _ := hoperands
    simp only [execute, pc_ofCore, h0, ha, ← hr, Operation.instruction, Instruction.opcode]
    simp [UInt8.ofNat_add, Core.perform, Core.printed, Operation.instruction,
      Instruction.size_eq, Registers.raiseSp]
  | call r =>
    have hr : r.val = _ := hoperands
    simp only [execute, pc_ofCore, h0, ha, ← hr, Operation.instruction, Instruction.opcode]
    simp [UInt8.ofNat_add, add_255, Core.perform, Core.printed, Operation.instruction,
      Instruction.size_eq, Registers.lowerSp]
  | ret =>
    simp only [execute, pc_ofCore, h0, Operation.instruction, Instruction.opcode]
    simp [UInt8.ofNat_add, Core.perform, Core.printed, Registers.raiseSp]

end Numbers

namespace Machine

variable {σ : Type}

def numbers (m : Machine σ) : Numbers :=
  Numbers.ofCore m.core m.halted

variable [OutputSink σ]

/-- What the sink is after a printed value, if there is one: the value was accepted. -/
def Delivers (before : σ) (printed : Option ℕ) (after : σ) : Prop :=
  match printed with
  | none => after = before
  | some value => OutputSink.emit (UInt8.ofNat value) before = (.ok (), after)

theorem Completes.execute {m : Machine σ} {op : Operation} (h : m.Completes op) :
    ∃ printed, m.numbers.execute = some
        { instruction := op.instruction, state := m.step.machine.numbers, printed }
      ∧ Delivers m.sink printed m.step.machine.sink := by
  obtain ⟨i, hdec, hres⟩ := operation?_eq_some_iff.1 h.operation
  obtain rfl := Operation.instruction_of_resolve hres
  rw [fetch_zero] at hdec
  refine ⟨(m.core.printed op).map UInt8.toNat, ?_, ?_⟩
  · rw [numbers, numbers, h.core, h.halted,
      Numbers.execute_of_resolve (c := m.core) m.halted hdec hres, h.running, Bool.false_or]
  · rcases hp : m.core.printed op with _ | v
    · exact h.quiet hp
    · simpa [Delivers] using h.accepted v hp

/-- A step does what the documented table says, over numbers modulo 256: it performs the
instruction of a defined opcode, and only moves the program counter past an opcode that the table
does not have and that is passed over. -/
theorem step_eq_table (m : Machine σ) (running : m.halted = false) :
    (∀ i, Instruction.decode (m.memory.read m.pc) = some i →
        (∀ x ∈ i.registerOperands (m.memory.read (m.pc + 1)) (m.memory.read (m.pc + 2)),
          x.toNat < registerCount) →
        (i = .prn → ∀ r : Register, r.val = (m.memory.read (m.pc + 1)).toNat →
          (OutputSink.emit (m.registers.get r) m.sink).1 = .ok ()) →
        m.step.result = .ok (.executed i) ∧ m.step.machine.config = m.config
          ∧ m.step.machine.stats = m.stats.completed i
          ∧ ∃ printed, m.numbers.execute = some
              { instruction := i, state := m.step.machine.numbers, printed }
            ∧ Delivers m.sink printed m.step.machine.sink)
      ∧ (Instruction.decode (m.memory.read m.pc) = none → m.config.unknownInstruction = .skip →
        m.step.result = .ok (.skipped (m.memory.read m.pc) m.pc) ∧ m.numbers.execute = none
          ∧ m.step.machine.numbers
            = m.numbers.goTo (m.pc.toNat + ((m.memory.read m.pc).toNat / 64 % 4 + 1))
          ∧ m.step.machine.config = m.config ∧ m.step.machine.sink = m.sink
          ∧ m.step.machine.stats
            = { m.stats with steps := m.stats.steps + 1, skipped := m.stats.skipped + 1 }) := by
  refine ⟨fun i hdec hregs haccepts => ?_, fun hundef hskip => ?_⟩
  · obtain ⟨op, hres⟩ := Operation.exists_resolve hregs
    have hop : m.operation? = some op :=
      operation?_eq_some_iff.2 ⟨i, by rw [fetch_zero, hdec], hres⟩
    have hdone : m.Completes op := by
      refine completes_of_operation running hop fun v hv => ?_
      cases op with
      | print r =>
        cases hv
        exact haccepts (Operation.instruction_of_resolve hres).symm r
          (Operation.hasOperands_of_resolve hres)
      | _ => cases hv
    obtain rfl := Operation.instruction_of_resolve hres
    exact ⟨hdone.result, hdone.config, hdone.stats, hdone.execute⟩
  · have hnone : m.numbers.execute = none := Numbers.execute_of_undefined m.halted hundef
    rw [← fetch_zero] at hundef ⊢
    cases m.stepCase with
    | undefinedSkip next _ _ _ hnext heq =>
      rw [heq]
      refine ⟨rfl, hnone, ?_, rfl, rfl, rfl⟩
      · show Numbers.ofCore ⟨m.registers, m.memory, next⟩ m.halted = m.numbers.goTo _
        rw [hnext, numbers, Numbers.goTo_ofCore, ← toNat_encodedLength (m.fetch 0), UInt8.ofNat_add]
        simp [core]
    | idle hh _ => simp [running] at hh
    | undefinedHalt _ _ hpol _ => simp [hskip] at hpol
    | badRegister _ _ _ hdec _ _ => simp [hundef] at hdec
    | refused _ _ _ _ hdec _ _ _ => simp [hundef] at hdec
    | executed _ _ _ _ hdec _ _ _ => simp [hundef] at hdec

/-- A call at the last address: its operand lies at address zero, where it also pushes the return
address, and it goes to where the stack pointer then points. -/
def selfCall : Machine Collector :=
  { initial ({} : Collector) {} with
    registers := Registers.initial 1
    pc := 0xFF
    memory := (Memory.zero.write 0xFF 0x50).write 0 7 }

/-- An undefined opcode that announces three operands, two bytes before the end of memory. -/
def passing : Machine Collector :=
  { initial ({} : Collector) { unknownInstruction := .skip } with
    pc := 0xFE
    memory := Memory.zero.write 0xFE 0xFF }

theorem step_eq_table_selfCall :
    selfCall.halted = false ∧ selfCall.step.result = .ok (.executed .call)
      ∧ (∃ printed, selfCall.numbers.execute = some
          { instruction := .call, state := selfCall.step.machine.numbers, printed }
        ∧ Delivers selfCall.sink printed selfCall.step.machine.sink)
      ∧ passing.halted = false ∧ passing.step.result = .ok (.skipped 0xFF 0xFE)
      ∧ passing.step.machine.numbers = passing.numbers.goTo (0xFE + 4) := by
  obtain ⟨hresult, -, -, heffect⟩ := (step_eq_table selfCall rfl).1 .call (by decide +kernel)
    (by decide +kernel) nofun
  obtain ⟨hskip, -, hnumbers, -⟩ := (step_eq_table passing rfl).2 (by decide +kernel) rfl
  have hbyte : passing.memory.read passing.pc = 0xFF := by decide +kernel
  rw [hbyte] at hskip hnumbers
  exact ⟨rfl, hresult, heffect, rfl, hskip, hnumbers⟩

end Machine

end LS8
