import LS8.Proofs.Bounded
import LS8.Proofs.Code
import LS8.Proofs.Effect
import Mathlib.Logic.Function.Basic

/-!
# Straight lines

Loads, sums, products and prints, one behind the other and then a halt, are a calculation with the
eight registers. The reference for it has natural numbers in the registers and never reduces them
(`Straight.evaluate`). A machine that finds such code at its program counter goes through it in as
many steps as it has instructions, and holds and prints the numbers of the reference modulo 256
(`straight_line_calculates`), since each step keeps the registers congruent to theirs
(`Represents.perform`).
-/

namespace LS8

/-- The operation on natural numbers. -/
def Arithmetic.onNat : Arithmetic → ℕ → ℕ → ℕ
  | .add, a, b => a + b
  | .mul, a, b => a * b

/-- An instruction that leaves memory alone and goes on behind itself. -/
inductive Straight where
  | load (target : Register) (value : UInt8)
  | compute (op : Arithmetic) (target source : Register)
  | print (source : Register)
deriving DecidableEq

namespace Straight

def operation : Straight → Operation
  | load r value => .load r value
  | compute op r s => .compute op r s
  | print r => .print r

/-- What the instruction makes of numbers in the registers. -/
def update (values : Register → ℕ) : Straight → Register → ℕ
  | load r value => Function.update values r value.toNat
  | compute op r s => Function.update values r (op.onNat (values r) (values s))
  | print _ => values

/-- The numbers that the instruction prints. -/
def shown (values : Register → ℕ) : Straight → List ℕ
  | print r => [values r]
  | _ => []

/-- The numbers in the registers after a program, and those that it prints. -/
def evaluate (values : Register → ℕ) : List Straight → (Register → ℕ) × List ℕ
  | [] => (values, [])
  | s :: rest =>
    let (final, printed) := evaluate (s.update values) rest
    (final, s.shown values ++ printed)

/-- The bytes of a program, without a halt behind it. -/
def encode (program : List Straight) : List UInt8 :=
  program.flatMap fun s => s.operation.encode

end Straight

/-- The registers as numbers. -/
def Registers.numbers (registers : Registers) (r : Register) : ℕ :=
  (registers.get r).toNat

/-- The registers hold the numbers modulo 256. -/
def Registers.Represents (registers : Registers) (values : Register → ℕ) : Prop :=
  ∀ r, registers.numbers r = values r % 256

theorem Registers.represents_numbers (registers : Registers) :
    registers.Represents registers.numbers :=
  fun r => (Nat.mod_eq_of_lt (registers.get r).toNat_lt).symm

theorem Arithmetic.toNat_eval (op : Arithmetic) {a b : UInt8} {x y : ℕ} (ha : a.toNat = x % 256)
    (hb : b.toNat = y % 256) : (op.eval a b).toNat = op.onNat x y % 256 := by
  cases op with
  | add => rw [eval, onNat, UInt8.toNat_add, ha, hb, Nat.add_mod x y]
  | mul => rw [eval, onNat, UInt8.toNat_mul, ha, hb, Nat.mul_mod x y]

theorem Registers.Represents.set {registers : Registers} {values : Register → ℕ}
    (h : registers.Represents values) (r : Register) {byte : UInt8} {n : ℕ}
    (hbyte : byte.toNat = n % 256) :
    (registers.set r byte).Represents (Function.update values r n) := by
  intro s
  rw [Registers.numbers, Registers.get_set, Function.update_apply]
  by_cases hs : r = s
  · rw [if_pos hs, if_pos hs.symm, hbyte]
  · rw [if_neg hs, if_neg (Ne.symm hs)]
    exact h s

namespace Straight

/-- An instruction does to the registers what the reference does to the numbers, and goes on behind
itself. -/
theorem represents_perform {c : Core} {values : Register → ℕ} (s : Straight)
    (h : c.registers.Represents values) :
    (c.perform s.operation).registers.Represents (s.update values)
      ∧ (c.perform s.operation).memory = c.memory
      ∧ (c.perform s.operation).pc = c.pc + UInt8.ofNat s.operation.encode.length := by
  rw [Operation.ofNat_length_encode]
  cases s with
  | load r value => exact ⟨h.set r (Nat.mod_eq_of_lt value.toNat_lt).symm, rfl, rfl⟩
  | compute op r t => exact ⟨h.set r (op.toNat_eval (h r) (h t)), rfl, rfl⟩
  | print r => exact ⟨h, rfl, rfl⟩

theorem shown_eq_printed {c : Core} {values : Register → ℕ} (s : Straight)
    (h : c.registers.Represents values) :
    (c.printed s.operation).toList.map UInt8.toNat = (s.shown values).map (· % 256) := by
  cases s with
  | print r => exact congrArg (fun n => [n]) (h r)
  | load | compute => rfl

end Straight

namespace Machine

/-- The second machine is the first after a program that turned the numbers into what the reference
gives for them. -/
structure Calculated (m m' : Machine Collector) (values : Register → ℕ) (program : List Straight) :
    Prop where
  running : m'.halted = false
  registers : m'.registers.Represents (Straight.evaluate values program).1
  printed : m'.sink.values.toList.map UInt8.toNat
    = m.sink.values.toList.map UInt8.toNat ++ (Straight.evaluate values program).2.map (· % 256)
  memory : m'.memory = m.memory
  pc : m'.pc = m.pc + UInt8.ofNat (Straight.encode program).length

variable {m : Machine Collector} {values : Register → ℕ}

theorem completes_of_stores {op : Operation} (hrun : m.halted = false)
    (h : m.memory.Stores m.pc op.encode) : m.Completes op :=
  completes_of_operation hrun (operation?_of_stores h) fun _ _ => rfl

theorem calculated_step {s : Straight} (hrun : m.halted = false)
    (hstored : m.memory.Stores m.pc s.operation.encode) (h : m.registers.Represents values) :
    (∃ o, m.step.result = .ok o) ∧ m.Calculated m.step.machine values [s] := by
  have hdone := completes_of_stores hrun hstored
  have hcore := hdone.core
  obtain ⟨hregs, hmemory, hpc⟩ := Straight.represents_perform (c := m.core) s h
  refine ⟨⟨_, hdone.result⟩, ?_, ?_, ?_, ?_, ?_⟩
  · rw [hdone.halted]
    cases s <;> rfl
  · rw [← hcore] at hregs
    exact hregs
  · rw [collected_step, handsOut_of_operation hrun hdone.operation, List.map_append,
      Straight.shown_eq_printed (c := m.core) s h]
    simp [Straight.evaluate]
  · rw [← hcore] at hmemory
    exact hmemory
  · rw [← hcore] at hpc
    rw [Straight.encode, List.flatMap_singleton]
    exact hpc

theorem Calculated.trans {m' m'' : Machine Collector} {s : Straight} {rest : List Straight}
    (h : m.Calculated m' values [s]) (h' : m'.Calculated m'' (s.update values) rest) :
    m.Calculated m'' values (s :: rest) := by
  refine ⟨h'.running, h'.registers, ?_, h'.memory.trans h.memory, ?_⟩
  · rw [h'.printed, h.printed]
    simp [Straight.evaluate]
  · rw [h'.pc, h.pc]
    simp [Straight.encode, UInt8.ofNat_add, UInt8.add_assoc]

theorem calculated_after : ∀ (program : List Straight) {m : Machine Collector}
    {values : Register → ℕ}, m.halted = false →
    m.memory.Stores m.pc (Straight.encode program) → m.registers.Represents values →
      m.Advances program.length ∧ m.Calculated (m.after program.length) values program
  | [], m, values, hrun, _, h => by
    refine ⟨m.advances_zero, hrun, h, ?_, rfl, ?_⟩ <;> simp [Straight.evaluate, Straight.encode]
  | s :: rest, m, values, hrun, hstored, h => by
    obtain ⟨hfirst, hrest⟩ := Memory.stores_append.1 hstored
    obtain ⟨hok, hstep⟩ := calculated_step hrun hfirst h
    have hvalues : m.step.machine.registers.Represents (s.update values) := hstep.registers
    rw [← hstep.memory] at hrest
    have hpc : m.step.machine.pc = m.pc + UInt8.ofNat s.operation.encode.length := by
      simpa [Straight.encode] using hstep.pc
    rw [← hpc] at hrest
    obtain ⟨hadv, hafter⟩ := calculated_after rest hstep.running hrest hvalues
    exact ⟨advances_succ_iff.2 ⟨⟨hrun, hok⟩, hadv⟩, hstep.trans hafter⟩

/-- A machine that finds a straight line and a halt behind it at its program counter runs to the
halt and leaves the numbers of the reference modulo 256. The code may go round address zero. -/
theorem straight_line_calculates {program : List Straight} (running : m.halted = false)
    (stored : m.memory.Stores m.pc (Straight.encode program ++ [Instruction.hlt.opcode])) {n : ℕ}
    (enough : program.length + 1 ≤ n) :
    (m.runFor n).result = .ok (program.length + 1)
      ∧ (m.runFor n).machine.sink.values.toList.map UInt8.toNat
        = m.sink.values.toList.map UInt8.toNat
          ++ (Straight.evaluate m.registers.numbers program).2.map (· % 256)
      ∧ (∀ r, (m.runFor n).machine.registers.numbers r
        = (Straight.evaluate m.registers.numbers program).1 r % 256)
      ∧ (m.runFor n).machine.memory = m.memory
      ∧ (m.runFor n).machine.pc = m.pc + UInt8.ofNat (Straight.encode program).length
      ∧ (m.runFor n).machine.memory.read (m.runFor n).machine.pc = Instruction.hlt.opcode := by
  obtain ⟨hline, hhalt⟩ := Memory.stores_append.1 stored
  obtain ⟨hadv, hafter⟩ := calculated_after program running hline m.registers.represents_numbers
  have hstored : (m.after program.length).memory.Stores (m.after program.length).pc
      Operation.halt.encode := by
    rw [hafter.memory, hafter.pc]
    exact hhalt
  have hdone := completes_of_stores hafter.running hstored
  have hends : m.EndsAt (program.length + 1) (.ok ()) := by
    refine .halted (advances_add_iff.2 ⟨hadv, advances_succ_iff.2 ⟨⟨hafter.running, _, hdone.result⟩,
      advances_zero _⟩⟩) ?_
    rw [after_succ, hdone.halted]
    rfl
  have hsink : (m.after (program.length + 1)).sink = (m.after program.length).sink := by
    rw [after_succ, hdone.quiet rfl]
  have hcore : (m.after (program.length + 1)).core = (m.after program.length).core := by
    rw [after_succ, hdone.core]
    rfl
  have hregs : (m.after (program.length + 1)).registers = (m.after program.length).registers :=
    congrArg Core.registers hcore
  have hmemory : (m.after (program.length + 1)).memory = m.memory :=
    (congrArg Core.memory hcore).trans hafter.memory
  have hpc : (m.after (program.length + 1)).pc = m.pc + UInt8.ofNat (Straight.encode program).length :=
    (congrArg Core.pc hcore).trans hafter.pc
  rw [runFor_of_endsAt hends enough]
  refine ⟨rfl, ?_, ?_, hmemory, hpc, ?_⟩
  · rw [hsink]
    exact hafter.printed
  · rw [hregs]
    exact hafter.registers
  · have hcell := hhalt 0 Nat.zero_lt_one
    rw [hmemory, hpc]
    simpa using hcell

/-- Doubles 200 in the stack pointer, squares and prints it, from four cells before the last address
on. -/
def squares : Machine Collector :=
  let code := [(0xFC, 0x82), (0xFD, 7), (0xFE, 200), (0xFF, 0xA0), (0, 7), (1, 7), (2, 0xA2), (3, 7),
    (4, 7), (5, 0x47), (6, 7), (7, 0x01)]
  { initial ({} : Collector) {} with
    pc := 0xFC
    memory := code.foldl (fun memory cell => memory.write cell.1 cell.2) Memory.zero }

theorem straight_line_calculates_squares :
    squares.memory.Stores squares.pc (Straight.encode
        [.load 7 200, .compute .add 7 7, .compute .mul 7 7, .print 7] ++ [Instruction.hlt.opcode])
      ∧ (squares.runFor 9).result = .ok 5
      ∧ (squares.runFor 9).machine.sink.values.toList.map UInt8.toNat = [400 * 400 % 256]
      ∧ (squares.runFor 9).machine.pc = 7 := by
  have hstored : squares.memory.Stores squares.pc (Straight.encode
      [.load 7 200, .compute .add 7 7, .compute .mul 7 7, .print 7] ++ [Instruction.hlt.opcode]) := by
    decide +kernel
  obtain ⟨hresult, hprinted, -, -, hpc, -⟩ := straight_line_calculates (m := squares) rfl hstored
    (by decide : 5 ≤ 9)
  exact ⟨hstored, hresult, hprinted, hpc⟩

end Machine

end LS8
