/-!
# Instructions

The nine instructions of the LS-8 and their opcode bytes. The top two bits of a byte announce how
many operand bytes follow it, whether or not the byte is a defined opcode, so an undefined byte has
a length too. Decoding is the inverse of the opcode table (`decode_opcode`, `opcode_of_decode`).
-/

namespace LS8

/-- How far the operand count is shifted in an opcode byte. -/
def operandShift : UInt8 := 6

/-- The bits of the operand count after the shift. -/
def operandMask : UInt8 := 0b11

/-- The operand bytes that follow a byte read as an opcode. -/
def operandCount (byte : UInt8) : UInt8 :=
  (byte >>> operandShift) &&& operandMask

/-- The bytes an instruction takes with its operands. -/
def encodedLength (byte : UInt8) : UInt8 :=
  operandCount byte + 1

theorem toNat_encodedLength (byte : UInt8) :
    (encodedLength byte).toNat = byte.toNat / 64 % 4 + 1 := by
  have hmask := Nat.and_two_pow_sub_one_eq_mod (byte.toNat / 64) 2
  simp only [Nat.reducePow, Nat.reduceSub] at hmask
  simp only [encodedLength, operandCount, operandShift, operandMask, UInt8.toNat_add,
    UInt8.toNat_and, UInt8.toNat_shiftRight, UInt8.toNat_ofNat, Nat.shiftRight_eq_div_pow,
    Nat.reducePow, Nat.reduceMod, hmask]
  omega

inductive Instruction where
  /-- Load an immediate byte into a register. -/
  | ldi
  /-- Hand a register's value to the output. -/
  | prn
  /-- Stop the machine. -/
  | hlt
  /-- Add the second register to the first. -/
  | add
  /-- Multiply the first register by the second. -/
  | mul
  /-- Push a register on the stack. -/
  | push
  /-- Pop the stack into a register. -/
  | pop
  /-- Push the return address and go to the address in a register. -/
  | call
  /-- Go to the address popped from the stack. -/
  | ret
deriving DecidableEq, Repr

namespace Instruction

/-- Every instruction, in the order of the opcode table. -/
def all : List Instruction :=
  [.ldi, .prn, .hlt, .add, .mul, .push, .pop, .call, .ret]

def opcode : Instruction → UInt8
  | .ldi => 0b10000010
  | .prn => 0b01000111
  | .hlt => 0b00000001
  | .add => 0b10100000
  | .mul => 0b10100010
  | .push => 0b01000101
  | .pop => 0b01000110
  | .call => 0b01010000
  | .ret => 0b00010001

/-- The assembler's upper-case name. -/
def mnemonic : Instruction → String
  | .ldi => "LDI"
  | .prn => "PRN"
  | .hlt => "HLT"
  | .add => "ADD"
  | .mul => "MUL"
  | .push => "PUSH"
  | .pop => "POP"
  | .call => "CALL"
  | .ret => "RET"

def ofMnemonic? (name : String) : Option Instruction :=
  all.find? fun i => i.mnemonic == name

/-- The instruction whose opcode the byte is, if there is one. -/
def decode (byte : UInt8) : Option Instruction :=
  all.find? fun i => i.opcode == byte

/-- The bytes the instruction takes in memory. -/
def size (i : Instruction) : UInt8 :=
  encodedLength i.opcode

/-- Instructions that compute. -/
def isArithmetic : Instruction → Bool
  | .add | .mul => true
  | _ => false

/-- Instructions that decide the program counter themselves. -/
def isJump : Instruction → Bool
  | .hlt | .call | .ret => true
  | _ => false

theorem mem_all (i : Instruction) : i ∈ all := by
  cases i <;> decide

theorem size_pos (i : Instruction) : 0 < i.size.toNat := by
  cases i <;> decide

/-- One byte for the opcode and one for each operand. -/
theorem size_eq (i : Instruction) :
    i.size = match i with
      | .ldi | .add | .mul => 3
      | .prn | .push | .pop | .call => 2
      | .hlt | .ret => 1 := by
  cases i <;> decide

theorem opcode_injective {i j : Instruction} (h : i.opcode = j.opcode) : i = j := by
  revert h
  cases i <;> cases j <;> decide

theorem decode_opcode (i : Instruction) : decode i.opcode = some i := by
  cases i <;> rfl

theorem opcode_of_decode {byte : UInt8} {i : Instruction} (h : decode byte = some i) :
    i.opcode = byte := by
  have := List.find?_some h
  simpa using this

theorem decode_eq_some_iff {byte : UInt8} {i : Instruction} :
    decode byte = some i ↔ i.opcode = byte :=
  ⟨opcode_of_decode, fun h => h ▸ decode_opcode i⟩

end Instruction

end LS8
