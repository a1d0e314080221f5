import LS8.Instruction
import LS8.Numeral

/-!
# Listings

A listing cuts bytes into statements from the front: an instruction with the operand bytes that its
opcode announces, or a single byte that is no opcode. Operand bytes past the end read as zero. Each
line shows the address at which its statement starts.
-/

namespace LS8

/-- What a listing shows at one address. -/
inductive Statement where
  /-- An instruction and the two bytes behind its opcode. -/
  | instruction (i : Instruction) (a b : UInt8)
  | byte (value : UInt8)
deriving DecidableEq, Repr

namespace Statement

/-- The statement that the first of the bytes starts. -/
def ofBytes (bytes : List UInt8) : Statement :=
  let opcode := bytes.getD 0 0
  match Instruction.decode opcode with
  | some i => .instruction i (bytes.getD 1 0) (bytes.getD 2 0)
  | none => .byte opcode

def size : Statement → Nat
  | .instruction i _ _ => i.size.toNat
  | .byte _ => 1

/-- An operand byte as a register, whether or not there is one of that number. -/
def registerName (operand : UInt8) : String :=
  "R" ++ Numeral.decimal operand.toNat

def text : Statement → String
  | .instruction i a b =>
    match i with
    | .ldi => i.mnemonic ++ " " ++ registerName a ++ ", " ++ Numeral.lowerHex b.toNat
    | .add | .mul => i.mnemonic ++ " " ++ registerName a ++ ", " ++ registerName b
    | .prn | .push | .pop | .call => i.mnemonic ++ " " ++ registerName a
    | .hlt | .ret => i.mnemonic
  | .byte value => ".byte 0x" ++ Numeral.upperHex value

theorem size_pos (s : Statement) : 0 < s.size := by
  cases s with
  | instruction i _ _ => exact i.size_pos
  | byte _ => exact Nat.one_pos

end Statement

namespace Listing

/-- The statement at an address of the bytes, which may lie past their end. -/
def statementAt (bytes : List UInt8) (address : Nat) : Statement :=
  Statement.ofBytes (bytes.drop address)

def line (address : Nat) (s : Statement) : String :=
  Numeral.lowerHex address ++ ": " ++ s.text

/-- The lines for bytes of which the first is at `address`. -/
def linesFrom (address : Nat) (bytes : List UInt8) : List String :=
  if bytes.isEmpty then []
  else
    let s := Statement.ofBytes bytes
    line address s :: linesFrom (address + s.size) (bytes.drop s.size)
termination_by bytes.length
decreasing_by
  have := Statement.size_pos (Statement.ofBytes bytes)
  have : bytes.length ≠ 0 := by simp_all
  simp only [List.length_drop]
  omega

/-- The listing of the bytes, from address zero. -/
def lines (bytes : List UInt8) : List String :=
  linesFrom 0 bytes

@[simp] theorem linesFrom_nil (address : Nat) : linesFrom address [] = [] := by
  rw [linesFrom]
  rfl

theorem linesFrom_of_ne_nil (address : Nat) {bytes : List UInt8} (h : bytes ≠ []) :
    linesFrom address bytes
      = line address (Statement.ofBytes bytes)
        :: linesFrom (address + (Statement.ofBytes bytes).size)
          (bytes.drop (Statement.ofBytes bytes).size) := by
  rw [linesFrom, if_neg (by simpa using h)]

end Listing

end LS8
