import LS8.Instruction
import LS8.Error

/-!
# Arithmetic

The two operations of the arithmetic unit, modulo 256, and their selection by opcode byte.
-/

namespace LS8

inductive Arithmetic where
  | add
  | mul
deriving DecidableEq, Repr

namespace Arithmetic

def eval : Arithmetic → UInt8 → UInt8 → UInt8
  | .add, a, b => a + b
  | .mul, a, b => a * b

def instruction : Arithmetic → Instruction
  | .add => .add
  | .mul => .mul

/-- The operation whose instruction has this opcode, if there is one. -/
def ofOpcode? (opcode : UInt8) : Option Arithmetic :=
  [add, mul].find? fun op => op.instruction.opcode == opcode

/-- The operation that the opcode selects on two values; any other opcode is a fault. -/
def execute (opcode a b : UInt8) : Except Fault UInt8 :=
  match ofOpcode? opcode with
  | some op => .ok (op.eval a b)
  | none => .error (.unsupportedOperation opcode)

end Arithmetic

end LS8
