import LS8.Numeral
import LS8.Registers

/-!
# Configuration

What a run can be told in advance: whether to log every step, how many steps to take at most, what
to do with an undefined opcode, and where the stack starts. The written form is compact JSON with
the settings in two groups.
-/

namespace LS8

/-- What to do with an undefined opcode. -/
inductive Policy where
  /-- Halt with the program counter left on it. -/
  | halt
  /-- Go on past it and the operands it announces. -/
  | skip
deriving DecidableEq, Repr

def Policy.name : Policy → String
  | .halt => "halt"
  | .skip => "skip"

structure Config where
  /-- Log the machine before every step. -/
  traceInstructions : Bool := false
  /-- The most steps a run takes; without it a run goes on until the machine halts. -/
  maxSteps : Option UInt64 := none
  unknownInstruction : Policy := .halt
  /-- The stack pointer at reset. -/
  initialSp : UInt8 := defaultStackPointer
deriving DecidableEq

namespace Config

/-- The configuration as compact JSON. -/
def toJson (c : Config) : String :=
  "\x7b\"general\":\x7b\"trace_instructions\":" ++ (if c.traceInstructions then "true" else "false")
    ++ ",\"max_steps\":" ++ c.maxSteps.elim "null" (fun n => Numeral.decimal n.toNat)
    ++ "\x7d,\"execution\":\x7b\"unknown_instruction\":\"" ++ c.unknownInstruction.name
    ++ "\",\"initial_sp\":" ++ Numeral.decimal c.initialSp.toNat ++ "\x7d\x7d"

end Config

end LS8
