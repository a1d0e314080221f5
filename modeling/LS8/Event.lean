import LS8.Error
import LS8.Instruction
import LS8.Text.Visible

/-!
# Events

What is logged while programs are loaded and run. Every event has a level, a message and fields, and
is written in that order. A message may quote what a user has typed, so it is made visible; the
value of a field is written as it is.
-/

namespace LS8

/-- The importance of an event, from the highest down. -/
inductive Level where
  | error
  | warn
  | info
  | debug
  | trace
deriving DecidableEq, Repr

namespace Level

def name : Level → String
  | .error => "ERROR"
  | .warn => "WARN"
  | .info => "INFO"
  | .debug => "DEBUG"
  | .trace => "TRACE"

def verbosity : Level → Nat
  | .error => 0
  | .warn => 1
  | .info => 2
  | .debug => 3
  | .trace => 4

end Level

inductive Event where
  | loading (path : String)
  | loaded (bytes : Nat)
  /-- The machine before a step. -/
  | trace (line : String)
  | halted (pc : UInt8)
  | undefinedHalt (opcode pc : UInt8)
  | undefinedSkip (opcode pc next : UInt8)
  | faulted (pc : UInt8) (i : Instruction) (fault : Fault)
  /-- Something went wrong that ends the program. -/
  | failure (text : String)
deriving DecidableEq, Repr

namespace Event

def level : Event → Level
  | .loading _ | .loaded _ | .halted _ | .faulted .. => .debug
  | .trace _ => .trace
  | .undefinedHalt .. | .undefinedSkip .. => .warn
  | .failure _ => .error

def message : Event → String
  | .loading _ => "loading program"
  | .loaded _ => "program loaded"
  | .trace line => line
  | .halted _ => "HLT"
  | .undefinedHalt .. => "unknown instruction; halting"
  | .undefinedSkip .. => "unknown instruction; skipping"
  | .faulted .. => "instruction faulted; halting"
  | .failure text => text

/-- The names of an event's fields with their values, in the order in which they are written. -/
def fields : Event → List (String × String)
  | .loading path => [("path", path)]
  | .loaded bytes => [("bytes", Numeral.decimal bytes)]
  | .halted pc => [("pc", Numeral.decimal pc.toNat)]
  | .undefinedHalt opcode pc =>
    [("opcode", Numeral.decimal opcode.toNat), ("pc", Numeral.decimal pc.toNat)]
  | .undefinedSkip opcode pc next =>
    [("opcode", Numeral.decimal opcode.toNat), ("pc", Numeral.decimal pc.toNat),
     ("next_pc", Numeral.decimal next.toNat)]
  | .faulted pc i fault =>
    [("pc", Numeral.decimal pc.toNat), ("inst", i.mnemonic), ("fault", fault.message)]
  | .trace _ | .failure _ => []

/-- The event as it is written in the log. -/
def text (e : Event) : String :=
  e.level.name ++ " " ++ String.ofList (Text.visible e.message.toList)
    ++ String.join (e.fields.map fun f => " " ++ f.1 ++ "=" ++ f.2)

end Event

end LS8
