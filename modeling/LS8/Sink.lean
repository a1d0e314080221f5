import LS8.Error

/-!
# Output sinks

Where the values go that a program prints. A sink takes one value at a time and may refuse it; what
a refused value has left behind is part of the sink's state. A collector keeps every value, a
bounded collector closes after a number of them, and a console writes decimal lines to a writer that
may fill up or fail to flush.
-/

namespace LS8

class OutputSink (σ : Type) where
  /-- Hands one value over. -/
  emit : UInt8 → σ → Except IoError Unit × σ

/-- The values printed so far, all of them accepted. -/
structure Collector where
  values : Array UInt8 := #[]
deriving DecidableEq

instance : OutputSink Collector where
  emit value sink := (.ok (), ⟨sink.values.push value⟩)

/-- A collector that takes `room` more values and refuses the rest. -/
structure BoundedCollector where
  values : Array UInt8 := #[]
  room : Nat
deriving DecidableEq

instance : OutputSink BoundedCollector where
  emit value sink :=
    match sink.room with
    | 0 => (.error (.device "sink closed"), sink)
    | room + 1 => (.ok (), ⟨sink.values.push value, room⟩)

/-- The text that a writer has taken. It takes `room` more characters and completes `flushes` more
flushes, any number where none is given. -/
structure Console where
  text : String := ""
  room : Option Nat := none
  flushes : Option Nat := none
deriving DecidableEq

namespace Console

/-- A value as it is written: its decimal digits and a line feed. -/
def line (value : UInt8) : List Char :=
  Nat.toDigits 10 value.toNat ++ ['\n']

/-- What is left of an optional budget after `n`. -/
def spend (budget : Option Nat) (n : Nat) : Option Nat :=
  budget.map (· - n)

/-- Writes as much of the characters as there is room for. -/
def write (chars : List Char) (c : Console) : Except IoError Unit × Console :=
  let taken := match c.room with
    | none => chars
    | some room => chars.take room
  let c := { c with text := c.text ++ String.ofList taken, room := spend c.room taken.length }
  (if taken.length = chars.length then .ok () else .error .full, c)

def flush (c : Console) : Except IoError Unit × Console :=
  if c.flushes = some 0 then (.error (.device "flush refused"), c)
  else (.ok (), { c with flushes := spend c.flushes 1 })

/-- A value is out once its line is written and flushed. -/
def emit (value : UInt8) (c : Console) : Except IoError Unit × Console :=
  match c.write (line value) with
  | (.ok (), c) => c.flush
  | (.error e, c) => (.error e, c)

end Console

instance : OutputSink Console where
  emit := Console.emit

end LS8
