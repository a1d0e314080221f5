import LS8.Config
import LS8.Event
import LS8.Memory
import LS8.Registers
import LS8.Sink
import LS8.Stats

/-!
# The machine

A machine is its registers, memory and program counter, with a flag that says it has halted, the
counters of what it did, its output sink and its configuration. What an activity of the machine
reports is its result, the machine afterwards, and the events logged, in order.
-/

namespace LS8

structure Machine (σ : Type) where
  config : Config
  registers : Registers
  /-- The program counter. -/
  pc : UInt8
  memory : Memory
  stats : Stats
  halted : Bool
  sink : σ

/-- What came of an activity: a result or a fault, the machine afterwards, and the log. -/
structure Report (σ α : Type) where
  result : Except Fault α
  machine : Machine σ
  events : List Event

/-- The report of an activity before which some events had been logged. -/
def Report.after {σ α : Type} (log : List Event) (r : Report σ α) : Report σ α :=
  { r with events := log ++ r.events }

def initialPc : UInt8 := 0

namespace Machine

variable {σ : Type}

/-- A machine at reset: empty memory, and every register zero but the stack pointer. -/
def initial (sink : σ) (config : Config) : Machine σ where
  config
  registers := Registers.initial config.initialSp
  pc := initialPc
  memory := Memory.zero
  stats := {}
  halted := false
  sink

/-- The byte that lies `offset` behind the program counter, past the last address from zero on. -/
def fetch (m : Machine σ) (offset : UInt8) : UInt8 :=
  m.memory.read (m.pc + offset)

theorem fetch_zero (m : Machine σ) : m.fetch 0 = m.memory.read m.pc := by
  simp [fetch]

/-- The program counter, the three bytes from it on and the registers, all in hexadecimal. -/
def traceLine (m : Machine σ) : String :=
  "TRACE: " ++ Numeral.upperHex m.pc ++ " | " ++ Numeral.upperHex (m.fetch 0) ++ " "
    ++ Numeral.upperHex (m.fetch 1) ++ " " ++ Numeral.upperHex (m.fetch 2) ++ " | "
    ++ m.registers.dump

end Machine

end LS8
