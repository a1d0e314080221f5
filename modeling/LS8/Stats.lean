import LS8.Instruction
import LS8.Numeral

/-!
# Statistics

Counters of what a machine did, and their report as indented JSON text. The report lists the
instructions that were executed at least once by mnemonic in alphabetical order.
-/

namespace LS8

/-- A number for each instruction. -/
structure Mix where
  ldi : Nat := 0
  prn : Nat := 0
  hlt : Nat := 0
  add : Nat := 0
  mul : Nat := 0
  push : Nat := 0
  pop : Nat := 0
  call : Nat := 0
  ret : Nat := 0
deriving DecidableEq

namespace Mix

def get (m : Mix) : Instruction → Nat
  | .ldi => m.ldi
  | .prn => m.prn
  | .hlt => m.hlt
  | .add => m.add
  | .mul => m.mul
  | .push => m.push
  | .pop => m.pop
  | .call => m.call
  | .ret => m.ret

def increment (m : Mix) : Instruction → Mix
  | .ldi => { m with ldi := m.ldi + 1 }
  | .prn => { m with prn := m.prn + 1 }
  | .hlt => { m with hlt := m.hlt + 1 }
  | .add => { m with add := m.add + 1 }
  | .mul => { m with mul := m.mul + 1 }
  | .push => { m with push := m.push + 1 }
  | .pop => { m with pop := m.pop + 1 }
  | .call => { m with call := m.call + 1 }
  | .ret => { m with ret := m.ret + 1 }

theorem get_increment (m : Mix) (i j : Instruction) :
    (m.increment i).get j = m.get j + if i = j then 1 else 0 := by
  cases i <;> cases j <;> rfl

end Mix

structure Stats where
  /-- Steps that fetched a byte. -/
  steps : Nat := 0
  /-- Instructions completed. -/
  retired : Nat := 0
  mix : Mix := {}
  /-- Values the output accepted. -/
  emitted : Nat := 0
  /-- Undefined opcodes passed over. -/
  skipped : Nat := 0
deriving DecidableEq

namespace Stats

def record (s : Stats) (i : Instruction) : Stats :=
  { s with retired := s.retired + 1, mix := s.mix.increment i }

def count (s : Stats) (i : Instruction) : Nat :=
  s.mix.get i

/-- The instructions in the order of their mnemonics. -/
def reportOrder : List Instruction :=
  [.add, .call, .hlt, .ldi, .mul, .pop, .prn, .push, .ret]

/-- The instructions counted at least once, with their counts. -/
def entries (s : Stats) : List (Instruction × Nat) :=
  (reportOrder.map fun i => (i, s.count i)).filter fun e => e.2 ≠ 0

def member (name value : String) : String :=
  "\"" ++ name ++ "\": " ++ value

def mixJson (s : Stats) : String :=
  match s.entries with
  | [] => "\x7b\x7d"
  | entries =>
    let members := entries.map fun e => member e.1.mnemonic (Numeral.decimal e.2)
    "\x7b\n    " ++ String.intercalate ",\n    " members ++ "\n  \x7d"

/-- The counters as indented JSON. -/
def toJson (s : Stats) : String :=
  "\x7b\n  "
    ++ String.intercalate ",\n  "
      [member "steps" (Numeral.decimal s.steps),
       member "instructions_retired" (Numeral.decimal s.retired),
       member "instruction_mix" s.mixJson,
       member "values_emitted" (Numeral.decimal s.emitted),
       member "unknown_skipped" (Numeral.decimal s.skipped)]
    ++ "\n\x7d"

@[simp] theorem count_record (s : Stats) (i j : Instruction) :
    (s.record i).count j = s.count j + if i = j then 1 else 0 :=
  Mix.get_increment s.mix i j

end Stats

end LS8
