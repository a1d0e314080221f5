import LS8.Config
import LS8.Json.Record
import LS8.Source

/-!
# Reading a configuration

A configuration is written as a record of two groups, and a group as a record of its settings. A
setting that is not given keeps its default, and every other one is read on its own.
-/

namespace LS8

open Json (Value)

def Policy.ofName? (name : String) : Option Policy :=
  [Policy.halt, Policy.skip].find? fun p => p.name == name

/-- A policy is its name, or an object with its name as the only key and null as the value. -/
def Policy.ofValue? : Value → Option Policy
  | .string text => text.string?.bind ofName?
  | .object [(key, .null)] => key.string?.bind ofName?
  | _ => none

namespace Config

def readGeneral (c : Config) (v : Value) : Option Config := do
  let fields ← v.record? ["trace_instructions", "max_steps"]
  let traceInstructions ← Value.field? fields "trace_instructions" c.traceInstructions Value.bool?
  let maxSteps ← Value.field? fields "max_steps" c.maxSteps
    (Value.optional? fun v => (Value.below? UInt64.size v).map UInt64.ofNat)
  return { c with traceInstructions, maxSteps }

def readExecution (c : Config) (v : Value) : Option Config := do
  let fields ← v.record? ["unknown_instruction", "initial_sp"]
  let unknownInstruction ←
    Value.field? fields "unknown_instruction" c.unknownInstruction Policy.ofValue?
  let initialSp ← Value.field? fields "initial_sp" c.initialSp
    (fun v => (Value.below? UInt8.size v).map UInt8.ofNat)
  return { c with unknownInstruction, initialSp }

/-- The configuration that a value describes. -/
def ofValue? (v : Value) : Option Config := do
  let groups ← v.record? ["general", "execution"]
  let c ← Value.field? groups "general" {} (readGeneral {})
  Value.field? groups "execution" c (readExecution c)

/-- The configuration that a text describes. -/
def ofJson (text : List Char) : Except ConfigError Config :=
  match (Value.parse? text).bind ofValue? with
  | some c => .ok c
  | none => .error .invalid

/-- The configuration in a file, given what came of opening it. -/
def ofFile (file : OpenedFile) : Except ConfigError Config :=
  match file.text with
  | .ok text => ofJson text
  | .error cause => .error (.unreadable cause)

/-- A file that holds a text holds the configuration that the text describes. -/
@[simp] theorem ofFile_encode (text : List Char) :
    ofFile (.ok ⟨Text.encode text, none⟩) = ofJson text := by
  simp [ofFile]

@[simp] theorem ofFile_unopened (cause : IoError) :
    ofFile (.error cause) = .error (.unreadable cause) := rfl

@[simp] theorem ofFile_brokenOff (bytes : List UInt8) (cause : IoError) :
    ofFile (.ok ⟨bytes, some cause⟩) = .error (.unreadable cause) := rfl

theorem ofFile_notUtf8 {bytes : List UInt8} (h : ∀ text, Text.encode text ≠ bytes) :
    ofFile (.ok ⟨bytes, none⟩) = .error (.unreadable .notUtf8) := by
  have hnone : Text.decode? bytes = none :=
    Option.eq_none_iff_forall_ne_some.2 fun text htext => h text (Text.encode_of_decode? htext)
  simp [ofFile, OpenedFile.text, hnone]

theorem ofJson_eq_error {text : List Char} {e : ConfigError} (h : ofJson text = .error e) :
    e = .invalid := by
  unfold ofJson at h
  split at h
  · cases h
  · exact (Except.error.inj h).symm

end Config

end LS8
