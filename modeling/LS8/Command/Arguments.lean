import LS8.Command
import LS8.Config.Reading

/-!
# Command-line arguments

Arguments are read one by one. An option's value is attached to it or is the next argument; an
argument that begins with a hyphen is never taken for one, unless it is a hyphen alone. After a
double hyphen every argument is an operand. Options may stand before or after the operand, each at
most once, under their full names only. A request for help counts from where it stands.
-/

namespace LS8

/-- An argument by its form. -/
inductive Argument where
  | escape
  | long (name : String) (value : Option String)
  /-- A hyphen, a letter, and what follows the letter. -/
  | short (letter : Char) (rest : List Char)
  | plain (text : String)
deriving DecidableEq, Repr

def Argument.ofString (text : String) : Argument :=
  match text.toList with
  | ['-', '-'] => .escape
  | '-' :: '-' :: rest =>
    let value := match rest.dropWhile (· ≠ '=') with
      | [] => none
      | _ :: value => some (String.ofList value)
    .long (String.ofList (rest.takeWhile (· ≠ '='))) value
  | '-' :: letter :: rest => .short letter rest
  | _ => .plain text

/-- Why reading arguments stops before their end. -/
inductive Interruption where
  | help
  | misuse
deriving DecidableEq, Repr

inductive Valued where
  | config
  | maxSteps
  | onUnknown
deriving DecidableEq, Repr

/-- A number of steps: decimal digits, with a plus sign or without. -/
def stepCount? (text : String) : Option UInt64 :=
  let digits := match text.toList with
    | '+' :: rest => rest
    | digits => digits
  ((Numeral.ofDecimal? digits).filter (· < UInt64.size)).map UInt64.ofNat

/-- The options of a run as far as they have been read. -/
structure RunReader where
  file : Option String := none
  config : Option String := none
  trace : Bool := false
  maxSteps : Option UInt64 := none
  onUnknown : Option Policy := none
  stats : Bool := false
  /-- The option whose value comes next. -/
  awaiting : Option Valued := none
  /-- A double hyphen has been read. -/
  escaped : Bool := false
deriving DecidableEq

namespace RunReader

/-- Sets what has not been set before. -/
def setOnce {α : Type} (old new : Option α) : Except Interruption (Option α) :=
  match old, new with
  | none, some a => .ok (some a)
  | _, _ => .error .misuse

def nonempty? (text : String) : Option String :=
  if text = "" then none else some text

def setValue (r : RunReader) (text : String) : Valued → Except Interruption RunReader
  | .config =>
    (setOnce r.config (nonempty? text)).map fun config => { r with config, awaiting := none }
  | .maxSteps =>
    (setOnce r.maxSteps (stepCount? text)).map fun maxSteps => { r with maxSteps, awaiting := none }
  | .onUnknown =>
    (setOnce r.onUnknown (Policy.ofName? text)).map fun onUnknown =>
      { r with onUnknown, awaiting := none }

def setFile (r : RunReader) (text : String) : Except Interruption RunReader :=
  (setOnce r.file (nonempty? text)).map fun file => { r with file }

/-- Reads an option with its attached value, or goes on to await one. -/
def valued (r : RunReader) (o : Valued) (value : Option String) : Except Interruption RunReader :=
  match value with
  | some text => r.setValue text o
  | none => .ok { r with awaiting := some o }

def long (r : RunReader) (name : String) (value : Option String) :
    Except Interruption RunReader :=
  match name, value with
  | "config", _ => r.valued .config value
  | "max-steps", _ => r.valued .maxSteps value
  | "on-unknown", _ => r.valued .onUnknown value
  | "trace", none => if r.trace then .error .misuse else .ok { r with trace := true }
  | "stats", none => if r.stats then .error .misuse else .ok { r with stats := true }
  | "help", none => .error .help
  | _, _ => .error .misuse

def short (r : RunReader) (letter : Char) (rest : List Char) : Except Interruption RunReader :=
  match letter, rest with
  | 'h', _ => .error .help
  | 'c', [] => r.valued .config none
  | 'c', '=' :: value => r.valued .config (some (String.ofList value))
  | 'c', value => r.valued .config (some (String.ofList value))
  | _, _ => .error .misuse

def step (r : RunReader) (text : String) : Except Interruption RunReader :=
  if r.escaped then r.setFile text
  else
    match r.awaiting, Argument.ofString text with
    | some o, .plain text => r.setValue text o
    | some _, _ => .error .misuse
    | none, .plain text => r.setFile text
    | none, .escape => .ok { r with escaped := true }
    | none, .long name value => r.long name value
    | none, .short letter rest => r.short letter rest

def finish (r : RunReader) : Except Interruption RunOptions :=
  match r.awaiting, r.file with
  | none, some file =>
    .ok {
      file, config := r.config, trace := r.trace, maxSteps := r.maxSteps,
      onUnknown := r.onUnknown, stats := r.stats }
  | _, _ => .error .misuse

def read (arguments : List String) : Except Interruption RunOptions :=
  (arguments.foldlM step {}).bind finish

end RunReader

/-- The operand of a listing, and whether a double hyphen has been read. -/
structure DisasmReader where
  file : Option String := none
  escaped : Bool := false
deriving DecidableEq

namespace DisasmReader

def setFile (r : DisasmReader) (text : String) : Except Interruption DisasmReader :=
  (RunReader.setOnce r.file (RunReader.nonempty? text)).map fun file => { r with file }

def step (r : DisasmReader) (text : String) : Except Interruption DisasmReader :=
  if r.escaped then r.setFile text
  else
    match Argument.ofString text with
    | .plain text => r.setFile text
    | .escape => .ok { r with escaped := true }
    | .long "help" none => .error .help
    | .short 'h' _ => .error .help
    | _ => .error .misuse

def read (arguments : List String) : Except Interruption String :=
  match arguments.foldlM step {} with
  | .ok ⟨some file, _⟩ => .ok file
  | .ok ⟨none, _⟩ => .error .misuse
  | .error e => .error e

end DisasmReader

namespace Command

/-- The command that reading came to, or help where it was asked for. -/
def settle (topic : Topic) : Except Interruption Command → Option Command
  | .ok c => some c
  | .error .help => some (.help topic)
  | .error .misuse => none

def helpOn : List String → Option Command
  | [] => some (.help .programAtLength)
  | ["run"] => some (.help .run)
  | ["disasm"] => some (.help .disasm)
  | ["help"] => some (.help .help)
  | _ => none

/-- The command that the arguments give, unless they are misused. -/
def ofArguments? : List String → Option Command
  | [] => none
  | first :: rest =>
    match Argument.ofString first with
    | .plain "run" => settle .run ((RunReader.read rest).map run)
    | .plain "disasm" => settle .disasm ((DisasmReader.read rest).map disasm)
    | .plain "help" => helpOn rest
    | .long "help" none => some (.help .programAtLength)
    | .long "version" none => some version
    | .short 'h' _ => some (.help .program)
    | .short 'V' _ => some version
    | _ => none

end Command

end LS8
