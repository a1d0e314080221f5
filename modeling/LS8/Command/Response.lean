import LS8.Command.Arguments
import LS8.Command.Help
import LS8.Listing
import LS8.LogFilter
import LS8.Loading
import LS8.Machine.Run

/-!
# Responses

What a command answers: an exit code, the text on standard output, and the texts on standard error,
which are the log and the statistics. The values a program prints are all that a run writes to
standard output, so neither logging nor statistics can show there.

How a log setting is read, and how the fault in an invalid configuration is described, is up to the
libraries that a command is built on; any will do.
-/

namespace LS8

structure Response where
  exitCode : UInt8
  output : String := ""
  /-- What goes to standard error, each text followed by a line end. -/
  errors : List String := []
deriving DecidableEq

namespace Response

def misuse : Response :=
  ⟨2, "", ["error: invalid arguments", "", "For more information, try '--help'."]⟩

/-- The answer that consists of lines of output. -/
def ofLines (lines : List String) : Response :=
  ⟨0, String.join (lines.map (· ++ "\n")), []⟩

/-- The answer when a file cannot be used, after some events. -/
def failure (filter : LogFilter) (log : List Event) (path message : String) : Response :=
  ⟨1, "", filter.texts (log ++ [.failure (path ++ ": " ++ message)])⟩

end Response

/-- The files that commands work on, as opened by path. -/
abbrev Files := String → OpenedFile

/-- What a command leaves to the libraries that it is built on. -/
structure Libraries where
  /-- The filter that a log setting stands for, if it stands for one. -/
  filter? : String → Option LogFilter := LogFilter.ofName?
  /-- What is said to be wrong with a text that describes no configuration. -/
  complaint : List Char → String := fun _ => "no description of a configuration"

namespace RunOptions

/-- The configuration of a run, or the path that is to blame and why. -/
def configuration (o : RunOptions) (files : Files) : Except (String × ConfigError) Config :=
  match o.config with
  | none => .ok (o.override {})
  | some path =>
    match Config.ofFile (files path) with
    | .ok c => .ok (o.override c)
    | .error e => .error (path, e)

/-- The answer when a run has ended, after the events of loading. -/
def conclude (o : RunOptions) (filter : LogFilter) (log : List Event)
    (report : Report Console Unit) : Response :=
  let m := report.machine
  let shown := filter.texts (log ++ report.events)
  let stats := if o.stats then [m.stats.toJson] else []
  match report.result with
  | .ok () => ⟨0, m.sink.text, shown ++ stats⟩
  | .error fault =>
    ⟨1, m.sink.text,
      shown ++ stats ++ filter.texts [.failure fault.message, .failure m.traceLine]⟩

/-- Loads and runs a program; a run that does not end has no answer. -/
def respond (o : RunOptions) (files : Files) (filter : LogFilter)
    (complaint : List Char → String) : Option Response :=
  match o.configuration files with
  | .error (path, e) =>
    let complaint := (files path).text.toOption.map complaint
    some (Response.failure filter [] path (e.message complaint))
  | .ok config =>
    let loading := (Machine.initial ({} : Console) config).loadFile o.file (files o.file)
    match loading.result with
    | .error e => some (Response.failure filter loading.events o.file e.message)
    | .ok _ => loading.target.run.map (o.conclude filter loading.events)

end RunOptions

namespace Command

def respondListing (file : String) (files : Files) (filter : LogFilter) : Response :=
  let loading := Memory.zero.loadFile file (files file)
  match loading.result with
  | .error e => Response.failure filter loading.events file e.message
  | .ok length =>
    { Response.ofLines (Listing.lines (loading.target.toList.take length)) with
      errors := filter.texts loading.events }

/-- What is logged: as the setting says, else warnings and errors, or everything with tracing. -/
def logFilter (c : Command) (setting : Option String) (libraries : Libraries) : LogFilter :=
  let default := match c with
    | .run o => if o.trace then LogFilter.upTo .trace else LogFilter.upTo .warn
    | _ => LogFilter.upTo .warn
  (setting.bind libraries.filter?).getD default

/-- The answer to a command; only a run can fail to have one. -/
def respond (c : Command) (files : Files) (setting : Option String) (libraries : Libraries) :
    Option Response :=
  let filter := c.logFilter setting libraries
  match c with
  | .run o => o.respond files filter libraries.complaint
  | .disasm file => some (respondListing file files filter)
  | .help topic => some (Response.ofLines topic.lines)
  | .version => some (Response.ofLines [versionText])

def invoke (arguments : List String) (files : Files) (setting : Option String)
    (libraries : Libraries := {}) : Option Response :=
  match ofArguments? arguments with
  | none => some Response.misuse
  | some c => c.respond files setting libraries

end Command

end LS8
