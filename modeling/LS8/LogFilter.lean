import LS8.Event

/-!
# Log filters

Which events are shown. The plain filters go by the level alone and let everything through down to
one level, or nothing; each has a name, in which case does not matter.
-/

namespace LS8

structure LogFilter where
  admits : Event → Bool

namespace LogFilter

/-- The filter that ends with a level. -/
def upTo (l : Level) : LogFilter :=
  ⟨fun e => e.level.verbosity ≤ l.verbosity⟩

def off : LogFilter :=
  ⟨fun _ => false⟩

/-- The plain filter of a name. -/
def ofName? (name : String) : Option LogFilter :=
  match name.toLower with
  | "off" => some off
  | "error" | "" => some (upTo .error)
  | "warn" => some (upTo .warn)
  | "info" => some (upTo .info)
  | "debug" => some (upTo .debug)
  | "trace" => some (upTo .trace)
  | _ => none

/-- What is shown of a log, a text for each event. -/
def texts (f : LogFilter) (log : List Event) : List String :=
  (log.filter f.admits).map Event.text

end LogFilter

end LS8
