import LS8.Json.Value
import LS8.Numeral

/-!
# Records in JSON

A record is an object with the fields by name, in any order, or an array of them in their own order;
either way a field may be missing and then has its default. Members with other names are passed
over, whatever they hold, but a field given twice is an error, and so are items past the last field.
-/

namespace LS8

namespace Json

namespace Value

/-- A record's fields as given, by name. -/
def record? (names : List String) : Value → Option (List (String × Value))
  | .object members => do
    let named ← members.mapM fun m => m.1.string?.map (·, m.2)
    let fields := named.filter fun m => m.1 ∈ names
    if (fields.map Prod.fst).Nodup then some fields else none
  | .array items => if items.length ≤ names.length then some (names.zip items) else none
  | _ => none

/-- A field read by `read`, or its default where it is not given. -/
def field? {α : Type} (fields : List (String × Value)) (name : String) (default : α)
    (read : Value → Option α) : Option α :=
  match fields.lookup name with
  | some v => read v
  | none => some default

def bool? : Value → Option Bool
  | .bool b => some b
  | _ => none

/-- A number below `bound` that is written in digits only. -/
def below? (bound : Nat) : Value → Option Nat
  | .number literal => (Numeral.ofDecimal? literal).filter (· < bound)
  | _ => none

/-- A value that may also be null. -/
def optional? {α : Type} (read : Value → Option α) : Value → Option (Option α)
  | .null => some none
  | v => (read v).map some

end Value

end Json

end LS8
