import LS8.Json.Token

/-!
# JSON values

The values of JSON, with members of objects in the order written and repeated keys kept, and their
parsing from tokens. The parser keeps the containers that are still open on a stack of its own, so
values may be nested to any depth.
-/

namespace LS8

namespace Json

inductive Value where
  | null
  | bool (value : Bool)
  | number (literal : List Char)
  | string (text : Quoted)
  | array (items : List Value)
  | object (members : List (Quoted × Value))

namespace Value

/-- A container whose end has not been read, with its contents so far, last one first. -/
inductive Open where
  | array (items : List Value)
  /-- An object in which the value of `name` is being read. -/
  | object (members : List (Quoted × Value)) (name : Quoted)

/-- What the parser waits for, inside the open containers of `stack`, innermost first. -/
inductive Parser where
  | value (stack : List Open)
  | firstItem (stack : List Open)
  | firstKey (stack : List Open)
  | key (members : List (Quoted × Value)) (stack : List Open)
  | colon (members : List (Quoted × Value)) (name : Quoted) (stack : List Open)
  /-- What may follow a value that is complete. -/
  | after (v : Value) (stack : List Open)

namespace Parser

def begin? (stack : List Open) : Token → Option Parser
  | .null => some (.after .null stack)
  | .bool b => some (.after (.bool b) stack)
  | .number literal => some (.after (.number literal) stack)
  | .string text => some (.after (.string text) stack)
  | .openBracket => some (.firstItem stack)
  | .openBrace => some (.firstKey stack)
  | _ => none

/-- Reads a token behind a value that is complete. -/
def follow? (v : Value) : List Open → Token → Option Parser
  | .array items :: stack, .comma => some (.value (.array (v :: items) :: stack))
  | .array items :: stack, .closeBracket => some (.after (.array (v :: items).reverse) stack)
  | .object members name :: stack, .comma => some (.key ((name, v) :: members) stack)
  | .object members name :: stack, .closeBrace =>
    some (.after (.object ((name, v) :: members).reverse) stack)
  | _, _ => none

def step : Parser → Token → Option Parser
  | .value stack, t => begin? stack t
  | .firstItem stack, .closeBracket => some (.after (.array []) stack)
  | .firstItem stack, t => begin? (.array [] :: stack) t
  | .firstKey stack, .closeBrace => some (.after (.object []) stack)
  | .firstKey stack, .string name => some (.colon [] name stack)
  | .firstKey _, _ => none
  | .key members stack, .string name => some (.colon members name stack)
  | .key _ _, _ => none
  | .colon members name stack, .colon => some (.value (.object members name :: stack))
  | .colon _ _ _, _ => none
  | .after v stack, t => follow? v stack t

/-- The value, if it is complete and nothing is open. -/
def finish : Parser → Option Value
  | .after v [] => some v
  | _ => none

end Parser

/-- The value that the tokens spell, all of them together. -/
def ofTokens? (tokens : List Token) : Option Value :=
  (tokens.foldlM Parser.step (.value [])).bind Parser.finish

/-- The value that a text spells. -/
def parse? (text : List Char) : Option Value :=
  (tokens? text).bind ofTokens?

end Value

end Json

end LS8
