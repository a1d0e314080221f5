/-!
# JSON tokens

The lexical layer of JSON: six punctuation marks, three words, numbers and strings, with white space
between them. Numbers and strings are kept as written but for escapes, because what a number is and
whether the halves of surrogate pairs fit together matters only where a value is used.
-/

namespace LS8

namespace Json

/-- An element of a string: a character, or an escaped half of a surrogate pair. -/
inductive Element where
  | char (c : Char)
  | half (unit : Nat)
deriving DecidableEq, Repr

abbrev Quoted := List Element

namespace Quoted

/-- First halves of surrogate pairs. -/
def isHighHalf (unit : Nat) : Bool :=
  0xD800 ≤ unit && unit < 0xDC00

/-- Second halves of surrogate pairs. -/
def isLowHalf (unit : Nat) : Bool :=
  0xDC00 ≤ unit && unit < 0xE000

def join (high low : Nat) : Char :=
  Char.ofNat (0x10000 + (high - 0xD800) * 0x400 + (low - 0xDC00))

/-- The characters after those in `done`, last one first; a half without its partner has none. -/
def resolve (done : List Char) : Quoted → Option (List Char)
  | [] => some done.reverse
  | .char c :: rest => resolve (c :: done) rest
  | .half high :: .half low :: rest =>
    if isHighHalf high && isLowHalf low then resolve (join high low :: done) rest else none
  | .half _ :: _ => none

/-- The characters that a string denotes, if its halves are in pairs. -/
def chars? (text : Quoted) : Option (List Char) :=
  resolve [] text

def string? (text : Quoted) : Option String :=
  (chars? text).map String.ofList

end Quoted

inductive Token where
  | openBrace
  | closeBrace
  | openBracket
  | closeBracket
  | colon
  | comma
  | null
  | bool (value : Bool)
  /-- A number as it was written. -/
  | number (literal : List Char)
  | string (text : Quoted)
deriving DecidableEq, Repr

/-- Where a number stands after the characters read so far. -/
inductive NumberPart where
  | sign
  | zero
  | integer
  | point
  | fraction
  | letter
  | exponentSign
  | exponent
deriving DecidableEq, Repr

namespace NumberPart

def isComplete : NumberPart → Bool
  | .zero | .integer | .fraction | .exponent => true
  | .sign | .point | .letter | .exponentSign => false

/-- Where a number begins. -/
def first? (c : Char) : Option NumberPart :=
  if c = '-' then some .sign
  else if c = '0' then some .zero
  else if c.isDigit then some .integer
  else none

/-- Where a number stands after one more character, if that can be part of it. -/
def next? (part : NumberPart) (c : Char) : Option NumberPart :=
  match part with
  | .sign => if c = '0' then some .zero else if c.isDigit then some .integer else none
  | .zero => tail? c
  | .integer => if c.isDigit then some .integer else tail? c
  | .point => if c.isDigit then some .fraction else none
  | .fraction => if c.isDigit then some .fraction else letter? c
  | .letter =>
    if c = '+' || c = '-' then some .exponentSign else if c.isDigit then some .exponent else none
  | .exponentSign | .exponent => if c.isDigit then some .exponent else none
where
  letter? (c : Char) : Option NumberPart :=
    if c = 'e' || c = 'E' then some .letter else none
  tail? (c : Char) : Option NumberPart :=
    if c = '.' then some .point else letter? c

end NumberPart

/-- Where the scanner stands within a token, and what it has read of it, last character first. -/
inductive Mode where
  | between
  /-- In a word, of which `rest` is still to come. -/
  | word (rest : List Char) (token : Token)
  | number (part : NumberPart) (read : List Char)
  | string (read : Quoted)
  /-- After a backslash in a string. -/
  | escape (read : Quoted)
  /-- In an escape by code unit, of which `left` digits are still to come. -/
  | unit (left value : Nat) (read : Quoted)
deriving DecidableEq, Repr

/-- The tokens read so far, last one first, and where the scanner stands. -/
structure Scanner where
  tokens : List Token := []
  mode : Mode := .between

namespace Scanner

def push (s : Scanner) (t : Token) : Scanner :=
  ⟨t :: s.tokens, .between⟩

/-- The white space of JSON. -/
def isSpace (c : Char) : Bool :=
  c = ' ' || c = '\t' || c = '\n' || c = '\r'

def punctuation? : Char → Option Token
  | '\x7b' => some .openBrace
  | '\x7d' => some .closeBrace
  | '[' => some .openBracket
  | ']' => some .closeBracket
  | ':' => some .colon
  | ',' => some .comma
  | _ => none

/-- The rest of a word with this first letter, and its token. -/
def word? : Char → Option (List Char × Token)
  | 'n' => some (['u', 'l', 'l'], .null)
  | 't' => some (['r', 'u', 'e'], .bool true)
  | 'f' => some (['a', 'l', 's', 'e'], .bool false)
  | _ => none

/-- The character that a one-letter escape stands for. -/
def escaped? : Char → Option Char
  | '"' => some '"'
  | '\\' => some '\\'
  | '/' => some '/'
  | 'b' => some '\x08'
  | 'f' => some '\x0c'
  | 'n' => some '\n'
  | 'r' => some '\r'
  | 't' => some '\t'
  | _ => none

def hexDigit? (c : Char) : Option Nat :=
  if c.isDigit then some (c.toNat - '0'.toNat)
  else if 'a' ≤ c && c ≤ 'f' then some (c.toNat - 'a'.toNat + 10)
  else if 'A' ≤ c && c ≤ 'F' then some (c.toNat - 'A'.toNat + 10)
  else none

def elementOfUnit (unit : Nat) : Element :=
  if Quoted.isHighHalf unit || Quoted.isLowHalf unit then .half unit else .char (Char.ofNat unit)

/-- Reads a character that begins a token or stands between two. -/
def begin? (tokens : List Token) (c : Char) : Option Scanner :=
  if isSpace c then some ⟨tokens, .between⟩
  else if c = '"' then some ⟨tokens, .string []⟩
  else
    match punctuation? c, word? c, NumberPart.first? c with
    | some t, _, _ => some ⟨t :: tokens, .between⟩
    | none, some (rest, t), _ => some ⟨tokens, .word rest t⟩
    | none, none, some part => some ⟨tokens, .number part [c]⟩
    | none, none, none => none

def step (s : Scanner) (c : Char) : Option Scanner :=
  match s.mode with
  | .between => begin? s.tokens c
  | .word rest t =>
    match rest with
    | [] => none
    | [last] => if c = last then some (s.push t) else none
    | next :: more => if c = next then some { s with mode := .word more t } else none
  | .number part read =>
    match part.next? c with
    | some part => some { s with mode := .number part (c :: read) }
    | none =>
      if part.isComplete && !c.isDigit then begin? (.number read.reverse :: s.tokens) c else none
  | .string read =>
    if c = '"' then some (s.push (.string read.reverse))
    else if c = '\\' then some { s with mode := .escape read }
    else if c.toNat < 0x20 then none
    else some { s with mode := .string (.char c :: read) }
  | .escape read =>
    if c = 'u' then some { s with mode := .unit 4 0 read }
    else (escaped? c).map fun e => { s with mode := .string (.char e :: read) }
  | .unit left value read =>
    (hexDigit? c).map fun digit =>
      let value := 16 * value + digit
      if left ≤ 1 then { s with mode := .string (elementOfUnit value :: read) }
      else { s with mode := .unit (left - 1) value read }

/-- The tokens in order, if the text may end here. -/
def finish (s : Scanner) : Option (List Token) :=
  match s.mode with
  | .between => some s.tokens.reverse
  | .number part read =>
    if part.isComplete then some (.number read.reverse :: s.tokens).reverse else none
  | _ => none

end Scanner

def tokens? (text : List Char) : Option (List Token) :=
  (text.foldlM Scanner.step {}).bind Scanner.finish

end Json

end LS8
