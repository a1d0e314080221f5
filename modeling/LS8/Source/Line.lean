import LS8.Text.Blank
import LS8.Text.Utf8

/-!
# Source lines

A line of program text is a binary literal, possibly between blanks and before a comment, or it
stands for nothing. Leading zeros do not count against the eight digits of a byte. As bytes, a line
is cut at its comment before it is read as text, so a comment may hold any bytes at all.
-/

namespace LS8

/-- What a line of program text stands for. -/
inductive SourceLine where
  | byte (value : UInt8)
  /-- No literal: the line is passed over. -/
  | skip
  /-- A literal of more than eight significant digits. -/
  | tooWide
deriving DecidableEq, Repr

namespace SourceLine

/-- Starts a comment, which goes on to the end of the line. -/
def commentMark : Char := '#'

/-- The most significant digits a literal may have. -/
def wordBits : Nat := 8

/-- The text before the comment, without blanks at its ends. -/
def significant (line : List Char) : List Char :=
  Text.trim (line.takeWhile (· ≠ commentMark))

def isBit (c : Char) : Bool :=
  c = '0' || c = '1'

/-- The number that a string of binary digits denotes. -/
def valueOfBits (digits : List Char) : Nat :=
  Nat.ofDigitChars 2 digits 0

/-- Only a line whose significant text is binary digits, at least one, is a literal. -/
def classify (line : List Char) : SourceLine :=
  let literal := significant line
  if literal = [] || !literal.all isBit then .skip
  else
    let digits := literal.dropWhile (· = '0')
    if wordBits < digits.length then .tooWide else .byte (UInt8.ofNat (valueOfBits digits))

/-- The text of a line given as bytes, before its comment, if that is text. -/
def code? (raw : List UInt8) : Option (List Char) :=
  Text.decode? (raw.takeWhile (· ≠ commentMark.val.toUInt8))

end SourceLine

end LS8
