/-!
# Numerals

The written forms of numbers: decimal, binary literals of eight digits, and hexadecimal in two
digits or at least two. Every form is the positional digits of the number, padded with zeros on the
left, so a padded form never loses a digit.
-/

namespace LS8

namespace Numeral

/-- The digits of `n` in base `b`, with zeros in front up to a width of `width`. -/
def padded (b width n : Nat) : List Char :=
  (Nat.toDigits b n).leftpad width '0'

/-- Decimal digits, without leading zeros. -/
def decimal (n : Nat) : String :=
  String.ofList (Nat.toDigits 10 n)

/-- A byte as eight binary digits, the form the program text uses. -/
def binaryLiteral (b : UInt8) : String :=
  String.ofList (padded 2 8 b.toNat)

/-- A byte as two upper-case hexadecimal digits. -/
def upperHex (b : UInt8) : String :=
  String.ofList ((padded 16 2 b.toNat).map Char.toUpper)

/-- At least two lower-case hexadecimal digits after `0x`. -/
def lowerHex (n : Nat) : String :=
  "0x" ++ String.ofList (padded 16 2 n)

/-- The number a string of decimal digits denotes, or nothing for any other string. -/
def ofDecimal? (digits : List Char) : Option Nat :=
  if digits ≠ [] ∧ digits.all Char.isDigit then some (Nat.ofDigitChars 10 digits 0) else none

theorem le_length_padded (b width n : Nat) : width ≤ (padded b width n).length := by
  simp [padded, List.leftpad]
  omega

theorem ofDecimal?_toDigits (n : Nat) : ofDecimal? (Nat.toDigits 10 n) = some n := by
  have hne : Nat.toDigits 10 n ≠ [] := Nat.toDigits_ne_nil
  have hdigit : (Nat.toDigits 10 n).all Char.isDigit = true :=
    List.all_eq_true.2 fun c hc => Nat.isDigit_of_mem_toDigits (by decide) (by decide) hc
  simp [ofDecimal?, hne, hdigit, Nat.ofDigitChars_toDigits]

end Numeral

end LS8
