import LS8.Numeral
import Mathlib.Data.List.Basic
import Mathlib.Data.Nat.Notation
import Mathlib.Logic.Function.Basic
import Mathlib.Tactic.SplitIfs

/-!
# Numerals and their numbers

A numeral shows its number: the positional value of its digits, zeros in front included, is the
number again (`valueOf_padded`). In decimal, without zeros in front, every number has one numeral
(`isDecimal_toDigits`). A byte in upper case has two digits, so where bytes are written one behind
the other, the text can be taken apart from the front (`upperHex_append_inj`).
-/

namespace LS8

namespace Numeral

/-! ## Digits -/

theorem exists_digit_of_mem_toDigits {base : ℕ} (hpos : 1 < base) (n : ℕ) {c : Char}
    (hc : c ∈ Nat.toDigits base n) : ∃ d < base, c = d.digitChar := by
  induction n using Nat.strongRecOn with
  | _ n ih =>
    rw [Nat.toDigits_eq_if hpos] at hc
    split_ifs at hc with hn
    · exact ⟨n, hn, List.mem_singleton.1 hc⟩
    · rcases List.mem_append.1 hc with hc | hc
      · exact ih (n / base) (Nat.div_lt_self (by omega) hpos) hc
      · exact ⟨n % base, Nat.mod_lt n (by omega), List.mem_singleton.1 hc⟩

theorem exists_digit_of_mem_padded {base width n : ℕ} (hpos : 1 < base) {c : Char}
    (hc : c ∈ padded base width n) : ∃ d < base, c = d.digitChar := by
  unfold padded List.leftpad at hc
  rcases List.mem_append.1 hc with hc | hc
  · exact ⟨0, by omega, List.eq_of_mem_replicate hc⟩
  · exact exists_digit_of_mem_toDigits hpos n hc

/-! ## Positional values -/

/-- The value of a digit, lower-case letters for those from ten on. -/
def digitValue (c : Char) : ℕ :=
  if c.isDigit then c.toNat - '0'.toNat else c.toNat - 'a'.toNat + 10

/-- The number that digits denote in a base. -/
def valueOf (base : ℕ) (digits : List Char) : ℕ :=
  digits.foldl (fun n c => base * n + digitValue c) 0

theorem digitValue_digitChar : ∀ d < 16, digitValue d.digitChar = d := by
  decide

theorem valueOf_concat (base : ℕ) (digits : List Char) (c : Char) :
    valueOf base (digits ++ [c]) = base * valueOf base digits + digitValue c := by
  rw [valueOf, List.foldl_append]
  rfl

theorem valueOf_zeros (base k : ℕ) (digits : List Char) :
    valueOf base (List.replicate k '0' ++ digits) = valueOf base digits := by
  induction k with
  | zero => rfl
  | succ k ih =>
    rw [List.replicate_succ, List.cons_append, ← ih]
    rfl

variable {base : ℕ} (hpos : 1 < base) (hle : base ≤ 16)

include hpos hle

theorem valueOf_toDigits (n : ℕ) : valueOf base (Nat.toDigits base n) = n := by
  induction n using Nat.strongRecOn with
  | _ n ih =>
    rw [Nat.toDigits_eq_if hpos]
    split_ifs with h
    · have hdigit := digitValue_digitChar n (by omega)
      simp [valueOf, hdigit]
    · have hmod : n % base < base := Nat.mod_lt n (by omega)
      rw [valueOf_concat, ih (n / base) (Nat.div_lt_self (by omega) hpos),
        digitValue_digitChar _ (by omega), Nat.div_add_mod]

theorem valueOf_padded (width n : ℕ) : valueOf base (padded base width n) = n := by
  rw [padded, List.leftpad, valueOf_zeros, valueOf_toDigits hpos hle]

theorem padded_injective (width : ℕ) : Function.Injective (padded base width) :=
  fun m n h => by rw [← valueOf_padded hpos hle width m, h, valueOf_padded hpos hle width n]

omit hpos hle

theorem lowerHex_injective : Function.Injective lowerHex := by
  intro m n h
  have hdigits := congrArg String.toList ((String.append_right_inj "0x").1 h)
  rw [String.toList_ofList, String.toList_ofList] at hdigits
  exact padded_injective (by decide) (by decide) 2 hdigits

/-! ## Decimal numerals -/

/-- The digits are the decimal numeral of the number, which starts with a zero for zero alone. -/
structure IsDecimal (digits : List Char) (n : ℕ) : Prop where
  ne_nil : digits ≠ []
  digit : ∀ c ∈ digits, c.isDigit = true
  lead : digits.head? = some '0' → digits = ['0']
  value : Nat.ofDigitChars 10 digits 0 = n

theorem head?_toDigits {n : ℕ} (hn : 0 < n) : (Nat.toDigits 10 n).head? ≠ some '0' := by
  induction n using Nat.strongRecOn with
  | _ n ih =>
    have hdigit : ∀ d < 10, 0 < d → d.digitChar ≠ '0' := by decide
    rw [Nat.toDigits_eq_if (by decide)]
    split_ifs with h
    · simpa using hdigit n h hn
    · rw [List.head?_append_of_ne_nil _ Nat.toDigits_ne_nil]
      exact ih (n / 10) (by omega) (by omega)

theorem isDecimal_toDigits (n : ℕ) : IsDecimal (Nat.toDigits 10 n) n where
  ne_nil := Nat.toDigits_ne_nil
  digit c hc := Nat.isDigit_of_mem_toDigits (by decide) (by decide) hc
  lead h := by
    by_cases hn : n = 0
    · rw [hn]
      rfl
    · exact absurd h (head?_toDigits (by omega))
  value := Nat.ofDigitChars_toDigits (by decide) (by decide)

/-! ## Two digits for a byte -/

/-- A digit in upper case. -/
def upperDigit (d : ℕ) : Char :=
  d.digitChar.toUpper

theorem upperDigit_inj : ∀ d < 16, ∀ e < 16, upperDigit d = upperDigit e → d = e := by
  decide

theorem padded_byte (b : UInt8) :
    padded 16 2 b.toNat = [(b.toNat / 16).digitChar, (b.toNat % 16).digitChar] := by
  have hlt := b.toNat_lt
  rw [padded, Nat.toDigits_eq_if (by decide)]
  split_ifs with h
  · rw [Nat.div_eq_of_lt h, Nat.mod_eq_of_lt h]
    rfl
  · rw [Nat.toDigits_of_lt_base (by omega)]
    rfl

theorem toList_upperHex (b : UInt8) :
    (upperHex b).toList = [upperDigit (b.toNat / 16), upperDigit (b.toNat % 16)] := by
  rw [upperHex, String.toList_ofList, padded_byte]
  rfl

/-- What follows the two digits of a byte is told apart from them. -/
theorem upperHex_append_inj {a b : UInt8} {s t : String}
    (h : upperHex a ++ s = upperHex b ++ t) : a = b ∧ s = t := by
  have hlist := congrArg String.toList h
  simp only [String.toList_append, toList_upperHex, List.cons_append, List.nil_append,
    List.cons.injEq] at hlist
  obtain ⟨hhigh, hlow, hrest⟩ := hlist
  have ha := a.toNat_lt
  have hb := b.toNat_lt
  have hquot := upperDigit_inj _ (by omega) _ (by omega) hhigh
  have hrem := upperDigit_inj _ (by omega) _ (by omega) hlow
  exact ⟨UInt8.toNat_inj.1 (by omega), String.toList_inj.1 hrest⟩

theorem upperHex_injective : Function.Injective upperHex := by
  intro a b h
  exact (upperHex_append_inj (s := "") (t := "") (by rw [h])).1

end Numeral

end LS8
