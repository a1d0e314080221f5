import LS8.Memory
import LS8.Proofs.Numeral
import LS8.Proofs.Significant
import Mathlib.Data.List.TakeWhile
import Mathlib.Data.Nat.Notation

/-!
# Binary literals

A line is a literal when its significant text is binary digits, at least one, and it stands for the
number of these digits; zeros in front do not change the number (`valueOfBits_dropWhile`). The
digits without the zeros in front are the digits of the number (`toDigits_valueOfBits`), so a
literal filled up to eight digits is how its byte is written (`binaryLiteral_valueOfBits`), and how
a byte is written is a literal of it, whatever blanks follow (`classify_binaryLiteral`).
-/

namespace LS8

namespace SourceLine

/-! ## Digits -/

theorem isBit_iff {c : Char} : isBit c = true ↔ c = '0' ∨ c = '1' := by
  simp [isBit]

theorem isBit_digitChar : ∀ {d : ℕ}, d < 2 → isBit d.digitChar = true
  | 0, _ => rfl
  | 1, _ => rfl

theorem valueOfBits_dropWhile (digits : List Char) :
    valueOfBits (digits.dropWhile (· = '0')) = valueOfBits digits := by
  induction digits with
  | nil => rfl
  | cons c digits ih =>
    by_cases hc : c = '0'
    · subst hc
      rw [List.dropWhile_cons_of_pos (by rfl), ih]
      unfold valueOfBits
      rw [Nat.ofDigitChars_cons]
      rfl
    · rw [List.dropWhile_cons_of_neg (by simpa using hc)]

/-- Digits read on behind a number that is not zero are written behind its digits. -/
theorem toDigits_append_bits : ∀ (digits : List Char) {n : ℕ}, 0 < n →
    (∀ c ∈ digits, isBit c = true) →
    Nat.toDigits 2 n ++ digits = Nat.toDigits 2 (Nat.ofDigitChars 2 digits n)
  | [], n, _, _ => by rw [List.append_nil, Nat.ofDigitChars_nil]
  | c :: digits, n, hn, hbits => by
    obtain ⟨hc, hbits⟩ := List.forall_mem_cons.1 hbits
    obtain ⟨d, hd, hdigit, hvalue⟩ : ∃ d < 2, Nat.toDigits 2 d = [c] ∧ c.toNat - '0'.toNat = d := by
      rcases isBit_iff.1 hc with rfl | rfl
      · exact ⟨0, by decide, rfl, rfl⟩
      · exact ⟨1, by decide, rfl, rfl⟩
    rw [Nat.ofDigitChars_cons, hvalue, ← toDigits_append_bits digits (by omega) hbits,
      ← Nat.toDigits_append_toDigits (by decide) hn hd, hdigit, List.append_assoc]
    rfl

theorem toDigits_valueOfBits {digits : List Char} (hbits : ∀ c ∈ digits, isBit c = true)
    (hlead : digits.head? = some '1') : Nat.toDigits 2 (valueOfBits digits) = digits := by
  obtain ⟨rest, rfl⟩ : ∃ rest, digits = '1' :: rest := by
    cases digits with
    | nil => cases hlead
    | cons c rest =>
      cases hlead
      exact ⟨rest, rfl⟩
  have hrest := toDigits_append_bits rest Nat.one_pos (List.forall_mem_cons.1 hbits).2
  unfold valueOfBits
  rw [Nat.ofDigitChars_cons]
  exact hrest.symm

theorem isBit_of_mem_dropWhile {digits : List Char} (hbits : ∀ c ∈ digits, isBit c = true) :
    ∀ c ∈ digits.dropWhile (· = '0'), isBit c = true :=
  fun c hc => hbits c ((List.dropWhile_suffix _).subset hc)

theorem head?_dropWhile_zeros {digits : List Char} (hbits : ∀ c ∈ digits, isBit c = true) :
    digits.dropWhile (· = '0') = [] ∨ (digits.dropWhile (· = '0')).head? = some '1' := by
  rcases hstripped : digits.dropWhile (· = '0') with _ | ⟨c, rest⟩
  · exact .inl rfl
  · have hbit : isBit c = true :=
      isBit_of_mem_dropWhile hbits c (hstripped ▸ List.mem_cons_self)
    have hne := List.head?_dropWhile_not (fun c => decide (c = '0')) digits
    rw [hstripped] at hne
    rcases isBit_iff.1 hbit with rfl | rfl
    · simp at hne
    · exact .inr rfl

/-! ## Eight digits -/

/-- A literal as it is written in memory dumps: filled up to eight digits. -/
def normalized (literal : List Char) : String :=
  String.ofList ((literal.dropWhile (· = '0')).leftpad wordBits '0')

/-- Apart from the zeros in front, there are at most eight digits exactly if the number is a byte. -/
theorem length_stripped_le_iff {digits : List Char} (hbits : ∀ c ∈ digits, isBit c = true) :
    (digits.dropWhile (· = '0')).length ≤ wordBits ↔ valueOfBits digits < UInt8.size := by
  rw [← valueOfBits_dropWhile]
  rcases head?_dropWhile_zeros hbits with hnil | hlead
  · rw [hnil]
    decide
  · have hdigits := toDigits_valueOfBits (isBit_of_mem_dropWhile hbits) hlead
    have hiff : (Nat.toDigits 2 (valueOfBits (digits.dropWhile (· = '0')))).length ≤ wordBits
        ↔ valueOfBits (digits.dropWhile (· = '0')) < UInt8.size :=
      Nat.length_toDigits_le_iff (by decide) (by decide)
    rwa [hdigits] at hiff

theorem binaryLiteral_valueOfBits {digits : List Char} (hbits : ∀ c ∈ digits, isBit c = true)
    (hlen : (digits.dropWhile (· = '0')).length ≤ wordBits) :
    Numeral.binaryLiteral (UInt8.ofNat (valueOfBits (digits.dropWhile (· = '0'))))
      = normalized digits := by
  unfold normalized Numeral.binaryLiteral Numeral.padded
  rcases head?_dropWhile_zeros hbits with hnil | hlead
  · rw [hnil]
    rfl
  · have hdigits := toDigits_valueOfBits (isBit_of_mem_dropWhile hbits) hlead
    have hlt := (length_stripped_le_iff hbits).1 hlen
    rw [← valueOfBits_dropWhile] at hlt
    rw [UInt8.toNat_ofNat_of_lt' hlt, hdigits]
    rfl

theorem length_padded (b : UInt8) : (Numeral.padded 2 8 b.toNat).length = wordBits := by
  have hlen : (Nat.toDigits 2 b.toNat).length ≤ 8 :=
    (Nat.length_toDigits_le_iff (by decide) (by decide)).2 b.toNat_lt
  unfold Numeral.padded
  rw [List.length_leftpad]
  exact Nat.max_eq_left hlen

theorem isBit_of_mem_padded {width n : ℕ} {c : Char} (h : c ∈ Numeral.padded 2 width n) :
    isBit c = true := by
  obtain ⟨d, hd, rfl⟩ := Numeral.exists_digit_of_mem_padded (by decide) h
  exact isBit_digitChar hd

theorem valueOfBits_padded (width n : ℕ) : valueOfBits (Numeral.padded 2 width n) = n := by
  unfold valueOfBits Numeral.padded List.leftpad
  rw [Nat.ofDigitChars_append, Nat.ofDigitChars_replicate_zero, Nat.mul_zero,
    Nat.ofDigitChars_toDigits (by decide) (by decide)]

/-! ## Classification -/

theorem not_isBlank_of_isBit {c : Char} (h : isBit c = true) : Text.isBlank c = false := by
  rcases isBit_iff.1 h with rfl | rfl <;> rfl

/-- Digits are all significant. -/
theorem significant_of_bits {digits : List Char} (hbits : ∀ c ∈ digits, isBit c = true) :
    significant digits = digits := by
  have hblank : ∀ c ∈ digits, Text.isBlank c = false := fun c hc => not_isBlank_of_isBit (hbits c hc)
  have htrimmed : Text.Trimmed digits := ⟨fun c hc => hblank c (List.mem_of_head? hc),
    fun c hc => hblank c (List.mem_of_getLast? hc)⟩
  refine significant_eq_iff.2 ⟨htrimmed, fun hmark => ?_, [], [], [], by simp⟩
  cases hbits _ hmark

/-- The text is binary digits, at least one. -/
def isLiteral (text : List Char) : Bool :=
  text ≠ [] && text.all isBit

theorem classify_of_isLiteral {line : List Char} (h : isLiteral (significant line) = true) :
    classify line
      = if wordBits < ((significant line).dropWhile (· = '0')).length then .tooWide
        else .byte (UInt8.ofNat (valueOfBits ((significant line).dropWhile (· = '0')))) := by
  unfold isLiteral at h
  simp only [Bool.and_eq_true, decide_eq_true_eq] at h
  simp [classify, h.1, h.2]

theorem classify_of_not_isLiteral {line : List Char} (h : isLiteral (significant line) = false) :
    classify line = .skip := by
  unfold isLiteral at h
  simp only [Bool.and_eq_false_iff, decide_eq_false_iff_not, not_not] at h
  rcases h with h | h <;> simp [classify, h]

theorem classify_binaryLiteral (b : UInt8) {after : List Char}
    (hafter : ∀ c ∈ after, Text.isBlank c = true) :
    classify ((Numeral.binaryLiteral b).toList ++ after) = .byte b := by
  rw [classify_congr (significant_append_blanks _ hafter)]
  unfold Numeral.binaryLiteral
  rw [String.toList_ofList]
  have hlen := length_padded b
  have hvalue := valueOfBits_padded 8 b.toNat
  have hbits : ∀ c ∈ Numeral.padded 2 8 b.toNat, isBit c = true := fun c => isBit_of_mem_padded
  generalize Numeral.padded 2 8 b.toNat = digits at hlen hvalue hbits ⊢
  have hne : digits ≠ [] := List.ne_nil_of_length_pos (by rw [hlen]; decide)
  have hsig := significant_of_bits hbits
  have hliteral : isLiteral digits = true := by simpa [isLiteral, hne] using hbits
  have hshort : (digits.dropWhile (· = '0')).length ≤ digits.length :=
    (List.dropWhile_suffix _).length_le
  rw [hlen] at hshort
  rw [classify_of_isLiteral (by rwa [hsig]), hsig, if_neg (Nat.not_lt.2 hshort),
    valueOfBits_dropWhile, hvalue, UInt8.ofNat_toNat]

end SourceLine

end LS8
