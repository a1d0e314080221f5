import LS8.Proofs.Literal
import Mathlib.Tactic.Ring

/-!
# The grammar of a line

A line holds a literal if it is binary digits between blanks, with a comment behind them or nothing
(`SourceLine.HasLiteral`). It holds at most one, its significant text (`hasLiteral_iff`). The count
of the digits behind the zeros in front tells whether the number fits in a byte
(`length_stripped_le_iff`), so a checked reading of these digits cannot fail (`readByte?_eq`), and
what a line stands for is decided by the value of its literal alone (`classify_grammar`).
-/

namespace LS8

namespace Numeral

/-! ## Checked reading -/

def bit? (c : Char) : Option ℕ :=
  if c = '0' then some 0 else if c = '1' then some 1 else none

/-- The byte with one binary digit more, unless it is no digit or the byte would overflow. -/
def appendBit? (value : UInt8) (c : Char) : Option UInt8 :=
  (bit? c).bind fun d =>
    if 2 * value.toNat + d < UInt8.size then some (UInt8.ofNat (2 * value.toNat + d)) else none

/-- The byte that the text denotes in base two: digits, at least one, perhaps behind a plus sign. -/
def readByte? (text : List Char) : Option UInt8 :=
  let digits := if text.head? = some '+' then text.tail else text
  if digits = [] then none else digits.foldlM appendBit? 0

end Numeral

namespace SourceLine

open Text

variable {line digits : List Char}

theorem exists_bit {c : Char} (h : isBit c = true) :
    ∃ d, Numeral.bit? c = some d ∧ c.toNat - '0'.toNat = d ∧ d = if c = '1' then 1 else 0 := by
  rcases isBit_iff.1 h with rfl | rfl
  · exact ⟨0, rfl, rfl, rfl⟩
  · exact ⟨1, rfl, rfl, rfl⟩

theorem le_ofDigitChars : ∀ (digits : List Char) (n : ℕ), n ≤ Nat.ofDigitChars 2 digits n
  | [], n => by rw [Nat.ofDigitChars_nil]
  | c :: digits, n => by
    have hrest := le_ofDigitChars digits (2 * n + (c.toNat - '0'.toNat))
    rw [Nat.ofDigitChars_cons]
    omega

theorem foldlM_appendBit? : ∀ {digits : List Char} (value : UInt8),
    (∀ c ∈ digits, isBit c = true) → digits.foldlM Numeral.appendBit? value
      = if Nat.ofDigitChars 2 digits value.toNat < UInt8.size
        then some (UInt8.ofNat (Nat.ofDigitChars 2 digits value.toNat)) else none
  | [], value, _ => by
    rw [List.foldlM_nil, Nat.ofDigitChars_nil, if_pos value.toNat_lt, UInt8.ofNat_toNat]
    rfl
  | c :: digits, value, hbits => by
    obtain ⟨hc, hbits⟩ := List.forall_mem_cons.1 hbits
    obtain ⟨d, hbit, hdigit, -⟩ := exists_bit hc
    rw [List.foldlM_cons, Numeral.appendBit?, hbit, Nat.ofDigitChars_cons, hdigit, Option.bind_some]
    by_cases hlt : 2 * value.toNat + d < UInt8.size
    · have ih := foldlM_appendBit? (UInt8.ofNat (2 * value.toNat + d)) hbits
      rw [UInt8.toNat_ofNat_of_lt' hlt] at ih
      rw [if_pos hlt]
      exact ih
    -- The digits that follow only make the number larger.
    · have hle := le_ofDigitChars digits (2 * value.toNat + d)
      rw [if_neg hlt, if_neg (by omega)]
      rfl

/-- Reading binary digits fails only if their value is too large for a byte. -/
theorem readByte?_eq (hne : digits ≠ []) (hbits : ∀ c ∈ digits, isBit c = true) :
    Numeral.readByte? digits = if valueOfBits digits < UInt8.size
      then some (UInt8.ofNat (valueOfBits digits)) else none := by
  have hsign : digits.head? ≠ some '+' := by
    intro hhead
    cases hbits _ (List.mem_of_head? hhead)
  unfold Numeral.readByte?
  simp only [if_neg hsign, if_neg hne]
  exact foldlM_appendBit? 0 hbits

/-! ## Values -/

/-- The number that binary digits denote: each `1` counts the power of two of its place. -/
def placeValue : List Char → ℕ
  | [] => 0
  | c :: rest => (if c = '1' then 2 ^ rest.length else 0) + placeValue rest

theorem ofDigitChars_eq_placeValue : ∀ {digits : List Char} (n : ℕ),
    (∀ c ∈ digits, isBit c = true) →
    Nat.ofDigitChars 2 digits n = 2 ^ digits.length * n + placeValue digits
  | [], n, _ => by simp [placeValue]
  | c :: digits, n, hbits => by
    obtain ⟨hc, hbits⟩ := List.forall_mem_cons.1 hbits
    obtain ⟨d, -, hdigit, hd⟩ := exists_bit hc
    rw [Nat.ofDigitChars_cons, hdigit, ofDigitChars_eq_placeValue _ hbits, placeValue,
      List.length_cons, hd]
    split_ifs <;> ring

theorem valueOfBits_eq_placeValue (hbits : ∀ c ∈ digits, isBit c = true) :
    valueOfBits digits = placeValue digits := by
  rw [valueOfBits, ofDigitChars_eq_placeValue 0 hbits, Nat.mul_zero, Nat.zero_add]

/-! ## Literals -/

/-- The line is the digits, at least one, between blanks, and then a comment or nothing. -/
structure HasLiteral (line digits : List Char) : Prop where
  ne_nil : digits ≠ []
  bits : ∀ c ∈ digits, c = '0' ∨ c = '1'
  placed : ∃ front back comment, line = front ++ digits ++ back ++ comment
    ∧ (∀ c ∈ front, isBlank c = true) ∧ (∀ c ∈ back, isBlank c = true)
    ∧ ∀ c ∈ comment.head?, c = '#'

theorem HasLiteral.isBit (h : HasLiteral line digits) : ∀ c ∈ digits, isBit c = true :=
  fun c hc => isBit_iff.2 (h.bits c hc)

theorem isLiteral_iff : isLiteral digits = true ↔ digits ≠ [] ∧ ∀ c ∈ digits, isBit c = true := by
  simp [isLiteral]

theorem hasLiteral_iff :
    HasLiteral line digits ↔ significant line = digits ∧ isLiteral digits = true := by
  rw [isLiteral_iff, significant_eq_iff]
  constructor
  · intro h
    obtain ⟨htrimmed, hmark, -⟩ := significant_eq_iff.1 (significant_of_bits h.isBit)
    exact ⟨⟨htrimmed, hmark, h.placed⟩, h.ne_nil, h.isBit⟩
  · rintro ⟨⟨-, -, hplaced⟩, hne, hbits⟩
    exact ⟨hne, fun c hc => isBit_iff.1 (hbits c hc), hplaced⟩

theorem HasLiteral.classify_eq (h : HasLiteral line digits) :
    classify line = if placeValue digits < UInt8.size
      then .byte (UInt8.ofNat (placeValue digits)) else .tooWide := by
  obtain ⟨hsig, hliteral⟩ := hasLiteral_iff.1 h
  rw [classify_of_isLiteral (hsig ▸ hliteral), hsig, valueOfBits_dropWhile,
    ← valueOfBits_eq_placeValue h.isBit]
  have hfits := length_stripped_le_iff h.isBit
  split_ifs with hlong hlt hlt
  · omega
  · rfl
  · rfl
  · omega

theorem HasLiteral.iff_eq (h : HasLiteral line digits) {digits' : List Char} :
    HasLiteral line digits' ↔ digits' = digits := by
  constructor
  · exact fun h' => (hasLiteral_iff.1 h').1.symm.trans (hasLiteral_iff.1 h).1
  · rintro rfl
    exact h

theorem HasLiteral.classify_eq_byte_iff (h : HasLiteral line digits) {v : UInt8} :
    classify line = .byte v ↔ placeValue digits = v.toNat := by
  rw [h.classify_eq]
  split_ifs with hlt
  · rw [SourceLine.byte.injEq, ← UInt8.toNat_inj, UInt8.toNat_ofNat_of_lt' hlt]
  · simp only [false_iff]
    exact fun hv => hlt (hv ▸ v.toNat_lt)

theorem HasLiteral.classify_eq_tooWide_iff (h : HasLiteral line digits) :
    classify line = .tooWide ↔ 256 ≤ placeValue digits := by
  rw [h.classify_eq]
  split_ifs with hlt
  · simpa using hlt
  · simpa using hlt

theorem HasLiteral.classify_ne_skip (h : HasLiteral line digits) : classify line ≠ .skip := by
  rw [h.classify_eq]
  split_ifs <;> simp

theorem classify_of_forall_not_hasLiteral (h : ∀ digits, ¬ HasLiteral line digits) :
    classify line = .skip := by
  refine classify_of_not_isLiteral (Bool.eq_false_iff.2 fun hliteral => ?_)
  exact h _ (hasLiteral_iff.2 ⟨rfl, hliteral⟩)

/-- What the line stands for if its digits are read with checks: the alternative, should the reading
fail. -/
def classifyReading (alternative : SourceLine) (line : List Char) : SourceLine :=
  if isLiteral (significant line) then
    let digits := (significant line).dropWhile (· = '0')
    if wordBits < digits.length then .tooWide
    else if digits = [] then .byte 0
    else (Numeral.readByte? digits).elim alternative .byte
  else .skip

/-- The reading never fails. -/
theorem classifyReading_eq (alternative : SourceLine) (line : List Char) :
    classifyReading alternative line = classify line := by
  unfold classifyReading
  split_ifs with hliteral
  · have hbits := (isLiteral_iff.1 hliteral).2
    have hstripped := isBit_of_mem_dropWhile hbits
    have hfits := length_stripped_le_iff hbits
    rw [← valueOfBits_dropWhile] at hfits
    rw [classify_of_isLiteral hliteral]
    generalize (significant line).dropWhile (· = '0') = digits at hstripped hfits ⊢
    simp only
    split_ifs with hlong hnil
    · rfl
    · rw [hnil]
      rfl
    · rw [readByte?_eq hnil hstripped, if_pos (hfits.1 (Nat.le_of_not_lt hlong))]
      rfl
  · exact (classify_of_not_isLiteral (Bool.eq_false_iff.2 hliteral)).symm

/-- A line stands for the byte that is the value of its literal, for one that is too wide if the
value is no byte, and for nothing if it has no literal. Reading the digits with checks comes to the
same, whatever a failed reading would stand for. -/
theorem classify_grammar (line : List Char) :
    (∀ v, classify line = .byte v ↔ ∃ digits, HasLiteral line digits ∧ placeValue digits = v.toNat)
      ∧ (classify line = .tooWide ↔ ∃ digits, HasLiteral line digits ∧ 256 ≤ placeValue digits)
      ∧ (classify line = .skip ↔ ∀ digits, ¬ HasLiteral line digits)
      ∧ ∀ alternative, classifyReading alternative line = classify line := by
  by_cases hliteral : ∃ digits, HasLiteral line digits
  · obtain ⟨digits, h⟩ := hliteral
    simp only [h.iff_eq, exists_eq_left]
    refine ⟨fun _ => h.classify_eq_byte_iff, h.classify_eq_tooWide_iff, ?_,
      fun alternative => classifyReading_eq alternative line⟩
    exact ⟨fun hskip => absurd hskip h.classify_ne_skip, fun hno => absurd rfl (hno digits)⟩
  · rw [not_exists] at hliteral
    have hskip := classify_of_forall_not_hasLiteral hliteral
    refine ⟨fun v => ?_, ?_, ?_, fun alternative => classifyReading_eq alternative line⟩
    · simp [hskip, hliteral]
    · simp [hskip, hliteral]
    · simp [hskip, hliteral]

example : classify "\u3000 0000000101\t# five".toList = .byte 5 := by decide

end SourceLine

end LS8
