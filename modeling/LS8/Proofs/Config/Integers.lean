import LS8.Proofs.Config.Members
import LS8.Proofs.Json.Numeric
import Mathlib.Algebra.Group.Nat.Defs

/-!
# Integers in configurations

The two integers of a configuration are written in digits. Whatever stands in their place that is
made of the characters of numbers, of any length, the text around it is read exactly if that is the
decimal numeral of a number in the range of the field, and then as this number
(`TakesBelow.ofJson_eq_ok`, `TakesBelow.ofJson_eq_error`).
-/

namespace LS8

namespace Config

open Json (Quoted Value Token IsDigits IsNumeric Separated isNumber_of_isDecimal)
open Json.NumberPart (Scans)

/-! ## One setting in one group -/

/-- A text that gives one setting of one group. -/
def settingText (group name : String) (literal : List Char) : List Char :=
  ("\x7b\"" ++ group ++ "\":\x7b\"" ++ name ++ "\":").toList ++ (literal ++ ['\x7d', '\x7d'])

/-- The value that it spells, where what is given is a number. -/
def settingValue (group name : String) (literal : List Char) : Value :=
  .object [(.plain group.toList, .object [(.plain name.toList, .number literal)])]

variable {group name : String} {d : List Char}

/-- The tokens in front of what is given. -/
def settingTokens (group name : String) : List Token :=
  [.openBrace, .string (.plain group.toList), .colon,
   .openBrace, .string (.plain name.toList), .colon]

theorem tokens?_settingText (hgroup : group.toList.all Json.isPlain = true)
    (hname : name.toList.all Json.isPlain = true) (d : List Char) :
    Json.tokens? (settingText group name d)
      = Json.Scanner.scan? ⟨(settingTokens group name).reverse, .between⟩
        (d ++ ['\x7d', '\x7d']) := by
  have hwords : List.Forall₂ Token.Spells (settingTokens group name)
      [['\x7b'], '"' :: (group.toList ++ ['"']), [':'],
       ['\x7b'], '"' :: (name.toList ++ ['"']), [':']] :=
    .cons .openBrace <| .cons (.string (Quoted.spells_plain hgroup)) <| .cons .colon <|
    .cons .openBrace <| .cons (.string (Quoted.spells_plain hname)) <| .cons .colon .nil
  have hquiet : ∀ t ∈ settingTokens group name, t.isNumber = false := by
    simp [settingTokens, Token.isNumber]
  have htext : settingText group name d = [['\x7b'], '"' :: (group.toList ++ ['"']), [':'],
      ['\x7b'], '"' :: (name.toList ++ ['"']), [':']].flatten ++ (d ++ ['\x7d', '\x7d']) := by
    simp [settingText]
  have hscan : ∀ rest, Json.Scanner.scan? ⟨[], .between⟩ (_ ++ rest)
      = Json.Scanner.scan? ⟨(settingTokens group name).reverse ++ [], .between⟩ rest :=
    fun rest => Json.Scanner.scan?_words hquiet hwords
  rw [List.append_nil] at hscan
  rw [htext]
  exact hscan _

theorem parse?_settingText_of_scans (hgroup : group.toList.all Json.isPlain = true)
    (hname : name.toList.all Json.isPlain = true) (h : Scans d) :
    Value.parse? (settingText group name d) = some (settingValue group name d) := by
  unfold Value.parse?
  rw [tokens?_settingText hgroup hname, Json.Scanner.scan?_number h (by rintro c ⟨⟩; decide)]
  exact Value.ofTokens?_tokens (settingValue group name d)

theorem parse?_settingText_of_not_scans (hgroup : group.toList.all Json.isPlain = true)
    (hname : name.toList.all Json.isPlain = true) (hne : d ≠ []) (hd : ∀ c ∈ d, IsNumeric c)
    (h : ¬ Scans d) : Value.parse? (settingText group name d) = none := by
  refine Option.eq_none_iff_forall_ne_some.2 fun v hv => ?_
  obtain ⟨tokens, htokens, hvalue⟩ := Option.bind_eq_some_iff.1 hv
  rw [tokens?_settingText hgroup hname] at htokens
  obtain ⟨hscans, -⟩ | hcrowded := Json.Scanner.scan?_numeric hne hd htokens
  · exact h hscans
  · exact hcrowded (Value.separated_of_ofTokens? hvalue)

/-! ## Numerals -/

theorem lead_of_scans (h : Scans d) (hdigit : ∀ c ∈ d, c.isDigit = true) :
    d.head? = some '0' → d = ['0'] := by
  obtain ⟨c, more, p, q, rfl, hfirst, hrun, -⟩ := h
  rintro ⟨⟩
  cases hfirst
  cases more with
  | nil => rfl
  | cons e more =>
    have he : e.isDigit = true := hdigit e (List.mem_cons_of_mem _ List.mem_cons_self)
    have hmark : e ≠ '.' ∧ ¬ (e = 'e' ∨ e = 'E') := by
      refine ⟨?_, ?_⟩
      · rintro rfl
        cases he
      · rintro (rfl | rfl) <;> cases he
    have hnext : Json.NumberPart.zero.next? e = none := by
      simp [Json.NumberPart.next?, Json.NumberPart.next?.tail?, Json.NumberPart.next?.letter?, hmark]
    unfold Json.NumberPart.run? at hrun
    rw [List.foldlM_cons, hnext] at hrun
    cases hrun

/-- What is scanned as one number is read as a number below the bound if it is the numeral of
one. -/
theorem below?_eq_some_iff {bound n : ℕ} :
    Scans d ∧ Value.below? bound (.number d) = some n ↔ Numeral.IsDecimal d n ∧ n < bound := by
  constructor
  · rintro ⟨hscans, hread⟩
    unfold Value.below? Numeral.ofDecimal? at hread
    obtain ⟨hvalue, hlt⟩ := Option.filter_eq_some_iff.1 hread
    obtain ⟨⟨hne, hall⟩, hvalue⟩ := Option.ite_none_right_eq_some.1 hvalue
    have hdigit : ∀ c ∈ d, c.isDigit = true := List.all_eq_true.1 hall
    exact ⟨⟨hne, hdigit, lead_of_scans hscans hdigit, Option.some_inj.1 hvalue⟩, by simpa using hlt⟩
  · rintro ⟨hdecimal, hlt⟩
    exact ⟨Json.NumberPart.scans_of_isNumber (isNumber_of_isDecimal hdecimal),
      below?_of_isDecimal hdecimal hlt⟩

/-- A zero stands in front of other digits. -/
def HasSpareZero (d : List Char) : Prop :=
  d.head? = some '0' ∧ 1 < d.length

theorem isDecimal_iff {n : ℕ} (h : IsDigits d) :
    Numeral.IsDecimal d n ↔ ¬ HasSpareZero d ∧ Nat.ofDigitChars 10 d 0 = n := by
  constructor
  · rintro ⟨-, -, hlead, hvalue⟩
    refine ⟨fun ⟨hzero, hmore⟩ => ?_, hvalue⟩
    rw [hlead hzero] at hmore
    exact absurd hmore (by decide)
  · rintro ⟨hspare, hvalue⟩
    refine ⟨h.1, h.2, fun hzero => ?_, hvalue⟩
    obtain ⟨more, rfl⟩ := List.head?_eq_some_iff.1 hzero
    cases more with
    | nil => rfl
    | cons c more => exact absurd ⟨hzero, by simp⟩ hspare

/-! ## The two integers -/

/-- The setting takes a number below the bound, and gives the configuration in which the others keep
their defaults. -/
structure TakesBelow (group name : String) (bound : ℕ) (give : ℕ → Config) : Prop where
  plainGroup : group.toList.all Json.isPlain = true
  plainName : name.toList.all Json.isPlain = true
  read : ∀ d, ofValue? (settingValue group name d) = (Value.below? bound (.number d)).map give

theorem takesBelow_maxSteps :
    TakesBelow "general" "max_steps" UInt64.size fun n => { maxSteps := some (.ofNat n) } := by
  refine ⟨rfl, rfl, fun d => ?_⟩
  have hread : ofValue? (settingValue "general" "max_steps" d)
      = ((((Value.below? UInt64.size (.number d)).map UInt64.ofNat).map some).bind fun maxSteps =>
        some { maxSteps }).bind some := rfl
  rw [hread]
  cases Value.below? UInt64.size (.number d) <;> rfl

theorem takesBelow_initialSp :
    TakesBelow "execution" "initial_sp" UInt8.size fun n => { initialSp := .ofNat n } := by
  refine ⟨rfl, rfl, fun d => ?_⟩
  have hread : ofValue? (settingValue "execution" "initial_sp" d)
      = ((Value.below? UInt8.size (.number d)).map UInt8.ofNat).bind fun initialSp =>
        some { initialSp } := rfl
  rw [hread]
  cases Value.below? UInt8.size (.number d) <;> rfl

namespace TakesBelow

variable {bound : ℕ} {give : ℕ → Config} (h : TakesBelow group name bound give)
include h

theorem ofJson_eq_ok {n : ℕ} (hn : Numeral.IsDecimal d n) (hlt : n < bound) :
    ofJson (settingText group name d) = .ok (give n) := by
  obtain ⟨hscans, hread⟩ := below?_eq_some_iff.2 ⟨hn, hlt⟩
  unfold ofJson
  rw [parse?_settingText_of_scans h.plainGroup h.plainName hscans, Option.bind_some, h.read, hread]
  rfl

/-- Nothing else that is made of the characters of numbers is taken. -/
theorem ofJson_eq_error (hne : d ≠ []) (hd : ∀ c ∈ d, IsNumeric c)
    (hnone : ∀ n, Numeral.IsDecimal d n → bound ≤ n) :
    ofJson (settingText group name d) = .error .invalid := by
  unfold ofJson
  by_cases hscans : Scans d
  · have hread : Value.below? bound (.number d) = none := by
      refine Option.eq_none_iff_forall_ne_some.2 fun n hn => ?_
      obtain ⟨hdecimal, hlt⟩ := below?_eq_some_iff.1 ⟨hscans, hn⟩
      exact Nat.not_lt.2 (hnone n hdecimal) hlt
    rw [parse?_settingText_of_scans h.plainGroup h.plainName hscans, Option.bind_some, h.read, hread]
    rfl
  · rw [parse?_settingText_of_not_scans h.plainGroup h.plainName hne hd hscans]
    rfl

theorem ofJson_of_digits (hdigits : IsDigits d) (hspare : ¬ HasSpareZero d)
    (hlt : Nat.ofDigitChars 10 d 0 < bound) :
    ofJson (settingText group name d) = .ok (give (Nat.ofDigitChars 10 d 0)) :=
  h.ofJson_eq_ok ((isDecimal_iff hdigits).2 ⟨hspare, rfl⟩) hlt

theorem ofJson_of_digits_of_not (hdigits : IsDigits d)
    (hbad : HasSpareZero d ∨ bound ≤ Nat.ofDigitChars 10 d 0) :
    ofJson (settingText group name d) = .error .invalid := by
  refine h.ofJson_eq_error hdigits.1 (fun c hc => .inl (hdigits.2 c hc)) fun n hn => ?_
  obtain ⟨hspare, rfl⟩ := (isDecimal_iff hdigits).1 hn
  exact hbad.resolve_left hspare

theorem ofJson_of_mark (hd : ∀ c ∈ d, IsNumeric c) (hmark : ∃ c ∈ d, c.isDigit = false) :
    ofJson (settingText group name d) = .error .invalid := by
  obtain ⟨c, hc, hcdigit⟩ := hmark
  refine h.ofJson_eq_error (List.ne_nil_of_mem hc) hd fun n hn => ?_
  rw [hn.digit c hc] at hcdigit
  cases hcdigit

/-- The value is given where it is in range, and only there, whatever the type that holds it. -/
theorem exists_iff {β : Type} {toNat : β → ℕ} {ofNat : ℕ → β} {make : β → Config}
    (hdigits : IsDigits d) (hmake : ∀ n, give n = make (ofNat n))
    (hround : ∀ n < bound, toNat (ofNat n) = n) :
    (∃ b, toNat b = Nat.ofDigitChars 10 d 0 ∧ ofJson (settingText group name d) = .ok (make b))
      ↔ ¬ HasSpareZero d ∧ Nat.ofDigitChars 10 d 0 < bound := by
  constructor
  · rintro ⟨b, -, hok⟩
    by_contra hbad
    rw [not_and_or, not_not, Nat.not_lt] at hbad
    rw [h.ofJson_of_digits_of_not hdigits hbad] at hok
    cases hok
  · rintro ⟨hspare, hlt⟩
    exact ⟨ofNat _, hround _ hlt, (h.ofJson_of_digits hdigits hspare hlt).trans
      (congrArg _ (hmake _))⟩

end TakesBelow

/-- A string of digits is taken if it has no spare zero and its value is in the range of the field,
and gives this value. Every other one is an error, and so is every text of the characters of numbers
that has a sign, a point or an exponent. -/
theorem integers_in_range (d : List Char) :
    (IsDigits d →
      ((∃ n : UInt64, n.toNat = Nat.ofDigitChars 10 d 0
            ∧ ofJson (settingText "general" "max_steps" d) = .ok { maxSteps := some n })
          ↔ ¬ HasSpareZero d ∧ Nat.ofDigitChars 10 d 0 < 2 ^ 64)
        ∧ ((∃ b : UInt8, b.toNat = Nat.ofDigitChars 10 d 0
            ∧ ofJson (settingText "execution" "initial_sp" d) = .ok { initialSp := b })
          ↔ ¬ HasSpareZero d ∧ Nat.ofDigitChars 10 d 0 < 256)
        ∧ (HasSpareZero d ∨ 2 ^ 64 ≤ Nat.ofDigitChars 10 d 0 →
          ofJson (settingText "general" "max_steps" d) = .error .invalid)
        ∧ (HasSpareZero d ∨ 256 ≤ Nat.ofDigitChars 10 d 0 →
          ofJson (settingText "execution" "initial_sp" d) = .error .invalid))
      ∧ ((∀ c ∈ d, IsNumeric c) → (∃ c ∈ d, c.isDigit = false) →
        ofJson (settingText "general" "max_steps" d) = .error .invalid
          ∧ ofJson (settingText "execution" "initial_sp" d) = .error .invalid) := by
  refine ⟨fun hdigits => ⟨?_, ?_, ?_, ?_⟩, fun hd hmark => ⟨?_, ?_⟩⟩
  · exact takesBelow_maxSteps.exists_iff hdigits (fun _ => rfl) fun n => UInt64.toNat_ofNat_of_lt
  · exact takesBelow_initialSp.exists_iff hdigits (fun _ => rfl) fun n => UInt8.toNat_ofNat_of_lt
  · exact takesBelow_maxSteps.ofJson_of_digits_of_not hdigits
  · exact takesBelow_initialSp.ofJson_of_digits_of_not hdigits
  · exact takesBelow_maxSteps.ofJson_of_mark hd hmark
  · exact takesBelow_initialSp.ofJson_of_mark hd hmark

/-- The largest number of steps and the next number, a zero too many, and a zero with a sign. -/
theorem integers_in_range_boundary :
    IsDigits "18446744073709551615".toList
      ∧ (∃ n : UInt64, n.toNat = 18446744073709551615
        ∧ ofJson (settingText "general" "max_steps" "18446744073709551615".toList)
          = .ok { maxSteps := some n })
      ∧ ofJson (settingText "general" "max_steps" "18446744073709551616".toList) = .error .invalid
      ∧ ofJson (settingText "execution" "initial_sp" "007".toList) = .error .invalid
      ∧ ofJson (settingText "execution" "initial_sp" "-0".toList) = .error .invalid := by
  have hdigits : ∀ d : List Char, d ≠ [] → d.all Char.isDigit = true → IsDigits d :=
    fun d hne hall => ⟨hne, List.all_eq_true.1 hall⟩
  have hlargest : IsDigits "18446744073709551615".toList := hdigits _ (by decide) (by decide)
  have hnext : IsDigits "18446744073709551616".toList := hdigits _ (by decide) (by decide)
  have hseven : IsDigits "007".toList := hdigits _ (by decide) (by decide)
  have hspare : ¬ HasSpareZero "18446744073709551615".toList := fun h => by cases h.1
  have hnumeric : ∀ c ∈ "-0".toList, IsNumeric c := by
    simp [IsNumeric, Json.marks]
  refine ⟨hlargest, ?_, ?_, ?_, ?_⟩
  · exact ((integers_in_range _).1 hlargest).1.2 ⟨hspare, by decide⟩
  · exact ((integers_in_range _).1 hnext).2.2.1 (.inr (by decide))
  · exact ((integers_in_range _).1 hseven).2.2.2 (.inl ⟨rfl, by decide⟩)
  · exact ((integers_in_range _).2 hnumeric ⟨'-', List.mem_cons_self, rfl⟩).2

end Config

end LS8
