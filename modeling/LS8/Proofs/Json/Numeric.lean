import LS8.Proofs.Json.Nesting

/-!
# Texts of the characters of numbers

A text of digits and the marks of numbers is scanned as one number or not at all, but for a sign
behind a number, where another number begins (`run_numeric`). Two numbers behind each other are no
value, so where such a text stands in the place of a value, it is read as a number as a whole
(`Scans`) or the text around it is not read.
-/

namespace LS8

namespace Json

/-- The characters of numbers besides digits. -/
def marks : List Char :=
  ['-', '+', '.', 'e', 'E']

def IsNumeric (c : Char) : Prop :=
  c.isDigit = true ∨ c ∈ marks

namespace Scanner

variable {ts : List Token}

/-- Behind tokens that are no numbers, the text may go on in any way. -/
theorem scan?_words {rest : List Char} : ∀ {tokens : List Token} {words : List (List Char)}
    {ts : List Token}, (∀ t ∈ tokens, t.isNumber = false) → List.Forall₂ Token.Spells tokens words →
      scan? ⟨ts, .between⟩ (words.flatten ++ rest) = scan? ⟨tokens.reverse ++ ts, .between⟩ rest
  | [], _, ts, _, .nil => rfl
  | t :: tokens, _, ts, h, .cons hword hwords => by
    obtain ⟨ht, htokens⟩ := List.forall_mem_cons.1 h
    rw [List.flatten_cons, List.append_assoc, scan?_token hword (by rw [ht]; nofun),
      scan?_words htokens hwords, List.reverse_cons, List.append_assoc, List.singleton_append]

theorem begin?_numeric {c : Char} (hc : IsNumeric c) {s : Scanner} (h : begin? ts c = some s) :
    ∃ p, NumberPart.first? c = some p ∧ s = ⟨ts, .number p [c]⟩ := by
  cases hfirst : NumberPart.first? c with
  | some p =>
    rw [begin?_of_first? hfirst, Option.some_inj] at h
    exact ⟨p, rfl, h.symm⟩
  | none =>
    rcases hc with hdigit | hmark
    · unfold NumberPart.first? at hfirst
      split_ifs at hfirst
    · simp only [marks, List.mem_cons, List.not_mem_nil, or_false] at hmark
      rcases hmark with rfl | rfl | rfl | rfl | rfl
      · cases hfirst
      all_goals cases h

/-- Within a number, a character goes on with it or begins another one. -/
theorem step_numeric {part : NumberPart} {read : List Char} {c : Char} (hc : IsNumeric c)
    {s : Scanner} (h : step ⟨ts, .number part read⟩ c = some s) :
    (∃ q, part.next? c = some q ∧ s = ⟨ts, .number q (c :: read)⟩)
      ∨ ∃ p, s = ⟨.number read.reverse :: ts, .number p [c]⟩ := by
  unfold step at h
  cases hnext : part.next? c with
  | some q =>
    simp only [hnext, Option.some_inj] at h
    exact .inl ⟨q, rfl, h.symm⟩
  | none =>
    simp only [hnext, Option.ite_none_right_eq_some] at h
    obtain ⟨p, -, rfl⟩ := begin?_numeric hc h.2
    exact .inr ⟨p, rfl⟩

/-- The text goes on with the number to its end, or there are two numbers behind each other. -/
theorem run_numeric : ∀ {text : List Char}, (∀ c ∈ text, IsNumeric c) →
    ∀ {ts : List Token} {part : NumberPart} {read : List Char} {s : Scanner},
      text.foldlM step ⟨ts, .number part read⟩ = some s →
        (∃ q, part.run? text = some q ∧ s = ⟨ts, .number q (text.reverse ++ read)⟩)
          ∨ ∃ literal tokens q last, s = ⟨.number literal :: tokens, .number q last⟩
  | [], _, ts, part, read, s, h => by
    cases h
    exact .inl ⟨part, rfl, rfl⟩
  | c :: text, hd, ts, part, read, s, h => by
    obtain ⟨hc, htext⟩ := List.forall_mem_cons.1 hd
    rw [List.foldlM_cons] at h
    obtain ⟨t, ht, hmore⟩ := Option.bind_eq_some_iff.1 h
    obtain ⟨q, hq, rfl⟩ | ⟨p, rfl⟩ := step_numeric hc ht
    · obtain ⟨r, hr, rfl⟩ | htwo := run_numeric htext hmore
      · refine .inl ⟨r, NumberPart.run?_cons hq hr, ?_⟩
        rw [List.reverse_cons, List.append_assoc, List.singleton_append]
      · exact .inr htwo
    · obtain ⟨r, -, rfl⟩ | htwo := run_numeric htext hmore
      · exact .inr ⟨_, _, _, _, rfl⟩
      · exact .inr htwo

/-- Behind a closing brace a number is over, if it is complete. -/
theorem scan?_closing {part : NumberPart} {read : List Char} {tokens : List Token}
    (h : scan? ⟨ts, .number part read⟩ ['\x7d', '\x7d'] = some tokens) :
    part.isComplete = true
      ∧ tokens = (.closeBrace :: .closeBrace :: .number read.reverse :: ts).reverse := by
  have hnext : part.next? '\x7d' = none := by cases part <;> rfl
  cases hpart : part.isComplete with
  | true =>
    rw [scan?_complete hpart (by rintro c ⟨⟩; decide)] at h
    exact ⟨rfl, (Option.some_inj.1 h).symm⟩
  | false =>
    have hstep : step ⟨ts, .number part read⟩ '\x7d' = none := by simp [step, hnext, hpart]
    unfold scan? at h
    rw [List.foldlM_cons, hstep] at h
    cases h

theorem not_separated_of_numbers {s t : List Char} {front back : List Token} :
    ¬ Separated (front ++ .number s :: .number t :: back) := by
  intro h
  have hback := (List.isChain_append.1 h).2.1
  cases (List.isChain_cons_cons.1 hback).1 rfl

theorem scan?_numeric {text : List Char} (hne : text ≠ []) (hd : ∀ c ∈ text, IsNumeric c)
    {tokens : List Token}
    (h : scan? ⟨ts, .between⟩ (text ++ ['\x7d', '\x7d']) = some tokens) :
    (NumberPart.Scans text ∧ tokens = ts.reverse ++ [.number text, .closeBrace, .closeBrace])
      ∨ ¬ Separated tokens := by
  obtain ⟨c, more, rfl⟩ := List.exists_cons_of_ne_nil hne
  obtain ⟨hc, hmore⟩ := List.forall_mem_cons.1 hd
  obtain ⟨last, hlast, htokens⟩ := Option.bind_eq_some_iff.1 h
  rw [List.foldlM_append, List.foldlM_cons] at hlast
  obtain ⟨s, hs, hlast⟩ := Option.bind_eq_some_iff.1 hlast
  obtain ⟨t, ht, hs⟩ := Option.bind_eq_some_iff.1 hs
  obtain ⟨p, hp, rfl⟩ := begin?_numeric hc ht
  have hend : scan? s ['\x7d', '\x7d'] = some tokens := by
    unfold scan?
    rw [hlast]
    exact htokens
  obtain ⟨q, hq, rfl⟩ | ⟨literal, before, q, last, rfl⟩ := run_numeric hmore hs
  · obtain ⟨hcomplete, rfl⟩ := scan?_closing hend
    exact .inl ⟨⟨c, more, p, q, rfl, hp, hq, hcomplete⟩, by simp⟩
  · obtain ⟨-, rfl⟩ := scan?_closing hend
    refine .inr ?_
    simp only [List.reverse_cons, List.append_assoc, List.cons_append, List.nil_append]
    exact not_separated_of_numbers

end Scanner

end Json

end LS8
