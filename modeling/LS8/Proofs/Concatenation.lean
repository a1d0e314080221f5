import LS8.Proofs.RoundTrip

/-!
# Sources one behind the other

Two sources with a line feed between them have the lines of the first, the lines of the second, and
at most an empty line where they meet (`ReadAs.joined`). So reading goes through with concatenation:
a literal that is too wide is found in the first part where it was, or else in the second as many
lines further down as the first part is long, and otherwise the values follow each other, as far as
both programs together fit (`parse_joined`).
-/

namespace LS8

namespace Source

open SourceLine

/-- The bytes as a source that is read to its end. -/
def ofBytes (bytes : List UInt8) : Source where
  bytes

/-- Two sources with a line feed between them. -/
def joined (s t : List UInt8) : Source :=
  ofBytes (s ++ lineFeed :: t)

variable {s t : List UInt8} {source : Source} {l₁ l₂ : List (List UInt8)} {k₁ k₂ : List SourceLine}

/-! ## Lines -/

theorem CutInto.joined {c₁ c₂ : List (List UInt8)} {r₁ r₂ : List UInt8} (h₁ : CutInto s c₁ r₁)
    (h₂ : CutInto t c₂ r₂) : CutInto (s ++ lineFeed :: t) (c₁ ++ r₁ :: c₂) r₂ where
  bytes := by simp [h₁.bytes, h₂.bytes]
  complete := by
    intro l hl
    simp only [List.mem_append, List.mem_cons] at hl
    rcases hl with hl | rfl | hl
    · exact h₁.complete l hl
    · exact h₁.rest
    · exact h₂.complete l hl
  rest := h₂.rest

theorem CutInto.count_lineFeed : ∀ {c : List (List UInt8)} {s r : List UInt8}, CutInto s c r →
    s.count lineFeed = c.length
  | [], s, r, h => by
    rw [h.bytes]
    simpa [List.count_eq_zero] using h.rest
  | l :: c, s, r, h => by
    obtain ⟨hl, hc⟩ := List.forall_mem_cons.1 h.complete
    have ih := CutInto.count_lineFeed (c := c) (r := r) ⟨rfl, hc, h.rest⟩
    have hzero : l.count lineFeed = 0 := List.count_eq_zero.2 hl
    rw [h.bytes]
    simp only [List.map_cons, List.flatten_cons, List.append_assoc, List.count_append, hzero,
      List.count_singleton_self, List.length_cons] at ih ⊢
    omega

theorem standsFor_nil : StandsFor [] .skip := by
  have htext : HasText [] [] := ⟨[], rfl, by simp [Text.encode], by simp⟩
  exact .text htext

/-- The joined sources have the lines of both. Where the first one ends in a line feed or is empty,
there is an empty line between. -/
theorem ReadAs.joined (h₁ : (ofBytes s).ReadAs l₁ k₁) (h₂ : (ofBytes t).ReadAs l₂ k₂) :
    ∃ gap : List (List UInt8), (l₁ ++ gap).length = s.count lineFeed + 1
      ∧ (joined s t).ReadAs (l₁ ++ gap ++ l₂) (k₁ ++ gap.map (fun _ => .skip) ++ k₂) := by
  obtain ⟨⟨c₁, r₁, hcut₁, hl₁⟩, hstand₁⟩ := h₁
  obtain ⟨⟨c₂, r₂, hcut₂, hl₂⟩, hstand₂⟩ := h₂
  have hcount : s.count lineFeed = c₁.length := hcut₁.count_lineFeed
  have hcut := hcut₁.joined hcut₂
  by_cases hr : r₁ = []
  · subst hr
    simp only [ne_eq, not_true_eq_false, false_and, if_false, List.append_nil] at hl₁
    subst hl₁
    refine ⟨[[]], by simp [hcount], ⟨_, r₂, hcut, ?_⟩, ?_⟩
    · rw [hl₂]
      simp [Source.joined, ofBytes]
    · exact List.rel_append (List.rel_append hstand₁ (.cons standsFor_nil .nil)) hstand₂
  · rw [if_pos ⟨hr, rfl⟩] at hl₁
    refine ⟨[], by simp [hl₁, hcount], ⟨_, r₂, hcut, ?_⟩, ?_⟩
    · rw [hl₁, hl₂]
      simp [Source.joined, ofBytes]
    · simpa using List.rel_append hstand₁ hstand₂

/-! ## Answers -/

theorem ReadAs.answers (h : source.ReadAs l₁ k₁) : source.Answers l₁ k₁ source.parse := by
  obtain ⟨r, hr⟩ := exists_answer h
  rwa [← hr.parse_eq h] at hr

theorem ReadAs.fits (h : source.ReadAs l₁ k₁)
    (hparse : ∀ line text, source.parse ≠ .error (.valueOutOfRange line text)) :
    .tooWide ∉ k₁ := by
  have hanswers := h.answers
  generalize source.parse = r at hanswers hparse
  cases hanswers with
  | tooWide => exact absurd rfl (hparse _ _)
  | unavailable fits | tooLarge fits | image fits => exact fits

/-- What is too wide in the first lines is too wide whatever comes behind them. -/
theorem Answers.append {other : Source} {line : ℕ} {text : String}
    (h : source.Answers l₁ k₁ (.error (.valueOutOfRange line text)))
    (hlength : l₁.length = k₁.length) (l₂ : List (List UInt8)) (k₂ : List SourceLine) :
    other.Answers (l₁ ++ l₂) (k₁ ++ k₂) (.error (.valueOutOfRange line text)) := by
  cases h with
  | @tooWide i raw text wide first hline code =>
    have hi : i < k₁.length := (List.getElem?_eq_some_iff.1 wide).1
    refine .tooWide ?_ (fun j hj => ?_) ?_ code
    · rw [List.getElem?_append_left hi, wide]
    · rw [List.getElem?_append_left (by omega)]
      exact first j hj
    · rw [List.getElem?_append_left (by omega), hline]

/-- What is too wide behind lines that all fit is so many lines further down. -/
theorem Answers.prepend {other : Source} {line : ℕ} {text : String}
    (h : source.Answers l₂ k₂ (.error (.valueOutOfRange line text)))
    (hlength : l₁.length = k₁.length) (hfits : .tooWide ∉ k₁) :
    other.Answers (l₁ ++ l₂) (k₁ ++ k₂) (.error (.valueOutOfRange (line + l₁.length) text)) := by
  cases h with
  | @tooWide i raw text wide first hline code =>
    rw [show i + 1 + l₁.length = l₁.length + i + 1 by omega]
    refine .tooWide ?_ (fun j hj => ?_) ?_ code
    · rw [hlength, List.getElem?_append_right (by omega), Nat.add_sub_cancel_left, wide]
    · by_cases hj₁ : j < k₁.length
      · rw [List.getElem?_append_left hj₁]
        exact fun hj => hfits (List.mem_of_getElem? hj)
      · rw [List.getElem?_append_right (by omega)]
        exact first _ (by omega)
    · rw [List.getElem?_append_right (by omega), Nat.add_sub_cancel_left, hline]

/-- Lines that are passed over have no values. -/
theorem values_gap (gap : List (List UInt8)) :
    (k₁ ++ gap.map (fun _ => SourceLine.skip) ++ k₂).filterMap value?
      = k₁.filterMap value? ++ k₂.filterMap value? := by
  have hskip : (gap.map fun _ => SourceLine.skip).filterMap value? = [] := by
    simp [value?]
  rw [List.filterMap_append, List.filterMap_append, hskip, List.append_nil]

/-- Where no literal is too wide, every literal has a value. -/
theorem ReadAs.length_literals (h : source.ReadAs l₁ k₁) (hfits : .tooWide ∉ k₁) :
    source.literals.length = (k₁.filterMap value?).length := by
  have hnormal := congrArg List.length (normalized_literals h.standing hfits)
  rw [List.length_map, List.length_map] at hnormal
  rw [Source.literals, ← h.divided.eq, hnormal]

theorem ReadAs.parse_of_fits (h : (ofBytes s).ReadAs l₁ k₁) (hfits : .tooWide ∉ k₁)
    (hsize : (k₁.filterMap value?).length ≤ memorySize) :
    (ofBytes s).parse = .ok ⟨(k₁.filterMap value?).toArray, hsize⟩ :=
  Answers.parse_eq h (.image hfits rfl rfl)

/-- Reading two sources one behind the other gives what reading each of them gives, put together. -/
theorem parse_joined (s t : List UInt8) :
    (∀ line text, (ofBytes s).parse = .error (.valueOutOfRange line text) →
        (joined s t).parse = .error (.valueOutOfRange line text))
      ∧ ((∀ line text, (ofBytes s).parse ≠ .error (.valueOutOfRange line text)) →
        (∀ line text, (ofBytes t).parse = .error (.valueOutOfRange line text) →
            (joined s t).parse
              = .error (.valueOutOfRange (line + (s.count lineFeed + 1)) text))
          ∧ ((∀ line text, (ofBytes t).parse ≠ .error (.valueOutOfRange line text)) →
            (memorySize < (ofBytes s).literals.length + (ofBytes t).literals.length →
                (joined s t).parse = .error (.programTooLarge
                  ((ofBytes s).literals.length + (ofBytes t).literals.length) memorySize))
              ∧ ((ofBytes s).literals.length + (ofBytes t).literals.length ≤ memorySize →
                ∃ first second both, (ofBytes s).parse = .ok first
                  ∧ (ofBytes t).parse = .ok second ∧ (joined s t).parse = .ok both
                  ∧ both.bytes = first.bytes ++ second.bytes))) := by
  obtain ⟨l₁, k₁, h₁⟩ := (ofBytes s).exists_readAs
  obtain ⟨l₂, k₂, h₂⟩ := (ofBytes t).exists_readAs
  obtain ⟨gap, hgap, hboth⟩ := h₁.joined h₂
  have hlength : l₁.length = k₁.length := h₁.standing.length_eq
  have hfront : (l₁ ++ gap).length = (k₁ ++ gap.map fun _ => SourceLine.skip).length := by
    simp [hlength]
  refine ⟨fun line text hs => ?_, fun hs => ?_⟩
  · refine Answers.parse_eq hboth ?_
    rw [List.append_assoc, List.append_assoc]
    exact (hs ▸ h₁.answers).append hlength _ _
  -- From here on the first part has no literal that is too wide, so the second part decides.
  have hfits₁ := h₁.fits hs
  refine ⟨fun line text ht => ?_, fun ht => ?_⟩
  · rw [← hgap]
    exact Answers.parse_eq hboth ((ht ▸ h₂.answers).prepend hfront (by simp [hfits₁]))
  -- All literals have values, and only their number is left to decide.
  have hfits₂ := h₂.fits ht
  have hfits : SourceLine.tooWide ∉ k₁ ++ gap.map (fun _ => SourceLine.skip) ++ k₂ := by
    simp [hfits₁, hfits₂]
  rw [h₁.length_literals hfits₁, h₂.length_literals hfits₂, ← List.length_append,
    ← values_gap gap]
  refine ⟨fun hlarge => Answers.parse_eq hboth (.tooLarge hfits rfl hlarge), fun hsize => ?_⟩
  have hsum := hsize
  rw [values_gap, List.length_append] at hsum
  refine ⟨_, _, _, h₁.parse_of_fits hfits₁ (by omega), h₂.parse_of_fits hfits₂ (by omega),
    ReadAs.parse_of_fits hboth hfits hsize, ?_⟩
  simp only [values_gap, List.append_toArray]

/-- A literal with a comment, in a line that ends. -/
def oneLine : List UInt8 :=
  Text.encode "1 # one\n".toList

def wideSecond : List UInt8 :=
  Text.encode "10\n111111111".toList

/-- More than half of what fits in memory. -/
def longPart : List UInt8 :=
  (List.replicate 150 (Text.encode "1\n".toList)).flatten

theorem parse_joined_parts :
    (joined oneLine wideSecond).parse = .error (.valueOutOfRange 4 "111111111")
      ∧ (joined wideSecond oneLine).parse = .error (.valueOutOfRange 2 "111111111")
      ∧ (joined longPart longPart).parse = .error (.programTooLarge 300 memorySize)
      ∧ ∃ both, (joined oneLine oneLine).parse = .ok both ∧ both.bytes = #[1, 1] := by
  have hone : (ofBytes oneLine).parse = .ok ⟨#[1], by decide⟩ := rfl
  have hwide : (ofBytes wideSecond).parse = .error (.valueOutOfRange 2 "111111111") := rfl
  have hlong : (ofBytes longPart).literals.length = 150 := by decide +kernel
  have hread : (ofBytes longPart).parse.toOption.isSome = true := by decide +kernel
  have hfits : ∀ line text, (ofBytes longPart).parse ≠ .error (.valueOutOfRange line text) := by
    intro line text h
    rw [h] at hread
    cases hread
  have honeFits : ∀ line text, (ofBytes oneLine).parse ≠ .error (.valueOutOfRange line text) := by
    rw [hone]
    nofun
  refine ⟨((parse_joined _ _).2 honeFits).1 _ _ hwide, (parse_joined _ _).1 _ _ hwide, ?_, ?_⟩
  · have hlarge := (((parse_joined _ _).2 hfits).2 hfits).1
    rw [hlong] at hlarge
    exact hlarge (by decide)
  · obtain ⟨first, second, both, hfirst, hsecond, hboth, hbytes⟩ :=
      (((parse_joined _ _).2 honeFits).2 honeFits).2 (by decide)
    rw [hone] at hfirst hsecond
    cases hfirst
    cases hsecond
    exact ⟨both, hboth, hbytes⟩

end Source

end LS8
