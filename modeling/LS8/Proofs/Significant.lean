import LS8.Proofs.Parse
import Mathlib.Data.List.DropRight
import Mathlib.Data.List.TakeWhile

/-!
# Significant text

Trimming takes blanks off both ends of a text and nothing else, so what is left neither starts nor
ends with one, and this describes it (`Text.trim_eq_iff`). The significant text of a line is then
what stands between blanks before the first comment mark (`SourceLine.significant_eq_iff`). It is
significant text itself, all of it, and a line stands for what its significant text stands for
(`classify_significant`).
-/

namespace LS8

namespace Text

/-! ## Trimming -/

/-- Neither starts nor ends with a blank. -/
structure Trimmed (text : List Char) : Prop where
  start : ∀ c ∈ text.head?, isBlank c = false
  stop : ∀ c ∈ text.getLast?, isBlank c = false

theorem trimEnd_eq_rdropWhile (text : List Char) : trimEnd text = text.rdropWhile isBlank := rfl

theorem trimStart_append {front : List Char} (hfront : ∀ c ∈ front, isBlank c = true)
    (text : List Char) : trimStart (front ++ text) = trimStart text :=
  List.dropWhile_append_of_pos hfront

theorem trimEnd_append (text : List Char) {back : List Char}
    (hback : ∀ c ∈ back, isBlank c = true) : trimEnd (text ++ back) = trimEnd text := by
  unfold trimEnd
  rw [List.reverse_append,
    List.dropWhile_append_of_pos fun c hc => hback c (List.mem_reverse.1 hc)]

/-- Blanks at the ends do not matter. -/
theorem trim_append {front back : List Char} (hfront : ∀ c ∈ front, isBlank c = true)
    (hback : ∀ c ∈ back, isBlank c = true) (text : List Char) :
    trim (front ++ text ++ back) = trim text := by
  unfold trim
  rw [List.append_assoc, trimStart_append hfront]
  unfold trimStart
  rw [List.dropWhile_append]
  split_ifs with hblank
  · rw [List.isEmpty_iff.1 hblank, List.dropWhile_eq_nil_iff.2 hback]
  · exact trimEnd_append _ hback

theorem Trimmed.trim_eq {text : List Char} (h : Trimmed text) : trim text = text := by
  have hkept : trimStart text = text := by
    refine List.dropWhile_eq_self_iff.2 fun hlen => ?_
    rw [h.start _ (by rw [List.head?_eq_getElem?, List.getElem?_eq_getElem hlen]; rfl)]
    decide
  rw [trim, hkept, trimEnd_eq_rdropWhile]
  refine List.rdropWhile_eq_self_iff.2 fun hne => ?_
  rw [h.stop _ (List.getLast?_eq_some_getLast hne)]
  decide

theorem trimmed_trim (text : List Char) : Trimmed (trim text) := by
  constructor
  · intro c hc
    obtain ⟨rest, hrest⟩ := List.rdropWhile_prefix isBlank (l := trimStart text)
    have hhead : (trimStart text).head? = some c := by
      rw [← hrest, List.head?_append, ← trimEnd_eq_rdropWhile, ← trim, Option.mem_def.1 hc]
      rfl
    have hnot := List.head?_dropWhile_not isBlank text
    rw [← trimStart, hhead] at hnot
    simpa using hnot
  · intro c hc
    obtain ⟨hne, rfl⟩ := List.mem_getLast?_eq_getLast hc
    exact Bool.eq_false_iff.2 (List.rdropWhile_last_not isBlank (trimStart text) hne)

theorem trim_eq_iff {text core : List Char} :
    trim text = core ↔ Trimmed core ∧ ∃ front back, text = front ++ core ++ back
      ∧ (∀ c ∈ front, isBlank c = true) ∧ ∀ c ∈ back, isBlank c = true := by
  constructor
  · rintro rfl
    refine ⟨trimmed_trim text, text.takeWhile isBlank, (trimStart text).rtakeWhile isBlank, ?_,
      fun c hc => List.mem_takeWhile_imp hc, fun c hc => List.mem_rtakeWhile_imp hc⟩
    rw [List.append_assoc, trim, trimEnd_eq_rdropWhile, List.rdropWhile_append_rtakeWhile]
    exact List.takeWhile_append_dropWhile.symm
  · rintro ⟨hcore, front, back, rfl, hfront, hback⟩
    rw [trim_append hfront hback, hcore.trim_eq]

end Text

namespace SourceLine

open Text

/-! ## Lines -/

theorem ne_commentMark_of_isBlank {c : Char} (h : isBlank c = true) : c ≠ commentMark := by
  rintro rfl
  revert h
  decide

/-- The significant text stands between blanks, before the comment if there is one. -/
theorem significant_eq_iff {line text : List Char} :
    significant line = text ↔ Trimmed text ∧ commentMark ∉ text
      ∧ ∃ front back comment, line = front ++ text ++ back ++ comment
        ∧ (∀ c ∈ front, isBlank c = true) ∧ (∀ c ∈ back, isBlank c = true)
        ∧ ∀ c ∈ comment.head?, c = commentMark := by
  constructor
  · intro h
    obtain ⟨htrimmed, front, back, hcode, hfront, hback⟩ := trim_eq_iff.1 h
    obtain ⟨comment, hline, hmarks, hcomment⟩ := takeWhile_eq_iff.1 hcode
    refine ⟨htrimmed, fun hmem => ?_, front, back, comment, hline, hfront, hback, fun c hc => ?_⟩
    · simpa using hmarks commentMark (by simp [hmem])
    · simpa using hcomment c hc
  · rintro ⟨htrimmed, hmark, front, back, comment, rfl, hfront, hback, hcomment⟩
    refine trim_eq_iff.2 ⟨htrimmed, front, back, takeWhile_eq_iff.2 ⟨comment, rfl, ?_, ?_⟩,
      hfront, hback⟩
    · intro c hc
      simp only [List.mem_append] at hc
      rcases hc with (hc | hc) | hc
      · exact decide_eq_true (ne_commentMark_of_isBlank (hfront c hc))
      · exact decide_eq_true fun heq : c = commentMark => hmark (heq ▸ hc)
      · exact decide_eq_true (ne_commentMark_of_isBlank (hback c hc))
    · exact fun c hc => by simp [hcomment c hc]

/-- The comment does not matter. -/
theorem significant_takeWhile (line : List Char) :
    significant (line.takeWhile (· ≠ commentMark)) = significant line := by
  refine congrArg trim (List.takeWhile_eq_self_iff.2 fun c hc => ?_)
  have hcode := List.mem_takeWhile_imp hc
  exact hcode

/-- Blanks behind a line do not matter, whether it has a comment or not. -/
theorem significant_append_blanks (line : List Char) {after : List Char}
    (hafter : ∀ c ∈ after, isBlank c = true) : significant (line ++ after) = significant line := by
  obtain ⟨htrimmed, hmark, front, back, comment, hline, hfront, hback, hcomment⟩ :=
    significant_eq_iff.1 (rfl : significant line = _)
  refine significant_eq_iff.2 ⟨htrimmed, hmark, ?_⟩
  cases comment with
  | nil =>
    refine ⟨front, back ++ after, [], ?_, hfront, fun c hc => ?_, hcomment⟩
    · rw [List.append_nil] at hline
      rw [List.append_nil, ← List.append_assoc, ← hline]
    · exact (List.mem_append.1 hc).elim (hback c) (hafter c)
  | cons mark comment =>
    -- Behind a comment, the blanks are part of it.
    refine ⟨front, back, mark :: comment ++ after, ?_, hfront, hback, hcomment⟩
    rw [← List.append_assoc, ← hline]

theorem significant_significant (line : List Char) :
    significant (significant line) = significant line := by
  obtain ⟨htrimmed, hmark, -⟩ := significant_eq_iff.1 (rfl : significant line = _)
  exact significant_eq_iff.2 ⟨htrimmed, hmark, [], [], [], by simp⟩

theorem classify_congr {line line' : List Char} (h : significant line = significant line') :
    classify line = classify line' := by
  unfold classify
  rw [h]

theorem classify_significant (line : List Char) : classify (significant line) = classify line :=
  classify_congr (significant_significant line)

end SourceLine

end LS8
