import LS8.Source
import Mathlib.Data.List.Forall2
import Mathlib.Data.List.TakeWhile
import Mathlib.Data.Nat.Find

/-!
# What a source means

The meaning of a source, apart from how it is read. Its bytes fall into lines (`Source.HasLines`),
every line stands for a byte, for nothing, or for a literal that is too wide
(`SourceLine.StandsFor`), and these alone decide the answer: the first literal that is too wide comes
before a reader that broke off, that before a program that is too large, and otherwise the values in
their order are the image (`Source.Answers`). Reading line by line, with an image that stays as it is
when it is full, gives this answer for every source (`parse_answers`).
-/

namespace LS8

namespace SourceLine

/-- The byte of the comment mark. -/
def commentByte : UInt8 := 0x23

/-- The text of a line: the UTF-8 characters of its bytes up to the first comment mark. -/
def HasText (raw : List UInt8) (text : List Char) : Prop :=
  ∃ comment, raw = Text.encode text ++ comment ∧ commentByte ∉ Text.encode text
    ∧ ∀ b ∈ comment.head?, b = commentByte

/-- A line stands for what its text does, and for nothing if it has none. -/
inductive StandsFor (raw : List UInt8) : SourceLine → Prop
  | text {text : List Char} (h : HasText raw text) : StandsFor raw (classify text)
  | noText (h : ∀ text, ¬ HasText raw text) : StandsFor raw .skip

def value? : SourceLine → Option UInt8
  | .byte value => some value
  | .skip | .tooWide => none

theorem takeWhile_eq_iff {α : Type} {p : α → Bool} {l front : List α} :
    l.takeWhile p = front
      ↔ ∃ back, l = front ++ back ∧ (∀ a ∈ front, p a = true) ∧ ∀ a ∈ back.head?, p a = false := by
  constructor
  · rintro rfl
    refine ⟨l.dropWhile p, List.takeWhile_append_dropWhile.symm,
      fun a ha => List.mem_takeWhile_imp ha, fun a ha => ?_⟩
    have := List.head?_dropWhile_not p l
    rw [Option.mem_def.1 ha] at this
    simpa using this
  · rintro ⟨back, rfl, hfront, hback⟩
    rw [List.takeWhile_append_of_pos hfront]
    cases back with
    | nil => simp
    | cons a rest => simp [hback a rfl]

theorem code?_eq_some_iff {raw : List UInt8} {text : List Char} :
    code? raw = some text ↔ HasText raw text := by
  have hmark : commentMark.val.toUInt8 = commentByte := rfl
  unfold code? HasText
  rw [Text.decode?_eq_some_iff, eq_comm, takeWhile_eq_iff, hmark]
  refine exists_congr fun comment => and_congr_right fun _ => and_congr ?_ ?_
  · constructor
    · intro h hmem
      simpa using h _ hmem
    · intro h a ha
      simpa using fun heq : a = commentByte => h (heq ▸ ha)
  · simp

theorem code?_eq_none_iff {raw : List UInt8} : code? raw = none ↔ ∀ text, ¬ HasText raw text := by
  rw [Option.eq_none_iff_forall_ne_some]
  exact forall_congr' fun _ => not_congr code?_eq_some_iff

theorem standsFor_unique {raw : List UInt8} {k k' : SourceLine} (h : StandsFor raw k)
    (h' : StandsFor raw k') : k = k' := by
  cases h with
  | @text t ht =>
    cases h' with
    | @text t' ht' =>
      have := (code?_eq_some_iff.2 ht).symm.trans (code?_eq_some_iff.2 ht')
      rw [Option.some_inj.1 this]
    | noText hno => exact absurd ht (hno t)
  | noText hno =>
    cases h' with
    | @text t ht => exact absurd ht (hno t)
    | noText => rfl

theorem exists_standsFor (raw : List UInt8) : ∃ k, StandsFor raw k := by
  by_cases h : ∃ t, HasText raw t
  · obtain ⟨t, ht⟩ := h
    exact ⟨_, .text ht⟩
  · exact ⟨_, .noText fun t ht => h ⟨t, ht⟩⟩

theorem StandsFor.exists_text {raw : List UInt8} (h : StandsFor raw .tooWide) :
    ∃ t, HasText raw t := by
  generalize hk : SourceLine.tooWide = k at h
  cases h with
  | text ht => exact ⟨_, ht⟩
  | noText => cases hk

end SourceLine

namespace Source

open SourceLine

/-! ## Lines -/

/-- The bytes are the terminated lines, each with its line feed, and a rest without one. -/
structure CutInto (bytes : List UInt8) (complete : List (List UInt8)) (rest : List UInt8) :
    Prop where
  bytes : bytes = (complete.map (· ++ [lineFeed])).flatten ++ rest
  complete : ∀ l ∈ complete, lineFeed ∉ l
  rest : lineFeed ∉ rest

/-- The rest after the last line feed is a line only if it is not empty and the reader came to its
end. -/
def HasLines (source : Source) (lines : List (List UInt8)) : Prop :=
  ∃ complete rest, CutInto source.bytes complete rest
    ∧ lines = complete ++ if rest ≠ [] ∧ source.failure = none then [rest] else []

/-- Bytes without a line feed go on in the line that follows. -/
theorem pieces_append {l : List UInt8} (h : lineFeed ∉ l) (more : List UInt8) :
    pieces (l ++ more) = (pieces more).modifyHead (l ++ ·) := by
  induction l with
  | nil =>
    rw [List.nil_append]
    cases pieces more <;> rfl
  | cons b l ih =>
    rw [List.mem_cons, not_or] at h
    rw [List.cons_append, pieces_cons, if_neg (Ne.symm h.1), ih h.2, List.modifyHead_modifyHead]
    rfl

theorem pieces_line {l : List UInt8} (h : lineFeed ∉ l) (more : List UInt8) :
    pieces (l ++ lineFeed :: more) = l :: pieces more := by
  rw [pieces_append h, pieces_cons, if_pos rfl, List.modifyHead_cons, List.append_nil]

theorem CutInto.pieces_append {bytes rest : List UInt8} {complete : List (List UInt8)}
    (h : CutInto bytes complete rest) (more : List UInt8) :
    Source.pieces (bytes ++ more) = complete ++ (Source.pieces more).modifyHead (rest ++ ·) := by
  obtain ⟨rfl, hcomplete, hrest⟩ := h
  induction complete with
  | nil => exact Source.pieces_append hrest more
  | cons l complete ih =>
    obtain ⟨hl, hcomplete⟩ := List.forall_mem_cons.1 hcomplete
    have hline : ((l :: complete).map (· ++ [lineFeed])).flatten ++ rest ++ more
        = l ++ lineFeed :: ((complete.map (· ++ [lineFeed])).flatten ++ rest ++ more) := by simp
    rw [hline, pieces_line hl, ih hcomplete]
    rfl

theorem CutInto.pieces {bytes rest : List UInt8} {complete : List (List UInt8)}
    (h : CutInto bytes complete rest) : Source.pieces bytes = complete ++ [rest] := by
  simpa using h.pieces_append []

theorem exists_cutInto (bytes : List UInt8) : ∃ complete rest, CutInto bytes complete rest := by
  induction bytes with
  | nil => exact ⟨[], [], rfl, by simp, by simp⟩
  | cons b bytes ih =>
    obtain ⟨complete, rest, rfl, hcomplete, hrest⟩ := ih
    by_cases hb : b = lineFeed
    · subst hb
      exact ⟨[] :: complete, rest, by simp, by simpa using hcomplete, hrest⟩
    · cases complete with
      | nil => exact ⟨[], b :: rest, by simp, by simp, by simp [hrest, Ne.symm hb]⟩
      | cons l complete =>
        obtain ⟨hl, hcomplete⟩ := List.forall_mem_cons.1 hcomplete
        exact ⟨(b :: l) :: complete, rest, by simp, by simpa [hl, Ne.symm hb] using hcomplete, hrest⟩

theorem HasLines.eq {source : Source} {lines : List (List UInt8)} (h : source.HasLines lines) :
    lines = source.lines := by
  obtain ⟨complete, rest, hcut, rfl⟩ := h
  unfold Source.lines
  rw [hcut.pieces]
  rcases source.failure with _ | cause
  · by_cases hrest : rest = [] <;> simp [hrest]
  · simp

theorem hasLines_lines (source : Source) : source.HasLines source.lines := by
  obtain ⟨complete, rest, hcut⟩ := exists_cutInto source.bytes
  have h : source.HasLines _ := ⟨complete, rest, hcut, rfl⟩
  rwa [h.eq] at h

/-! ## Values -/

theorem image_ext {a b : Image} (h : a.bytes.toList = b.bytes.toList) : a = b := by
  obtain ⟨abytes, _⟩ := a
  obtain ⟨bbytes, _⟩ := b
  obtain rfl : abytes = bbytes := Array.toList_inj.1 h
  rfl

theorem bytes_offer {image : Image} (h : image.bytes.size < memorySize) (b : UInt8) :
    (image.offer b).bytes = image.bytes.push b := by
  unfold Image.offer
  rw [dif_pos h]

/-- As long as they fit, the values are all in the image. -/
theorem toList_foldl_add : ∀ (values : List UInt8) (p : Progress),
    p.image.bytes.size + values.length ≤ memorySize →
      (values.foldl Progress.add p).image.bytes.toList = p.image.bytes.toList ++ values
  | [], p, _ => by simp
  | v :: values, p, h => by
    rw [List.length_cons] at h
    have hpush : (p.add v).image.bytes = p.image.bytes.push v := bytes_offer (by omega) v
    have hsize : (p.add v).image.bytes.size = p.image.bytes.size + 1 := by
      rw [hpush, Array.size_push]
    rw [List.foldl_cons, toList_foldl_add values (p.add v) (by omega), hpush]
    simp

theorem count_foldl_add (values : List UInt8) (p : Progress) :
    (values.foldl Progress.add p).count = p.count + values.length := by
  induction values generalizing p with
  | nil => rfl
  | cons v values ih =>
    rw [List.foldl_cons, ih, List.length_cons]
    show p.count + 1 + values.length = _
    omega

/-- A line that is not too wide adds its value, if it has one. -/
theorem readLines_cons {raw : List UInt8} {k : SourceLine} (h : StandsFor raw k)
    (hfits : k ≠ .tooWide) (rest : List (List UInt8)) (number : ℕ) (p : Progress) :
    readLines (raw :: rest) number p
      = readLines rest (number + 1) (k.value?.toList.foldl Progress.add p) := by
  cases h with
  | @text t ht =>
    simp only [readLines, code?_eq_some_iff.2 ht]
    generalize classify t = k at hfits ⊢
    cases k with
    | byte | skip => rfl
    | tooWide => exact absurd rfl hfits
  | noText hno =>
    rw [readLines, code?_eq_none_iff.2 hno]
    rfl

theorem readLines_tooWide {raw : List UInt8} {text : List Char} (h : HasText raw text)
    (hwide : classify text = .tooWide) (rest : List (List UInt8)) (number : ℕ) (p : Progress) :
    readLines (raw :: rest) number p
      = .error (.valueOutOfRange number (String.ofList (significant text))) := by
  simp only [readLines, code?_eq_some_iff.2 h, hwide]

theorem readLines_of_fits {lines : List (List UInt8)} {kinds : List SourceLine}
    (h : List.Forall₂ StandsFor lines kinds) :
    ∀ (number : ℕ) (p : Progress), .tooWide ∉ kinds →
      readLines lines number p = .ok ((kinds.filterMap value?).foldl Progress.add p) := by
  induction h with
  | nil => exact fun _ _ _ => rfl
  | @cons raw k lines kinds hk _ ih =>
    intro number p hfits
    rw [List.mem_cons, not_or] at hfits
    rw [readLines_cons hk (Ne.symm hfits.1), ih _ _ hfits.2, List.filterMap_cons]
    cases k.value? <;> rfl

theorem readLines_of_tooWide {lines : List (List UInt8)} {kinds : List SourceLine}
    (h : List.Forall₂ StandsFor lines kinds) :
    ∀ {i : ℕ} {raw : List UInt8} {text : List Char} (number : ℕ) (p : Progress),
      kinds[i]? = some .tooWide → (∀ j < i, kinds[j]? ≠ some .tooWide) → lines[i]? = some raw →
        HasText raw text → readLines lines number p
          = .error (.valueOutOfRange (number + i) (String.ofList (significant text))) := by
  induction h with
  | nil => exact fun _ _ hwide => by simp at hwide
  | @cons raw' k lines kinds hk _ ih =>
    intro i raw text number p hwide hfirst hraw htext
    cases i with
    | zero =>
      cases hwide
      cases hraw
      have hclass : classify text = .tooWide := standsFor_unique (.text htext) hk
      exact readLines_tooWide htext hclass _ _ _
    | succ i =>
      have hfits : k ≠ .tooWide := fun hk => hfirst 0 (by omega) (congrArg some hk)
      rw [readLines_cons hk hfits,
        ih _ _ hwide (fun j hj => hfirst (j + 1) (by omega)) hraw htext]
      congr 2
      omega

/-! ## Answers -/

/-- The lines of the source, and what each of them stands for. -/
structure ReadAs (source : Source) (lines : List (List UInt8)) (kinds : List SourceLine) : Prop where
  divided : source.HasLines lines
  standing : List.Forall₂ StandsFor lines kinds

/-- The answer that a source with these lines should get. -/
inductive Answers (source : Source) (lines : List (List UInt8)) (kinds : List SourceLine) :
    Except LoadError Image → Prop
  | tooWide {i : ℕ} {raw : List UInt8} {text : List Char} (wide : kinds[i]? = some .tooWide)
      (first : ∀ j < i, kinds[j]? ≠ some .tooWide) (line : lines[i]? = some raw)
      (code : HasText raw text) :
      Answers source lines kinds
        (.error (.valueOutOfRange (i + 1) (String.ofList (significant text))))
  | unavailable {cause : IoError} (fits : .tooWide ∉ kinds) (failed : source.failure = some cause) :
      Answers source lines kinds (.error (.sourceUnavailable cause))
  | tooLarge (fits : .tooWide ∉ kinds) (ended : source.failure = none)
      (large : memorySize < (kinds.filterMap value?).length) :
      Answers source lines kinds
        (.error (.programTooLarge (kinds.filterMap value?).length memorySize))
  | image {image : Image} (fits : .tooWide ∉ kinds) (ended : source.failure = none)
      (values : image.bytes.toList = kinds.filterMap value?) : Answers source lines kinds (.ok image)

variable {source : Source} {lines : List (List UInt8)} {kinds : List SourceLine}

theorem exists_readAs (source : Source) : ∃ lines kinds, source.ReadAs lines kinds := by
  have hstand : ∀ lines : List (List UInt8), ∃ kinds, List.Forall₂ StandsFor lines kinds := by
    intro lines
    induction lines with
    | nil => exact ⟨[], .nil⟩
    | cons raw lines ih =>
      obtain ⟨k, hk⟩ := exists_standsFor raw
      obtain ⟨kinds, hkinds⟩ := ih
      exact ⟨k :: kinds, .cons hk hkinds⟩
  obtain ⟨kinds, hkinds⟩ := hstand source.lines
  exact ⟨source.lines, kinds, hasLines_lines source, hkinds⟩

theorem Answers.parse_eq (h : source.ReadAs lines kinds) {r : Except LoadError Image}
    (hr : source.Answers lines kinds r) : source.parse = r := by
  obtain ⟨hlines, hkinds⟩ := h
  unfold parse
  rw [← hlines.eq]
  cases hr with
  | tooWide wide first line code =>
    rw [readLines_of_tooWide hkinds 1 {} wide first line code, Nat.add_comm]
  | unavailable fits failed => rw [readLines_of_fits hkinds 1 {} fits, failed]
  | tooLarge fits ended large =>
    rw [readLines_of_fits hkinds 1 {} fits, ended]
    simp only [count_foldl_add, Nat.zero_add]
    rw [if_neg (by omega)]
  | @image image fits ended values =>
    have hlen : (kinds.filterMap value?).length ≤ memorySize := by
      rw [← values, Array.length_toList]
      exact image.size_le
    have himage : ((kinds.filterMap value?).foldl Progress.add {}).image = image := by
      refine image_ext ?_
      rw [toList_foldl_add _ _ (by simpa [Image.empty] using hlen), values]
      rfl
    rw [readLines_of_fits hkinds 1 {} fits, ended]
    simp only [count_foldl_add, Nat.zero_add]
    rw [if_pos hlen, himage]

theorem exists_answer (h : source.ReadAs lines kinds) : ∃ r, source.Answers lines kinds r := by
  by_cases hwide : SourceLine.tooWide ∈ kinds
  · have hindex : ∃ i : ℕ, kinds[i]? = some .tooWide := List.mem_iff_getElem?.1 hwide
    obtain ⟨hlen, hget⟩ := List.forall₂_iff_get.1 h.standing
    have hi := Nat.find_spec hindex
    obtain ⟨hlt, hkind⟩ := List.getElem?_eq_some_iff.1 hi
    have hstands := hget _ (hlen ▸ hlt) hlt
    rw [List.get_eq_getElem, List.get_eq_getElem, hkind] at hstands
    obtain ⟨text, htext⟩ := hstands.exists_text
    exact ⟨_, .tooWide hi (fun j hj => Nat.find_min hindex hj)
      (List.getElem?_eq_getElem (hlen ▸ hlt)) htext⟩
  · rcases hfailure : source.failure with _ | cause
    · by_cases hlarge : memorySize < (kinds.filterMap value?).length
      · exact ⟨_, .tooLarge hwide hfailure hlarge⟩
      · have himage : source.Answers lines kinds
            (.ok ⟨(kinds.filterMap value?).toArray, Nat.le_of_not_lt hlarge⟩) :=
          .image hwide hfailure rfl
        exact ⟨_, himage⟩
    · exact ⟨_, .unavailable hwide hfailure⟩

/-- Reading a source gives the answer that its lines should get, and no other. -/
theorem parse_answers (source : Source) :
    (∃ lines kinds, source.ReadAs lines kinds)
      ∧ ∀ lines kinds, source.ReadAs lines kinds →
        ∀ r, source.parse = r ↔ source.Answers lines kinds r := by
  refine ⟨exists_readAs source, fun lines kinds h r => ⟨?_, Answers.parse_eq h⟩⟩
  rintro rfl
  obtain ⟨r, hr⟩ := exists_answer h
  rwa [hr.parse_eq h]

/-- A literal with a comment that is no text, a line that is no text, and a literal that is too
wide. -/
def messyLines : List (List UInt8) :=
  [[49, 32, 35, 255], [255], [32, 49, 48, 48, 48, 48, 48, 48, 48, 48, 13]]

/-- The messy lines, and a literal at which the reader broke off. -/
def brokenOff : Source where
  bytes := (messyLines.map (· ++ [lineFeed])).flatten ++ [49]
  failure := some (.device "device gone")

theorem parse_answers_brokenOff :
    brokenOff.ReadAs messyLines [.byte 1, .skip, .tooWide]
      ∧ brokenOff.parse = .error (.valueOutOfRange 3 "100000000") := by
  have hone : HasText [49, 32, 35, 255] ['1', ' '] :=
    ⟨[35, 255], rfl, by decide, by simp [commentByte]⟩
  have hnone : ∀ text, ¬ HasText [255] text := code?_eq_none_iff.1 rfl
  have hwide : HasText [32, 49, 48, 48, 48, 48, 48, 48, 48, 48, 13] " 100000000\r".toList :=
    ⟨[], rfl, by decide, by simp⟩
  have hlines : brokenOff.HasLines messyLines :=
    ⟨messyLines, [49], ⟨rfl, by decide, by decide⟩, rfl⟩
  have hread : brokenOff.ReadAs messyLines [.byte 1, .skip, .tooWide] :=
    ⟨hlines, .cons (.text hone) (.cons (.noText hnone) (.cons (.text hwide) .nil))⟩
  have hsig : significant " 100000000\r".toList = "100000000".toList := by decide
  have hanswer : brokenOff.Answers messyLines [.byte 1, .skip, .tooWide]
      (.error (.valueOutOfRange 3 "100000000")) := by
    rw [← String.ofList_toList (s := "100000000"), ← hsig]
    exact .tooWide (i := 2) rfl (by decide) rfl hwide
  exact ⟨hread, ((parse_answers brokenOff).2 _ _ hread _).2 hanswer⟩

end Source

end LS8
