import LS8.Proofs.Significant

/-!
# Bytes and lines of text

A source is cut into lines, and a line at its comment, before anything is decoded. In UTF-8 the byte
of a line feed or of a comment mark is part of no other character (`Text.not_mem_encode`), so a
source that is text falls into the lines of that text (`pieces_encode`), and its answer is the one
for these lines, each taken as a whole (`answers_answerLines`).

Of a line, reading uses the text before the comment, and that only if it stands for something
(`SourceLine.counted?`). So the bytes of a comment, and of a line that is no text, do not matter
(`parse_congr`).
-/

namespace LS8

/-! ## Bytes of ASCII -/

namespace Text

/-- A byte below 128 in the encoding of a character is that character. -/
theorem toNat_eq_of_mem_utf8EncodeChar {b : UInt8} {c : Char} (h : b ∈ String.utf8EncodeChar c)
    (hb : b.toNat < 128) : c.toNat = b.toNat := by
  unfold String.utf8EncodeChar at h
  simp only [Char.toNat_val] at h
  split_ifs at h with hascii
  · rw [List.mem_singleton] at h
    rw [h, UInt8.toNat_ofNat']
    omega
  -- Every byte of a longer encoding has its highest bit set.
  all_goals
    simp only [List.mem_cons, List.not_mem_nil, or_false, ← UInt8.toNat_inj,
      UInt8.toNat_ofNat'] at h
    omega

theorem not_mem_encode {text : List Char} {b : UInt8} {c : Char} (hb : b.toNat < 128)
    (hc : c.toNat = b.toNat) (h : c ∉ text) : b ∉ encode text := by
  intro hmem
  obtain ⟨d, hd, hbyte⟩ := List.mem_flatMap.1 hmem
  have heq : d = c := Char.toNat_inj.1 ((toNat_eq_of_mem_utf8EncodeChar hbyte hb).trans hc.symm)
  exact h (heq ▸ hd)

theorem encode_cons (c : Char) (text : List Char) :
    encode (c :: text) = String.utf8EncodeChar c ++ encode text := rfl

theorem encode_eq_nil_iff {text : List Char} : encode text = [] ↔ text = [] := by
  constructor
  · intro h
    have hsome := decode?_encode text
    rw [h] at hsome
    exact (Option.some_inj.1 ((decode?_encode []).symm.trans hsome)).symm
  · rintro rfl
    rfl

end Text

namespace SourceLine

open Text

/-! ## Lines -/

theorem hasText_encode (line : List Char) :
    HasText (encode line) (line.takeWhile (· ≠ commentMark)) := by
  obtain ⟨comment, hline, hcode, hcomment⟩ :=
    takeWhile_eq_iff.1 (rfl : line.takeWhile (· ≠ commentMark) = _)
  refine ⟨encode comment, ?_, ?_, fun b hb => ?_⟩
  · rw [← encode_append, ← hline]
  · have hmark : commentMark ∉ line.takeWhile (· ≠ commentMark) := by
      intro hmem
      simpa using hcode _ hmem
    exact not_mem_encode (by decide) rfl hmark
  · cases comment with
    | nil => cases hb
    | cons c comment =>
      obtain rfl : c = commentMark := by simpa using hcomment c rfl
      exact (Option.some_inj.1 hb).symm

/-- As bytes, a line of text stands for what it stands for as text. -/
theorem standsFor_encode (line : List Char) : StandsFor (encode line) (classify line) := by
  rw [← classify_congr (significant_takeWhile line)]
  exact .text (hasText_encode line)

/-- What reading uses of a line: its text, unless this stands for nothing. -/
def counted? (raw : List UInt8) : Option (List Char) :=
  (code? raw).filter fun text => classify text ≠ .skip

theorem counted?_append_comment (front comment : List UInt8) :
    counted? (front ++ commentByte :: comment) = counted? (front ++ [commentByte]) := by
  have hmark : commentMark.val.toUInt8 = commentByte := rfl
  have hcode : code? (front ++ commentByte :: comment) = code? (front ++ [commentByte]) := by
    unfold code?
    rw [List.takeWhile_append, List.takeWhile_append, hmark]
    simp
  rw [counted?, hcode, counted?]

theorem counted?_of_no_text {raw : List UInt8}
    (h : ∀ text, encode text ≠ raw.takeWhile (· ≠ commentByte)) : counted? raw = none := by
  have hcode : code? raw = none :=
    Option.eq_none_iff_forall_ne_some.2 fun text ht => h text (encode_of_decode? ht)
  rw [counted?, hcode]
  rfl

theorem counted?_encode_blanks {blank : List Char} (h : ∀ c ∈ blank, isBlank c = true) :
    counted? (encode blank) = none := by
  have hsig : significant blank = significant [] := significant_append_blanks [] h
  have hskip : classify (blank.takeWhile (· ≠ commentMark)) = .skip :=
    classify_congr ((significant_takeWhile blank).trans hsig)
  rw [counted?, code?_eq_some_iff.2 (hasText_encode blank), Option.filter_some_neg]
  rw [hskip]
  decide

end SourceLine

namespace Source

open SourceLine

/-! ## Text -/

/-- The lines of a text, whole as they are. What follows the last line feed is one only if it is not
empty and the reader came to its end. -/
def textLines (text : List Char) (failure : Option IoError) : List (List Char) :=
  let parts := text.splitOn '\n'
  let last := parts.getLastD []
  if last = [] || failure.isSome then parts.dropLast else parts

/-- The answer for lines of text: that the first literal that is too wide gets, or else all their
values. -/
def answerLines (lines : List (List Char)) (failure : Option IoError) : Except LoadError Image :=
  match lines.findIdx? (classify · = .tooWide), failure with
  | some i, _ => .error (.valueOutOfRange (i + 1) (String.ofList (significant (lines.getD i []))))
  | none, some cause => .error (.sourceUnavailable cause)
  | none, none =>
    let values := lines.filterMap fun line => (classify line).value?
    match Image.ofBytes? values.toArray with
    | some image => .ok image
    | none => .error (.programTooLarge values.length memorySize)

theorem pieces_encode (text : List Char) :
    pieces (Text.encode text) = (text.splitOn '\n').map Text.encode := by
  induction text with
  | nil => rfl
  | cons c text ih =>
    rw [Text.encode_cons, List.splitOn_cons_eq_if_modifyHead]
    by_cases hc : c = '\n'
    · subst hc
      rw [if_pos (by rfl), List.map_cons, ← ih]
      exact pieces_line List.not_mem_nil _
    · have hline : lineFeed ∉ String.utf8EncodeChar c := by
        have hnot : lineFeed ∉ Text.encode [c] :=
          Text.not_mem_encode (by decide) (rfl : '\n'.toNat = _) (by simpa using Ne.symm hc)
        simpa [Text.encode] using hnot
      rw [if_neg (by simpa using hc), pieces_append hline, ih]
      rcases text.splitOn '\n' with _ | ⟨l, ls⟩ <;> rfl

theorem lines_encode (text : List Char) (failure : Option IoError) :
    (Source.mk (Text.encode text) failure).lines = (textLines text failure).map Text.encode := by
  have hlast : ((text.splitOn '\n').map Text.encode).getLastD []
      = Text.encode ((text.splitOn '\n').getLastD []) := by
    rw [List.getLastD_eq_getLast?, List.getLastD_eq_getLast?, List.getLast?_map]
    rcases (text.splitOn '\n').getLast? <;> rfl
  unfold lines textLines
  simp only [pieces_encode, hlast, Text.encode_eq_nil_iff]
  split
  · rw [List.map_dropLast]
  · rfl

theorem readAs_encode (text : List Char) (failure : Option IoError) :
    (Source.mk (Text.encode text) failure).ReadAs ((textLines text failure).map Text.encode)
      ((textLines text failure).map classify) where
  divided := lines_encode text failure ▸ hasLines_lines _
  standing := by
    rw [List.forall₂_map_left_iff, List.forall₂_map_right_iff, List.forall₂_same]
    exact fun line _ => standsFor_encode line

/-- The answer for the lines as text is the one that a source should get that has these lines. -/
theorem answers_answerLines (source : Source) (lines : List (List Char)) :
    source.Answers (lines.map Text.encode) (lines.map classify)
      (answerLines lines source.failure) := by
  unfold answerLines
  rcases hwide : lines.findIdx? (classify · = .tooWide) with _ | i
  · have hfits : SourceLine.tooWide ∉ lines.map classify := by
      rw [List.findIdx?_eq_none_iff] at hwide
      intro hmem
      obtain ⟨line, hline, hclass⟩ := List.mem_map.1 hmem
      simpa [hclass] using hwide line hline
    rcases hfailure : source.failure with _ | cause
    · have hvalues : (lines.map classify).filterMap value?
          = lines.filterMap fun line => (classify line).value? := List.filterMap_map
      simp only
      rw [← hvalues]
      unfold Image.ofBytes?
      split_ifs with hsize
      · exact .image hfits hfailure rfl
      · exact .tooLarge hfits hfailure (Nat.lt_of_not_le hsize)
    · exact .unavailable hfits hfailure
  · obtain ⟨hi, hclass, hfirst⟩ := List.findIdx?_eq_some_iff_getElem.1 hwide
    have hline : lines[i]? = some lines[i] := List.getElem?_eq_getElem hi
    have hkind : (lines.map classify)[i]? = some .tooWide := by
      rw [List.getElem?_map, hline, Option.map_some, of_decide_eq_true hclass]
    have hbefore : ∀ j < i, (lines.map classify)[j]? ≠ some .tooWide := by
      intro j hj hwide
      rw [List.getElem?_map, List.getElem?_eq_getElem (by omega), Option.map_some] at hwide
      exact hfirst j hj (decide_eq_true (Option.some_inj.1 hwide))
    have hraw : (lines.map Text.encode)[i]? = some (Text.encode lines[i]) := by
      rw [List.getElem?_map, hline, Option.map_some]
    simp only
    rw [List.getD_eq_getElem?_getD, hline, Option.getD_some, ← significant_takeWhile]
    exact .tooWide hkind hbefore hraw (hasText_encode _)

/-! ## Lines that read alike -/

theorem readLines_of_not_counted {raw : List UInt8} (h : counted? raw = none)
    (rest : List (List UInt8)) (number : ℕ) (p : Progress) :
    readLines (raw :: rest) number p = readLines rest (number + 1) p := by
  unfold counted? at h
  rcases hcode : code? raw with _ | text
  · simp only [readLines, hcode]
  · have hskip : classify text = .skip := by simpa [hcode] using h
    simp only [readLines, hcode, hskip]

theorem readLines_cons_congr {raw raw' : List UInt8} (h : counted? raw = counted? raw')
    {rest rest' : List (List UInt8)} {number : ℕ}
    (hrest : ∀ p, readLines rest (number + 1) p = readLines rest' (number + 1) p) (p : Progress) :
    readLines (raw :: rest) number p = readLines (raw' :: rest') number p := by
  rcases hcounted : counted? raw' with _ | text
  · rw [readLines_of_not_counted (h.trans hcounted), readLines_of_not_counted hcounted, hrest]
  · have hcode : code? raw = some text := (Option.filter_eq_some_iff.1 (h.trans hcounted)).1
    have hcode' : code? raw' = some text := (Option.filter_eq_some_iff.1 hcounted).1
    simp only [readLines, hcode, hcode', hrest]

theorem readLines_congr : ∀ {lines lines' : List (List UInt8)},
    lines.map counted? = lines'.map counted? → ∀ (number : ℕ) (p : Progress),
      readLines lines number p = readLines lines' number p
  | [], [], _, _, _ => rfl
  | [], _ :: _, h, _, _ => by cases h
  | _ :: _, [], h, _, _ => by cases h
  | raw :: rest, raw' :: rest', h, number, p => by
    obtain ⟨hhead, hrest⟩ := List.cons.inj h
    exact readLines_cons_congr hhead (fun p => readLines_congr hrest (number + 1) p) p

/-- A last line that is not counted makes no difference. -/
theorem readLines_concat {raw : List UInt8} (h : counted? raw = none) :
    ∀ (lines : List (List UInt8)) (number : ℕ) (p : Progress),
      readLines (lines ++ [raw]) number p = readLines lines number p
  | [], number, p => readLines_of_not_counted h [] number p
  | _ :: rest, number, p =>
    readLines_cons_congr rfl (fun p => readLines_concat h rest (number + 1) p) p

theorem readLines_lines (bytes : List UInt8) (p : Progress) :
    readLines (Source.mk bytes none).lines 1 p = readLines (pieces bytes) 1 p := by
  obtain ⟨complete, rest, hcut⟩ := exists_cutInto bytes
  unfold lines
  simp only [hcut.pieces, List.getLastD_concat, Option.isSome_none, Bool.or_false]
  split_ifs with hrest
  -- The only piece that is no line is an empty one at the end, and that is not counted.
  · have hnil : counted? [] = none := rfl
    have hblank : counted? rest = none := (of_decide_eq_true hrest) ▸ hnil
    rw [List.dropLast_concat, readLines_concat hblank]
  · rfl

/-- Sources are read alike if their lines count alike. -/
theorem parse_congr {bytes bytes' : List UInt8}
    (h : (pieces bytes).map counted? = (pieces bytes').map counted?) (failure : Option IoError) :
    (Source.mk bytes failure).parse = (Source.mk bytes' failure).parse := by
  have hread : readLines (Source.mk bytes failure).lines 1 {}
      = readLines (Source.mk bytes' failure).lines 1 {} := by
    rcases failure with _ | cause
    · rw [readLines_lines, readLines_lines, readLines_congr h]
    -- Where the reader broke off, the last piece is no line, whatever it holds.
    · refine readLines_congr ?_ 1 {}
      simp only [lines, Option.isSome_some, Bool.or_true, if_true, List.map_dropLast, h]
  unfold parse
  rw [hread]

theorem CutInto.rest_eq_nil {bytes rest : List UInt8} {complete : List (List UInt8)}
    (h : CutInto bytes complete rest) (hend : ∀ b ∈ bytes.getLast?, b = lineFeed) :
    rest = [] := by
  by_contra hne
  refine h.rest ?_
  have hlast : bytes.getLast? = some (rest.getLast hne) := by
    rw [h.bytes, List.getLast?_append_of_ne_nil _ hne, List.getLast?_eq_some_getLast hne]
  rw [← hend _ hlast]
  exact List.getLast_mem hne

theorem exists_pieces_of_start {bytes : List UInt8} (hstart : ∀ b ∈ bytes.head?, b = lineFeed) :
    ∃ more, pieces bytes = [] :: more := by
  cases bytes with
  | nil => exact ⟨[], rfl⟩
  | cons b bytes => exact ⟨pieces bytes, by rw [pieces_cons, if_pos (hstart b rfl)]⟩

/-- What stands in one place of a source may be replaced if the line around it counts alike. -/
theorem parse_replace {before front middle middle' after back : List UInt8}
    {complete more : List (List UInt8)} (hbefore : CutInto before complete front)
    (hafter : pieces after = back :: more) (h : lineFeed ∉ middle) (h' : lineFeed ∉ middle')
    (hline : counted? (front ++ middle ++ back) = counted? (front ++ middle' ++ back))
    (failure : Option IoError) :
    (Source.mk (before ++ middle ++ after) failure).parse
      = (Source.mk (before ++ middle' ++ after) failure).parse := by
  refine parse_congr ?_ failure
  rw [List.append_assoc, List.append_assoc, hbefore.pieces_append, hbefore.pieces_append,
    pieces_append h, pieces_append h', hafter]
  simp only [List.modifyHead_cons, List.map_append, List.map_cons, ← List.append_assoc, hline]

theorem parse_comment {comment comment' : List UInt8} (h : lineFeed ∉ comment)
    (h' : lineFeed ∉ comment') (before after : List UInt8) (failure : Option IoError) :
    (Source.mk (before ++ commentByte :: comment ++ after) failure).parse
      = (Source.mk (before ++ commentByte :: comment' ++ after) failure).parse := by
  obtain ⟨complete, front, hcut⟩ := exists_cutInto before
  obtain ⟨back, more, hafter⟩ := List.exists_cons_of_ne_nil (pieces_ne_nil after)
  have hmark : lineFeed ≠ commentByte := by decide
  refine parse_replace hcut hafter (by simp [hmark, h]) (by simp [hmark, h']) ?_ failure
  rw [List.append_assoc, List.append_assoc, List.cons_append, List.cons_append,
    counted?_append_comment, ← counted?_append_comment]

/-- The bytes are a line between those before and those after. -/
structure LineBetween (before line after : List UInt8) : Prop where
  start : ∀ b ∈ before.getLast?, b = lineFeed
  line : lineFeed ∉ line
  stop : ∀ b ∈ after.head?, b = lineFeed

theorem parse_line {before after line line' : List UInt8} (h : LineBetween before line after)
    (h' : LineBetween before line' after) (hline : counted? line = counted? line')
    (failure : Option IoError) :
    (Source.mk (before ++ line ++ after) failure).parse
      = (Source.mk (before ++ line' ++ after) failure).parse := by
  obtain ⟨complete, front, hcut⟩ := exists_cutInto before
  obtain ⟨more, hafter⟩ := exists_pieces_of_start h.stop
  obtain rfl := hcut.rest_eq_nil h.start
  exact parse_replace hcut hafter h.line h'.line (by simpa using hline) failure

/-- A source that is text gets the answer for its lines, whole as they are. What stands in comments
makes no difference in any source, and a line that is no text counts as one of blanks. -/
theorem parse_textwise :
    (∀ text failure, (Source.mk (Text.encode text) failure).parse
        = answerLines (textLines text failure) failure)
      ∧ (∀ before comment comment' after failure, lineFeed ∉ comment → lineFeed ∉ comment' →
        (Source.mk (before ++ commentByte :: comment ++ after) failure).parse
          = (Source.mk (before ++ commentByte :: comment' ++ after) failure).parse)
      ∧ (∀ before line after blank failure, LineBetween before line after →
        (∀ text, Text.encode text ≠ line.takeWhile (· ≠ commentByte)) →
        LineBetween before (Text.encode blank) after → (∀ c ∈ blank, Text.isBlank c = true) →
        (Source.mk (before ++ line ++ after) failure).parse
          = (Source.mk (before ++ Text.encode blank ++ after) failure).parse)
      ∧ ∀ line, significant (significant line) = significant line
        ∧ classify (significant line) = classify line
        ∧ significant (line ++ ['\r']) = significant line := by
  refine ⟨fun text failure => (answers_answerLines _ _).parse_eq (readAs_encode text failure),
    fun before _ _ after failure h h' => parse_comment h h' before after failure,
    fun before line after blank failure h htext hb hblank => ?_, fun line =>
      ⟨significant_significant line, classify_significant line,
        significant_append_blanks line (by simp; decide)⟩⟩
  exact parse_line h hb ((counted?_of_no_text htext).trans (counted?_encode_blanks hblank).symm)
    failure

/-- Bytes that belong to no character, in a comment and in place of a literal. -/
theorem parse_textwise_damaged :
    (Source.mk (Text.encode "1 ".toList ++ commentByte :: [0xE9] ++ [lineFeed]) none).parse
        = .ok ⟨#[1], by decide⟩
      ∧ (Source.mk (Text.encode "1\n".toList ++ [0xFF, commentByte] ++ Text.encode "\n10".toList)
          none).parse = .ok ⟨#[1, 2], by decide⟩ := by
  obtain ⟨-, hcomment, hline, -⟩ := parse_textwise
  have hno : ∀ text, Text.encode text ≠ [0xFF, commentByte].takeWhile (· ≠ commentByte) := by
    intro text h
    have hsome := Text.decode?_encode text
    rw [h] at hsome
    cases hsome
  have hstart : ∀ b ∈ (Text.encode "1\n".toList).getLast?, b = lineFeed :=
    fun b hb => Option.some.inj (hb.symm.trans rfl)
  have hstop : ∀ b ∈ (Text.encode "\n10".toList).head?, b = lineFeed :=
    fun b hb => Option.some.inj (hb.symm.trans rfl)
  constructor
  · exact (hcomment _ _ [] _ none (by decide) (by decide)).trans rfl
  · exact (hline _ _ _ ['\t'] none ⟨hstart, by decide, hstop⟩ hno ⟨hstart, by decide, hstop⟩
      (by simp; decide)).trans rfl

end Source

end LS8
