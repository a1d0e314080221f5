import LS8.Loading
import LS8.Proofs.Literal
import LS8.Proofs.Parse

/-!
# Dumps and sources

A dump of memory is program text: laid out in lines, with any mixture of the two line ends and with
or without one behind the last line, it parses to the cells that were dumped. The other way round, a
source that was loaded is dumped as its own literals, each filled up to eight digits, so parsing the
dump gives the same image again (`dump_parses_back`).
-/

namespace LS8

open SourceLine

/-! ## Text in lines -/

inductive LineEnd where
  | lf
  | crlf

def LineEnd.text : LineEnd → String
  | .lf => "\n"
  | .crlf => "\r\n"

/-- The text is the lines in their order, each with a line end of its own; the last may lack it. -/
inductive LaidOut : List String → String → Prop
  | nil : LaidOut [] ""
  | last (line : String) : LaidOut [line] line
  | line {lines : List String} {text : String} (line : String) (e : LineEnd)
      (rest : LaidOut lines text) : LaidOut (line :: lines) (line ++ e.text ++ text)

theorem LineEnd.exists_blanks (e : LineEnd) :
    ∃ after, (∀ c ∈ after, c = '\r') ∧ e.text.toList = after ++ ['\n'] := by
  cases e with
  | lf => exact ⟨[], by simp, rfl⟩
  | crlf => exact ⟨['\r'], by simp, rfl⟩

/-- The bytes of a written literal and the blanks behind it. -/
theorem byte_of_mem_encode {text : List Char} (h : ∀ c ∈ text, isBit c = true ∨ c = '\r') {b : UInt8}
    (hb : b ∈ Text.encode text) : b = 48 ∨ b = 49 ∨ b = 13 := by
  obtain ⟨c, hc, hb⟩ := List.mem_flatMap.1 hb
  rcases h c hc with hbit | rfl
  · rcases isBit_iff.1 hbit with rfl | rfl
    · exact .inl (List.mem_singleton.1 hb)
    · exact .inr (.inl (List.mem_singleton.1 hb))
  · exact .inr (.inr (List.mem_singleton.1 hb))

theorem written_line (v : UInt8) {after : List Char} (hafter : ∀ c ∈ after, c = '\r') :
    StandsFor (Text.encode ((Numeral.binaryLiteral v).toList ++ after)) (.byte v)
      ∧ Source.lineFeed ∉ Text.encode ((Numeral.binaryLiteral v).toList ++ after) := by
  have hchars : ∀ c ∈ (Numeral.binaryLiteral v).toList ++ after, isBit c = true ∨ c = '\r' := by
    intro c hc
    rcases List.mem_append.1 hc with hc | hc
    · unfold Numeral.binaryLiteral at hc
      rw [String.toList_ofList] at hc
      exact .inl (isBit_of_mem_padded hc)
    · exact .inr (hafter c hc)
  refine ⟨?_, fun hlf => ?_⟩
  · have hclass : classify ((Numeral.binaryLiteral v).toList ++ after) = .byte v := by
      refine classify_binaryLiteral v fun c hc => ?_
      rw [hafter c hc]
      decide
    rw [← hclass]
    refine .text ⟨[], (List.append_nil _).symm, fun hmark => ?_, by simp⟩
    rcases byte_of_mem_encode hchars hmark with h | h | h <;> cases h
  · rcases byte_of_mem_encode hchars hlf with h | h | h <;> cases h

theorem LaidOut.cut {lines : List String} {text : String} (h : LaidOut lines text) :
    ∀ {values : List UInt8}, lines = values.map Numeral.binaryLiteral →
      ∃ complete rest, Source.CutInto (Text.encode text.toList) complete rest
        ∧ List.Forall₂ StandsFor (complete ++ if rest ≠ [] then [rest] else [])
          (values.map .byte) := by
  induction h with
  | nil =>
    intro values hvalues
    obtain rfl : values = [] := List.map_eq_nil_iff.1 hvalues.symm
    exact ⟨[], [], ⟨rfl, by simp, by simp⟩, .nil⟩
  | last line =>
    intro values hvalues
    obtain ⟨v, rfl, rfl⟩ := List.map_eq_singleton_iff.1 hvalues.symm
    have hblank : ∀ c ∈ ([] : List Char), c = '\r' := by simp
    obtain ⟨hstands, hlf⟩ := written_line v hblank
    rw [List.append_nil] at hstands hlf
    have hne : Text.encode (Numeral.binaryLiteral v).toList ≠ [] := by
      intro hnil
      have htext : HasText [] [] := ⟨[], rfl, by simp [Text.encode], by simp⟩
      have hskip : StandsFor [] .skip := .text htext
      rw [hnil] at hstands
      cases standsFor_unique hstands hskip
    refine ⟨[], Text.encode (Numeral.binaryLiteral v).toList, ⟨by simp, by simp, hlf⟩, ?_⟩
    rw [if_pos hne]
    exact .cons hstands .nil
  | @line lines text line e _ ih =>
    intro values hvalues
    obtain ⟨v, values, rfl, rfl, hlines⟩ := List.map_eq_cons_iff.1 hvalues.symm
    obtain ⟨complete, rest, hcut, hstand⟩ := ih hlines.symm
    obtain ⟨after, hafter, htext⟩ := e.exists_blanks
    obtain ⟨hstands, hlf⟩ := written_line v hafter
    have hlf' : Text.encode ['\n'] = [Source.lineFeed] := rfl
    have hbytes : Text.encode (Numeral.binaryLiteral v ++ e.text ++ text).toList
        = Text.encode ((Numeral.binaryLiteral v).toList ++ after) ++ [Source.lineFeed]
          ++ Text.encode text.toList := by
      rw [String.toList_append, String.toList_append, htext, Text.encode_append,
        ← List.append_assoc, Text.encode_append, hlf']
    refine ⟨_ :: complete, rest, ⟨?_, List.forall_mem_cons.2 ⟨hlf, hcut.complete⟩, hcut.rest⟩,
      .cons hstands hstand⟩
    rw [hbytes, hcut.bytes, List.map_cons, List.flatten_cons, ← List.append_assoc]

theorem parse_laidOut {values : List UInt8} {text : String}
    (h : LaidOut (values.map Numeral.binaryLiteral) text) {image : Image}
    (himage : image.bytes.toList = values) :
    (Source.mk (Text.encode text.toList) none).parse = .ok image := by
  obtain ⟨complete, rest, hcut, hstand⟩ := h.cut rfl
  have hread : (Source.mk (Text.encode text.toList) none).ReadAs
      (complete ++ if rest ≠ [] then [rest] else []) (values.map .byte) :=
    ⟨⟨complete, rest, hcut, by simp⟩, hstand⟩
  refine Source.Answers.parse_eq hread (.image (by simp) rfl ?_)
  rw [himage, List.filterMap_map]
  exact (List.filterMap_some).symm

/-! ## Literals of a source -/

/-- The literal of a line, if its text is one. -/
def SourceLine.literal? (raw : List UInt8) : Option (List Char) :=
  ((code? raw).map significant).filter isLiteral

def Source.literals (source : Source) : List (List Char) :=
  source.lines.filterMap literal?

theorem normalized_literal? {raw : List UInt8} {k : SourceLine} (h : StandsFor raw k)
    (hfits : k ≠ .tooWide) :
    (literal? raw).map normalized = k.value?.map Numeral.binaryLiteral := by
  unfold literal?
  cases h with
  | @text t ht =>
    rw [code?_eq_some_iff.2 ht, Option.map_some]
    rcases hliteral : isLiteral (significant t) with _ | _
    · rw [classify_of_not_isLiteral hliteral, Option.filter_some_neg (by simp [hliteral])]
      rfl
    · rw [classify_of_isLiteral hliteral] at hfits ⊢
      rw [Option.filter_some_pos (by simp [hliteral])]
      split_ifs at hfits ⊢ with hlen
      · exact absurd rfl hfits
      · have hbits : ∀ c ∈ significant t, isBit c = true := by
          unfold isLiteral at hliteral
          simp only [Bool.and_eq_true, List.all_eq_true] at hliteral
          exact hliteral.2
        exact congrArg some (binaryLiteral_valueOfBits hbits (Nat.le_of_not_lt hlen)).symm
  | noText hno =>
    rw [code?_eq_none_iff.2 hno]
    rfl

theorem normalized_literals {lines : List (List UInt8)} {kinds : List SourceLine}
    (h : List.Forall₂ StandsFor lines kinds) (hfits : .tooWide ∉ kinds) :
    (lines.filterMap literal?).map normalized
      = (kinds.filterMap value?).map Numeral.binaryLiteral := by
  rw [List.map_filterMap, List.map_filterMap]
  induction h with
  | nil => rfl
  | cons hk _ ih =>
    rw [List.mem_cons, not_or] at hfits
    rw [List.filterMap_cons, List.filterMap_cons, normalized_literal? hk (Ne.symm hfits.1),
      ih hfits.2]

/-! ## Memory -/

theorem toList_load (m : Memory) (image : Image) :
    (m.load image).toList = image.bytes.toList ++ m.toList.drop image.bytes.size := by
  have hsize := image.size_le
  refine List.ext_getElem? fun i => ?_
  by_cases hi : i < memorySize
  · obtain ⟨a, rfl⟩ : ∃ a : UInt8, a.toNat = i := ⟨UInt8.ofNat i, UInt8.toNat_ofNat_of_lt' hi⟩
    rw [Memory.getElem?_toList, Memory.read_load, Array.getD_eq_getD_getElem?, List.getElem?_append,
      Array.length_toList]
    split_ifs with hlt
    · rw [Array.getElem?_toList, Array.getElem?_eq_getElem hlt, Option.getD_some]
    · rw [Array.getElem?_eq_none (Nat.le_of_not_lt hlt), List.getElem?_drop,
        Nat.add_sub_cancel' (Nat.le_of_not_lt hlt), Memory.getElem?_toList, Option.getD_none]
  · rw [List.getElem?_eq_none, List.getElem?_eq_none]
    · rw [List.length_append, List.length_drop, Memory.length_toList, Array.length_toList]
      omega
    · rw [Memory.length_toList]
      omega

theorem dump_load (m : Memory) (image : Image) :
    (m.load image).dump image.bytes.size = image.bytes.toList.map Numeral.binaryLiteral := by
  unfold Memory.dump
  rw [toList_load, List.take_left' Array.length_toList]

/-- A dump is a source of the cells dumped, and the dump of a loaded source is its literals, written
in eight digits. -/
theorem dump_parses_back (m : Memory) :
    (∀ n text, LaidOut (m.dump n) text →
        ∃ image, (Source.mk (Text.encode text.toList) none).parse = .ok image
          ∧ image.bytes.toList = m.toList.take (min n memorySize))
      ∧ ∀ source image, source.parse = .ok image →
        (m.loadSource source).result = .ok image.bytes.size
          ∧ (m.loadSource source).target.dump image.bytes.size = source.literals.map normalized
          ∧ ∀ text, LaidOut ((m.loadSource source).target.dump image.bytes.size) text →
            (Source.mk (Text.encode text.toList) none).parse = .ok image := by
  refine ⟨fun n text h => ?_, fun source image hparse => ?_⟩
  · have htake : m.toList.take (min n memorySize) = m.toList.take n := by
      rw [← m.length_toList, ← List.take_eq_take_min]
    have hfits : (m.toList.take n).toArray.size ≤ memorySize := by
      rw [← m.length_toList]
      exact List.length_take_le' n m.toList
    exact ⟨⟨(m.toList.take n).toArray, hfits⟩, parse_laidOut h rfl, htake.symm⟩
  · have hload : m.loadSource source
        = ⟨.ok image.bytes.size, m.load image, [.loaded image.bytes.size]⟩ := by
      unfold Memory.loadSource
      rw [hparse]
    obtain ⟨lines, kinds, hread⟩ := source.exists_readAs
    obtain ⟨r, hanswer⟩ := Source.exists_answer hread
    rw [hanswer.parse_eq hread] at hparse
    subst hparse
    cases hanswer with
    | image fits ended values =>
      rw [hload, dump_load]
      refine ⟨rfl, ?_, fun text htext => parse_laidOut htext rfl⟩
      rw [values, Source.literals, ← hread.divided.eq]
      exact (normalized_literals hread.standing fits).symm

/-- A memory that starts with a load of the value five. -/
def loadFive : Memory :=
  (Memory.zero.write 0 0x82).write 2 5

/-- Two literals, one of them too short and one with zeros in front, among lines of other kinds. -/
def twoLiterals : Source where
  bytes := Text.encode " 10 # two\n\nLDI\r\n0000000011".toList

theorem dump_parses_back_loadFive :
    (∃ image, (Source.mk (Text.encode "10000010\r\n00000000\n00000101".toList) none).parse = .ok image
        ∧ image.bytes.toList = [0x82, 0, 5])
      ∧ ∃ image, twoLiterals.parse = .ok image
        ∧ (loadFive.loadSource twoLiterals).target.dump 2 = ["00000010", "00000011"]
        ∧ (Source.mk (Text.encode "00000010\n00000011\n".toList) none).parse = .ok image := by
  obtain ⟨hdump, hload⟩ := dump_parses_back loadFive
  have hthree : LaidOut (loadFive.dump 3) "10000010\r\n00000000\n00000101" :=
    .line "10000010" .crlf (.line "00000000" .lf (.last "00000101"))
  have hparse : twoLiterals.parse = .ok ⟨#[2, 3], by decide⟩ := rfl
  obtain ⟨-, hliterals, hagain⟩ := hload _ _ hparse
  have htwo : (loadFive.loadSource twoLiterals).target.dump 2 = ["00000010", "00000011"] :=
    hliterals.trans rfl
  refine ⟨hdump 3 _ hthree, _, hparse, htwo, hagain _ ?_⟩
  have hlaid : LaidOut ["00000010", "00000011"] "00000010\n00000011\n" :=
    .line "00000010" .lf (.line "00000011" .lf .nil)
  exact htwo ▸ hlaid

end LS8
