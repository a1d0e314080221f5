import LS8.Proofs.Json.Layout
import LS8.Proofs.Statement
import LS8.Stats
import Mathlib.Data.List.Perm.Basic

/-!
# Counting, and the report of the counters

Recording instructions one after the other counts each of them, so the counters are those of the
multiset of what was recorded: the order has no part in them (`recorded_perm`).

The report is a JSON text. Whatever was counted, it is read back as the object of the counters
(`parse?_toJson`), in which the instructions counted at least once follow each other in the order of
their mnemonics (`entries_sorted`). So reports are equal for equal counters only.
-/

namespace LS8

theorem Mix.eq_of_get_eq {m n : Mix} (h : ∀ i, m.get i = n.get i) : m = n := by
  obtain ⟨_, _, _, _, _, _, _, _, _⟩ := m
  obtain ⟨_, _, _, _, _, _, _, _, _⟩ := n
  rw [mk.injEq]
  exact ⟨h .ldi, h .prn, h .hlt, h .add, h .mul, h .push, h .pop, h .call, h .ret⟩

namespace Stats

open Json (Value IsBlank Layout)

/-! ## Counting -/

/-- The counters after these instructions were recorded. -/
def recorded (l : List Instruction) : Stats :=
  l.foldl record {}

theorem count_foldl_record (l : List Instruction) (s : Stats) (i : Instruction) :
    (l.foldl record s).count i = s.count i + l.count i := by
  induction l generalizing s with
  | nil => rfl
  | cons j l ih =>
    rw [List.foldl_cons, ih, count_record, List.count_cons]
    simp only [beq_iff_eq]
    omega

theorem retired_foldl_record (l : List Instruction) (s : Stats) :
    (l.foldl record s).retired = s.retired + l.length := by
  induction l generalizing s with
  | nil => rfl
  | cons j l ih =>
    rw [List.foldl_cons, ih, List.length_cons]
    simp only [record]
    omega

theorem count_recorded (l : List Instruction) (i : Instruction) :
    (recorded l).count i = l.count i := by
  have hzero : ({} : Stats).count i = 0 := by cases i <;> rfl
  rw [recorded, count_foldl_record, hzero, Nat.zero_add]

theorem retired_recorded (l : List Instruction) : (recorded l).retired = l.length := by
  rw [recorded, retired_foldl_record]
  exact Nat.zero_add _

theorem record_comm (s : Stats) (i j : Instruction) :
    (s.record i).record j = (s.record j).record i := by
  cases i <;> cases j <;> rfl

theorem recorded_perm {l l' : List Instruction} (h : l.Perm l') : recorded l = recorded l' :=
  h.foldl_eq' (fun i _ j _ s => record_comm s i j) {}

/-! ## The instructions of the report -/

theorem mem_reportOrder (i : Instruction) : i ∈ reportOrder := by
  cases i <;> decide

/-- The report lists exactly the instructions that were counted. -/
theorem mem_entries_iff {s : Stats} {i : Instruction} {n : ℕ} :
    (i, n) ∈ s.entries ↔ s.count i = n ∧ n ≠ 0 := by
  simp [entries, mem_reportOrder]

theorem entries_sorted (s : Stats) :
    (s.entries.map fun e => e.1.mnemonic).Pairwise (· < ·) := by
  have horder : (reportOrder.map Instruction.mnemonic).Pairwise (· < ·) := by decide
  have hsub : (s.entries.map Prod.fst).Sublist reportOrder := by
    have hfilter := (List.filter_sublist (l := reportOrder.map fun i => (i, s.count i))
      (p := fun e => e.2 ≠ 0)).map Prod.fst
    rwa [List.map_map, List.map_id''] at hfilter
    exact fun _ => rfl
  have hnames := hsub.map Instruction.mnemonic
  rw [List.map_map] at hnames
  exact horder.sublist hnames

theorem count_eq_of_entries_eq {s t : Stats} (h : s.entries = t.entries) (i : Instruction) :
    s.count i = t.count i := by
  by_cases hs : s.count i = 0
  · by_contra hne
    have hmem : (i, t.count i) ∈ s.entries := h ▸ mem_entries_iff.2 ⟨rfl, by omega⟩
    exact hne (mem_entries_iff.1 hmem).1
  · have hmem : (i, s.count i) ∈ t.entries := h ▸ mem_entries_iff.2 ⟨rfl, hs⟩
    exact (mem_entries_iff.1 hmem).1.symm

/-! ## The report as a value -/

/-- A number as the report gives it. -/
def numberValue (n : ℕ) : Value :=
  .number (Nat.toDigits 10 n)

def mixValue (s : Stats) : Value :=
  .object (s.entries.map fun e => (.plain e.1.mnemonic.toList, numberValue e.2))

/-- The value that the report spells. -/
def toValue (s : Stats) : Value :=
  .object
    [(.plain "steps".toList, numberValue s.steps),
     (.plain "instructions_retired".toList, numberValue s.retired),
     (.plain "instruction_mix".toList, s.mixValue),
     (.plain "values_emitted".toList, numberValue s.emitted),
     (.plain "unknown_skipped".toList, numberValue s.skipped)]

theorem layout_numberValue (n : ℕ) :
    Layout (numberValue n).tokens (Numeral.decimal n).toList :=
  Json.layout_token (Json.spells_decimal n)

theorem layout_member {name : String} {v : Value} {text : String}
    (hname : name.toList.all Json.isPlain = true) (h : Layout v.tokens text.toList) :
    Layout (.string (.plain name.toList) :: .colon :: v.tokens) (member name text).toList := by
  have hblank : IsBlank [' '] := by simp [IsBlank, Json.spaces]
  have htext : (member name text).toList
      = '"' :: (name.toList ++ ['"']) ++ (':' :: ([' '] ++ text.toList)) := by
    unfold member
    simp [String.toList_append]
  rw [htext]
  exact Value.layout_member hname hblank h

theorem mixJson_of_entries {s : Stats} (h : s.entries ≠ []) :
    s.mixJson = "\x7b\n    " ++ String.intercalate ",\n    "
      (s.entries.map fun e => member e.1.mnemonic (Numeral.decimal e.2)) ++ "\n  \x7d" := by
  unfold mixJson
  split
  next hnone => exact absurd hnone h
  next => rfl

theorem layout_mixValue (s : Stats) : Layout s.mixValue.tokens s.mixJson.toList := by
  by_cases h : s.entries = []
  · unfold mixJson mixValue
    rw [h]
    exact .cons .openBrace (Json.layout_token .closeBrace)
  · have hdeep : IsBlank ['\n', ' ', ' ', ' ', ' '] := by simp [IsBlank, Json.spaces]
    have hback : IsBlank ['\n', ' ', ' '] := by simp [IsBlank, Json.spaces]
    have hname : ∀ i : Instruction, i.mnemonic.toList.all Json.isPlain = true := by
      intro i
      cases i <;> rfl
    have hmembers : List.Forall₂
        (fun (m : Json.Quoted × Value) text => Layout (.string m.1 :: .colon :: m.2.tokens) text)
        (s.entries.map fun e => (.plain e.1.mnemonic.toList, numberValue e.2))
        ((s.entries.map fun e => member e.1.mnemonic (Numeral.decimal e.2)).map String.toList) := by
      rw [List.map_map, List.forall₂_map_left_iff, List.forall₂_map_right_iff]
      exact List.forall₂_same.2 fun e _ => layout_member (hname e.1) (layout_numberValue e.2)
    rw [mixJson_of_entries h, String.toList_append, String.toList_append,
      String.toList_intercalate]
    exact Value.layout_object hdeep hdeep hback hmembers

theorem layout_toValue (s : Stats) : Layout s.toValue.tokens s.toJson.toList := by
  have htwo : IsBlank ['\n', ' ', ' '] := by simp [IsBlank, Json.spaces]
  have hone : IsBlank ['\n'] := by simp [IsBlank, Json.spaces]
  unfold toJson
  rw [String.toList_append, String.toList_append, String.toList_intercalate]
  exact Value.layout_object htwo htwo hone <|
    .cons (layout_member rfl (layout_numberValue _)) <|
    .cons (layout_member rfl (layout_numberValue _)) <|
    .cons (layout_member rfl s.layout_mixValue) <|
    .cons (layout_member rfl (layout_numberValue _)) <|
    .cons (layout_member rfl (layout_numberValue _)) .nil

/-- The report is read back as the counters. -/
theorem parse?_toJson (s : Stats) : Value.parse? s.toJson.toList = some s.toValue :=
  Value.parse?_of_layout s.layout_toValue

/-! ## What the report tells -/

theorem numberValue_injective : Function.Injective numberValue := by
  intro m n h
  have hdigits := Value.number.inj h
  rw [← (Numeral.isDecimal_toDigits m).value, hdigits, (Numeral.isDecimal_toDigits n).value]

theorem entries_eq_of_mixValue_eq {s t : Stats} (h : s.mixValue = t.mixValue) :
    s.entries = t.entries := by
  refine List.map_injective_iff.2 ?_ (Value.object.inj h)
  rintro ⟨i, m⟩ ⟨j, n⟩ hentry
  obtain ⟨hname, hnumber⟩ := Prod.mk.inj hentry
  have hplain : Function.Injective Json.Quoted.plain :=
    List.map_injective_iff.2 fun _ _ => Json.Element.char.inj
  have hmnemonic : i.mnemonic = j.mnemonic := String.toList_inj.1 (hplain hname)
  have hinstruction : some i = some j := by
    rw [← i.ofMnemonic?_mnemonic, hmnemonic, j.ofMnemonic?_mnemonic]
  exact Prod.ext (Option.some_inj.1 hinstruction) (numberValue_injective hnumber)

theorem eq_of_counters_eq {s t : Stats} (hsteps : s.steps = t.steps)
    (hretired : s.retired = t.retired) (hcount : ∀ i, s.count i = t.count i)
    (hemitted : s.emitted = t.emitted) (hskipped : s.skipped = t.skipped) : s = t := by
  obtain ⟨_, _, _, _, _⟩ := s
  obtain ⟨_, _, _, _, _⟩ := t
  rw [mk.injEq]
  exact ⟨hsteps, hretired, Mix.eq_of_get_eq hcount, hemitted, hskipped⟩

theorem toValue_injective : Function.Injective toValue := by
  intro s t h
  have hmembers := Value.object.inj h
  simp only [List.cons.injEq, Prod.mk.injEq, true_and, and_true] at hmembers
  obtain ⟨hsteps, hretired, hmix, hemitted, hskipped⟩ := hmembers
  exact eq_of_counters_eq (numberValue_injective hsteps) (numberValue_injective hretired)
    (count_eq_of_entries_eq (entries_eq_of_mixValue_eq hmix)) (numberValue_injective hemitted)
    (numberValue_injective hskipped)

/-- No two counters have the same report. -/
theorem toJson_injective : Function.Injective toJson := by
  intro s t h
  have hvalue : some s.toValue = some t.toValue := by
    rw [← parse?_toJson, ← parse?_toJson, h]
  exact toValue_injective (Option.some_inj.1 hvalue)

/-- What was recorded is counted, whatever the order, and fits where the number of instructions
does. Any two counters, however they came about, have the same report if and only if all of them are
the same. -/
theorem report_shows_counters :
    (∀ l i, (recorded l).count i = l.count i)
      ∧ (∀ l, (recorded l).retired = l.length)
      ∧ (∀ l i, (recorded l).count i ≤ (recorded l).retired)
      ∧ (∀ l l', l.Perm l' → recorded l = recorded l' ∧ (recorded l).toJson = (recorded l').toJson)
      ∧ ∀ s t : Stats, s.toJson = t.toJson ↔ s.steps = t.steps ∧ s.retired = t.retired
        ∧ (∀ i, s.count i = t.count i) ∧ s.emitted = t.emitted ∧ s.skipped = t.skipped := by
  refine ⟨count_recorded, retired_recorded, fun l i => ?_, fun l l' h => ?_, fun s t => ?_⟩
  · rw [count_recorded, retired_recorded]
    exact List.count_le_length
  · exact ⟨recorded_perm h, congrArg toJson (recorded_perm h)⟩
  · constructor
    · intro h
      rw [toJson_injective h]
      exact ⟨rfl, rfl, fun _ => rfl, rfl, rfl⟩
    · rintro ⟨hsteps, hretired, hcount, hemitted, hskipped⟩
      rw [eq_of_counters_eq hsteps hretired hcount hemitted hskipped]

/-- The counters of a list and of the list reversed, and a report in which one more step shows. -/
theorem report_shows_counters_reversed :
    List.Perm [.push, .ldi, .push, .hlt] [Instruction.hlt, .push, .ldi, .push]
      ∧ recorded [.push, .ldi, .push, .hlt] = recorded [.hlt, .push, .ldi, .push]
      ∧ (recorded [.push, .ldi, .push, .hlt]).count .push = 2
      ∧ ({ recorded [] with steps := 18446744073709551615 } : Stats).toJson
        ≠ ({ recorded [] with steps := 18446744073709551614 } : Stats).toJson := by
  obtain ⟨hcount, -, -, hperm, hreport⟩ := report_shows_counters
  have hreversed : List.Perm [.push, .ldi, .push, .hlt] [Instruction.hlt, .push, .ldi, .push] :=
    (List.reverse_perm [Instruction.push, .ldi, .push, .hlt]).symm
  refine ⟨hreversed, (hperm _ _ hreversed).1, hcount _ _, fun hsame => ?_⟩
  exact absurd ((hreport _ _).1 hsame).1 (by decide)

end Stats

end LS8
