import LS8.Proofs.Mirror
import LS8.Proofs.Numeral
import LS8.Proofs.Refusal
import Mathlib.Data.List.Forall2
import Mathlib.Tactic.SplitIfs

/-!
# Values on a console

A console shows a value as its decimal numeral in a line of its own, without zeros in front, so a
text of such lines can be read back as the numbers it shows (`numbers?_lines`). On a writer of
limited means a value is out, or its line is there and was not flushed, or the writer is full after
a part of the line (`emitCase`).

A console that is not limited answers like a collector. So a machine that prints goes through the
same states as one whose values are collected, and at any time its console shows what the other one
has collected (`console_shows_collected`).
-/

namespace LS8

namespace Console

/-! ## Lines -/

/-- The lines of the values, one after the other. -/
def lines (values : List UInt8) : List Char :=
  values.flatMap line

/-- The numbers that a text shows, one in each line. There are none if a line is something else, or
if the last one has no end. -/
def numbers? (text : List Char) : Option (List ℕ) :=
  let parts := text.splitOn '\n'
  if parts.getLast? = some [] then parts.dropLast.mapM Numeral.ofDecimal? else none

@[simp] theorem lines_nil : lines [] = [] := rfl

theorem lines_cons (v : UInt8) (values : List UInt8) :
    lines (v :: values) = line v ++ lines values := rfl

theorem lines_append (l₁ l₂ : List UInt8) : lines (l₁ ++ l₂) = lines l₁ ++ lines l₂ :=
  List.flatMap_append

theorem lines_concat (values : List UInt8) (v : UInt8) :
    lines (values ++ [v]) = lines values ++ line v := by
  rw [lines_append, lines_cons, lines_nil, List.append_nil]

theorem lineFeed_not_mem_toDigits (n : ℕ) : '\n' ∉ Nat.toDigits 10 n := by
  intro h
  have hdigit := (Numeral.isDecimal_toDigits n).digit _ h
  revert hdigit
  decide

theorem splitOn_lines (values : List UInt8) :
    (lines values).splitOn '\n' = values.map (fun v => Nat.toDigits 10 v.toNat) ++ [[]] := by
  induction values with
  | nil => rfl
  | cons v values ih =>
    rw [lines_cons, line, List.append_assoc, List.singleton_append,
      List.splitOn_append_cons_self_of_not_mem (lineFeed_not_mem_toDigits v.toNat), ih,
      List.map_cons, List.cons_append]

theorem numbers?_lines (values : List UInt8) :
    numbers? (lines values) = some (values.map UInt8.toNat) := by
  have hread : ∀ values : List UInt8,
      (values.map fun v => Nat.toDigits 10 v.toNat).mapM Numeral.ofDecimal?
        = some (values.map UInt8.toNat) := by
    intro values
    induction values with
    | nil => rfl
    | cons v values ih => simp [Numeral.ofDecimal?_toDigits, ih]
  unfold numbers?
  simp [splitOn_lines, hread]

/-! ## A limited writer -/

/-- The ways in which a console takes a value when its writer has so much room left and completes so
many flushes more. -/
inductive EmitCase (v : UInt8) (text : String) (room flushes : ℕ) : Prop
  | out (fits : (line v).length ≤ room) (flushed : 0 < flushes)
      (eq : emit v ⟨text, some room, some flushes⟩ = (.ok (),
        ⟨text ++ String.ofList (line v), some (room - (line v).length), some (flushes - 1)⟩))
  | unflushed (fits : (line v).length ≤ room) (spent : flushes = 0)
      (eq : emit v ⟨text, some room, some flushes⟩ = (.error (.device "flush refused"),
        ⟨text ++ String.ofList (line v), some (room - (line v).length), some flushes⟩))
  | full (short : room < (line v).length)
      (eq : emit v ⟨text, some room, some flushes⟩ = (.error .full,
        ⟨text ++ String.ofList ((line v).take room), some 0, some flushes⟩))

theorem emitCase (v : UInt8) (text : String) (room flushes : ℕ) : EmitCase v text room flushes := by
  by_cases hroom : (line v).length ≤ room
  · by_cases hflush : flushes = 0
    · refine .unflushed hroom hflush ?_
      simp [emit, write, flush, spend, hroom, hflush, List.take_of_length_le]
    · refine .out hroom (by omega) ?_
      simp [emit, write, flush, spend, hroom, hflush, List.take_of_length_le]
  · refine .full (by omega) ?_
    have hshort : min room (line v).length ≠ (line v).length := by omega
    simp [emit, write, spend, hshort]
    omega

/-- What a console that is not limited does with a value. -/
theorem emit_unlimited (v : UInt8) {c : Console} (hroom : c.room = none)
    (hflushes : c.flushes = none) :
    emit v c = (.ok (), { c with text := c.text ++ String.ofList (line v) }) := by
  simp [emit, write, flush, spend, hroom, hflushes]

/-- The console is not limited, and shows the values collected. -/
structure Shows (sink : Collector) (c : Console) : Prop where
  room : c.room = none
  flushes : c.flushes = none
  text : c.text.toList = lines sink.values.toList

theorem answerAlike_shows : AnswerAlike Shows := by
  intro sink c h v
  have hemit : OutputSink.emit v c
      = (.ok (), { c with text := c.text ++ String.ofList (line v) }) :=
    emit_unlimited v h.room h.flushes
  rw [hemit]
  refine ⟨rfl, h.room, h.flushes, ?_⟩
  have hvalues : (OutputSink.emit v sink).2.values.toList = sink.values.toList ++ [v] :=
    Array.toList_push
  rw [hvalues, lines_concat, String.toList_append, String.toList_ofList, h.text]

end Console

namespace Machine

/-- A machine that prints on a console without limits takes the steps of the same machine with a
collector, and the console shows what has been collected, a decimal numeral in each line. -/
theorem console_shows_collected {a : Machine Collector} {b : Machine Console}
    (h : a.Mirrors Console.Shows b) (n : ℕ) :
    (a.after n).step.result = (b.after n).step.result
      ∧ (a.after n).unplugged = (b.after n).unplugged
      ∧ (∃ numerals, (b.after n).sink.text.toList = (numerals.map (· ++ ['\n'])).flatten
        ∧ List.Forall₂ Numeral.IsDecimal numerals
          ((a.after n).sink.values.toList.map UInt8.toNat))
      ∧ Console.numbers? (b.after n).sink.text.toList
        = some ((a.after n).sink.values.toList.map UInt8.toNat) := by
  obtain ⟨hmachine, hsinks⟩ := (h.after Console.answerAlike_shows n).1
  refine ⟨h.result Console.answerAlike_shows n, hmachine,
    ⟨(a.after n).sink.values.toList.map fun v => Nat.toDigits 10 v.toNat, ?_, ?_⟩, ?_⟩
  · rw [hsinks.text, List.map_map]
    exact List.flatMap_def
  · rw [List.forall₂_map_left_iff, List.forall₂_map_right_iff]
    exact List.forall₂_same.2 fun v _ => Numeral.isDecimal_toDigits v.toNat
  · rw [hsinks.text]
    exact Console.numbers?_lines _

theorem console_shows_collected_threePrints :
    (threePrints ({} : Collector)).Mirrors Console.Shows (threePrints ({} : Console))
      ∧ ((threePrints ({} : Collector)).after 6).sink.values.toList = [5, 10, 10]
      ∧ Console.numbers? ((threePrints ({} : Console)).after 6).sink.text.toList
        = some [5, 10, 10] := by
  have hmirrors : (threePrints ({} : Collector)).Mirrors Console.Shows
      (threePrints ({} : Console)) := ⟨rfl, rfl, rfl, rfl⟩
  obtain ⟨-, -, -, hnumbers⟩ := console_shows_collected hmirrors 6
  exact ⟨hmirrors, rfl, hnumbers⟩

end Machine

end LS8
