import LS8.Proofs.Delivery
import Mathlib.Algebra.BigOperators.Group.Finset.Basic

/-!
# One value after the other on a limited writer

Values may be handed to a console one after the other although some of them were refused. Then two
limits run out apart from each other. What the writer has taken is always as much of the lines as
fits (`Spent`), so the sum of their lengths says whether the next line is complete; the flushes left
are known as long as all lines are, because only a complete line is flushed. From these two follow
the answer to every value and the bytes written after it (`answers_on_limited_writer`).
-/

namespace LS8

/-- A beginning of a text in ASCII has a byte for each of its characters. -/
theorem Text.encode_take_of_ascii {text : List Char} (h : ∀ c ∈ text, c.val ≤ 127) (n : ℕ) :
    encode (text.take n) = (encode text).take n := by
  by_cases hn : text.length ≤ n
  · have hbytes : (encode text).length ≤ n := by rwa [length_encode_of_ascii h]
    rw [List.take_of_length_le hn, List.take_of_length_le hbytes]
  · have hlength : (encode (text.take n)).length = n := by
      rw [length_encode_of_ascii fun c hc => h c (List.mem_of_mem_take hc), List.length_take]
      omega
    have hsplit : encode text = encode (text.take n) ++ encode (text.drop n) := by
      rw [← encode_append, List.take_append_drop]
    rw [hsplit, List.take_left' hlength]

namespace Console

/-- The bytes that the writer has taken. -/
def bytes (c : Console) : List UInt8 :=
  Text.encode c.text.toList

/-- The console after the first values of a sequence, whatever came of them. -/
def received (c : Console) (v : ℕ → UInt8) : ℕ → Console
  | 0 => c
  | i + 1 => (emit (v i) (c.received v i)).2

/-- What comes of the value at position `i` of a sequence. -/
def answer (c : Console) (v : ℕ → UInt8) (i : ℕ) : Except IoError Unit :=
  (emit (v i) (c.received v i)).1

/-- The number of bytes in the lines of the first values of a sequence. -/
def lineBytes (v : ℕ → UInt8) (n : ℕ) : ℕ :=
  ∑ i ∈ Finset.range n, (Text.encode (line (v i))).length

theorem ascii_of_mem_lines {values : List UInt8} {c : Char} (h : c ∈ lines values) :
    c.val ≤ 127 := by
  obtain ⟨v, -, hv⟩ := List.mem_flatMap.1 h
  exact ascii_of_mem_line hv

theorem length_line_pos (v : UInt8) : 0 < (line v).length := by
  rw [line, List.length_append]
  exact Nat.succ_pos _

theorem lineBytes_eq (v : ℕ → UInt8) (n : ℕ) :
    lineBytes v n = (lines ((List.range n).map v)).length := by
  induction n with
  | zero => rfl
  | succ n ih =>
    have hline : (Text.encode (line (v n))).length = (line (v n)).length :=
      Text.length_encode_of_ascii fun _ => ascii_of_mem_line
    rw [lineBytes, Finset.sum_range_succ, ← lineBytes, ih, hline, List.range_succ, List.map_append,
      List.map_singleton, lines_concat, List.length_append]

/-- The lines of the values were handed to the console when it was limited so at first. -/
structure Spent (cap flushes : ℕ) (values : List UInt8) (c : Console) : Prop where
  text : c.text.toList = (lines values).take cap
  room : c.room = some (cap - (lines values).length)
  /-- Some flushes are left, and as long as every line was complete, one less for each. -/
  flushes : ∃ left, c.flushes = some left
    ∧ ((lines values).length ≤ cap → left = flushes - values.length)

variable {cap flushes : ℕ} {values : List UInt8} {c : Console}

theorem spent_limited (cap flushes : ℕ) : Spent cap flushes [] (limited cap flushes) where
  text := List.take_nil.symm
  room := rfl
  flushes := ⟨flushes, rfl, fun _ => rfl⟩

/-- The answer to one more value is decided by what is left, and then it is among those spent. -/
theorem Spent.emit (h : c.Spent cap flushes values) (v : UInt8) :
    (emit v c).1 = (if cap < (lines (values ++ [v])).length then .error .full
        else if values.length < flushes then .ok () else .error (.device "flush refused"))
      ∧ (emit v c).2.Spent cap flushes (values ++ [v]) := by
  obtain ⟨text, _, _⟩ := c
  obtain ⟨htext, rfl, left, rfl, hleft⟩ := h
  have hline := length_line_pos v
  have hlength : (lines (values ++ [v])).length = (lines values).length + (line v).length := by
    rw [lines_concat, List.length_append]
  have hmore : (text ++ String.ofList ((line v).take (cap - (lines values).length))).toList
      = (lines (values ++ [v])).take cap := by
    rw [lines_concat, List.take_append, String.toList_append, String.toList_ofList, htext]
  cases emitCase v text (cap - (lines values).length) left with
  | out fits flushed eq =>
    have hwhole := hleft (by omega)
    rw [List.take_of_length_le fits] at hmore
    rw [eq, if_neg (by omega), if_pos (by omega)]
    refine ⟨rfl, hmore, congrArg some (by omega), _, rfl, fun _ => ?_⟩
    rw [List.length_append, List.length_singleton]
    omega
  | unflushed fits spent eq =>
    have hwhole := hleft (by omega)
    rw [List.take_of_length_le fits] at hmore
    rw [eq, if_neg (by omega), if_neg (by omega)]
    refine ⟨rfl, hmore, congrArg some (by omega), _, rfl, fun _ => ?_⟩
    rw [List.length_append, List.length_singleton]
    omega
  | full short eq =>
    rw [eq, if_pos (by omega)]
    exact ⟨rfl, hmore, congrArg some (by omega), _, rfl, fun hfits => absurd hfits (by omega)⟩

theorem spent_received (cap flushes : ℕ) (v : ℕ → UInt8) (n : ℕ) :
    ((limited cap flushes).received v n).Spent cap flushes ((List.range n).map v) := by
  induction n with
  | zero => exact spent_limited cap flushes
  | succ n ih =>
    rw [List.range_succ, List.map_append, List.map_singleton]
    exact (ih.emit (v n)).2

theorem Spent.bytes_eq (h : c.Spent cap flushes values) :
    c.bytes = (Text.encode (lines values)).take (min (lines values).length cap) := by
  rw [bytes, h.text, Text.encode_take_of_ascii fun _ => ascii_of_mem_lines,
    ← Text.length_encode_of_ascii fun _ => ascii_of_mem_lines]
  exact List.take_eq_take_min.trans (by rw [Nat.min_comm])

theorem answer_limited (cap flushes : ℕ) (v : ℕ → UInt8) (i : ℕ) :
    (limited cap flushes).answer v i
      = if cap < lineBytes v (i + 1) then .error .full
        else if i < flushes then .ok () else .error (.device "flush refused") := by
  have hanswer := ((spent_received cap flushes v i).emit (v i)).1
  rw [← List.map_singleton, ← List.map_append, ← List.range_succ, ← lineBytes_eq, List.length_map,
    List.length_range] at hanswer
  exact hanswer

/-- The bytes written after a value are as many of those of the lines as fit. -/
theorem bytes_received (cap flushes : ℕ) (v : ℕ → UInt8) (n : ℕ) :
    ((limited cap flushes).received v n).bytes
      = (Text.encode (lines ((List.range n).map v))).take (min (lineBytes v n) cap) := by
  rw [lineBytes_eq]
  exact (spent_received cap flushes v n).bytes_eq

/-- A writer that is full takes nothing more. -/
theorem bytes_received_of_full {v : ℕ → UInt8} {n : ℕ} (h : cap ≤ lineBytes v n) (flushes k : ℕ) :
    ((limited cap flushes).received v (n + k)).bytes
      = ((limited cap flushes).received v n).bytes := by
  rw [lineBytes_eq] at h
  rw [bytes, bytes, (spent_received cap flushes v (n + k)).text,
    (spent_received cap flushes v n).text, List.range_add, List.map_append, lines_append,
    List.take_append_of_le_length h]

/-- A value is out if all lines so far fit and a flush is left. The writer is full as soon as they
do not fit, and before that every value past the flushes is refused, though its line is written.
The bytes written are as many of those of the lines as fit, and once these do not fit, always the
same. -/
theorem answers_on_limited_writer (cap flushes : ℕ) (v : ℕ → UInt8) (i : ℕ) :
    ((limited cap flushes).answer v i = .ok () ↔ lineBytes v (i + 1) ≤ cap ∧ i < flushes)
      ∧ ((∃ cause, (limited cap flushes).answer v i = .error cause
          ∧ cause.message = "failed to write whole buffer") ↔ cap < lineBytes v (i + 1))
      ∧ ((∃ cause, (limited cap flushes).answer v i = .error cause
          ∧ cause.message = "flush refused") ↔ lineBytes v (i + 1) ≤ cap ∧ flushes ≤ i)
      ∧ ((limited cap flushes).received v (i + 1)).bytes
        = (Text.encode (lines ((List.range (i + 1)).map v))).take (min (lineBytes v (i + 1)) cap)
      ∧ (cap < lineBytes v (i + 1) → ∀ k,
        ((limited cap flushes).received v (i + 1 + k)).bytes
          = ((limited cap flushes).received v (i + 1)).bytes) := by
  have hanswer := answer_limited cap flushes v i
  refine ⟨?_, ?_, ?_, bytes_received cap flushes v (i + 1),
    fun hfull => bytes_received_of_full (Nat.le_of_lt hfull) flushes⟩
  · rw [hanswer]
    split_ifs <;> simp <;> omega
  · rw [hanswer]
    split_ifs <;> simp [IoError.message] <;> omega
  · rw [hanswer]
    split_ifs <;> simp [IoError.message] <;> omega

/-- The first flush succeeds, the second is refused, and the writer is full inside the number of the
third value. -/
theorem answers_on_limited_writer_cutsNumber :
    6 < lineBytes (fun i => [5, 10, 200].getD i 0) 3
      ∧ (limited 6 1).answer (fun i => [5, 10, 200].getD i 0) 0 = .ok ()
      ∧ (∃ cause, (limited 6 1).answer (fun i => [5, 10, 200].getD i 0) 1 = .error cause
        ∧ cause.message = "flush refused")
      ∧ ((limited 6 1).received (fun i => [5, 10, 200].getD i 0) 3).bytes
        = Text.encode ['5', '\n', '1', '0', '\n', '2']
      ∧ ((limited 6 1).received (fun i => [5, 10, 200].getD i 0) 9).bytes
        = ((limited 6 1).received (fun i => [5, 10, 200].getD i 0) 3).bytes := by
  have hfits : lineBytes (fun i => [5, 10, 200].getD i 0) 2 ≤ 6 := by decide
  have hfull : 6 < lineBytes (fun i => [5, 10, 200].getD i 0) 3 := by decide
  obtain ⟨hout, -⟩ := answers_on_limited_writer 6 1 (fun i => [5, 10, 200].getD i 0) 0
  obtain ⟨-, -, hrefused, -⟩ := answers_on_limited_writer 6 1 (fun i => [5, 10, 200].getD i 0) 1
  obtain ⟨-, -, -, -, hkept⟩ := answers_on_limited_writer 6 1 (fun i => [5, 10, 200].getD i 0) 2
  exact ⟨hfull, hout.2 (by decide), hrefused.2 ⟨hfits, Nat.le_refl 1⟩, by decide, hkept hfull 6⟩

end Console

end LS8
