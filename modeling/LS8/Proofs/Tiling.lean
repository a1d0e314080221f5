import LS8.Proofs.Statement
import Mathlib.Logic.Function.Iterate
import Mathlib.Order.Monotone.Basic

/-!
# Listings cut bytes without gap or loss

A listing is made by a loop that goes from one address to the next, as far as the statement there
reaches, and ends behind the last byte (`scan_iff`). So its statements lie one behind the other from
address zero on, and only the last one may reach past the end of the bytes (`Tiled`). Where it does
not, whatever follows is listed as if it stood alone, but for the addresses (`lines_tile`).

The lines show all the bytes of their statements as far as there are any, and with them where the
next statement starts. So bytes that are listed alike are the same if they are equally many
(`eq_of_lines_eq`); without that, an operand at the end could be a zero or be missing.
-/

namespace LS8

namespace Listing

/-- Where the statement ends that starts at an address. -/
def next (bytes : List UInt8) (address : ℕ) : ℕ :=
  address + (statementAt bytes address).size

/-- The loop that makes a listing: it adds a line for the statement at an address and goes on where
that ends, for as long as there is a byte at the address. With the lines so far it comes to a
result, if it ends. -/
inductive Scan (bytes : List UInt8) : (address : ℕ) → (lines result : List String) → Prop
  | ends {address : ℕ} {lines : List String} (behind : bytes.length ≤ address) :
    Scan bytes address lines lines
  | goesOn {address : ℕ} {lines result : List String} (inside : address < bytes.length)
    (rest : Scan bytes (next bytes address)
      (lines ++ [line address (statementAt bytes address)]) result) :
    Scan bytes address lines result

/-- The address on line `k`. -/
def start (bytes : List UInt8) (k : ℕ) : ℕ :=
  (next bytes)^[k] 0

/-- The listing with all addresses raised. -/
def raised (offset : ℕ) (bytes : List UInt8) : List String :=
  (List.range (lines bytes).length).map fun k =>
    line (offset + start bytes k) (statementAt bytes (start bytes k))

/-- The text is an address, in two hexadecimal digits or more, and the statement behind it. -/
def Shows (text : String) (address : ℕ) (s : Statement) : Prop :=
  ∃ digits, text = "0x" ++ String.ofList digits ++ ": " ++ s.text ∧ 2 ≤ digits.length
    ∧ (∀ c ∈ digits, ∃ d < 16, c = d.digitChar) ∧ Numeral.valueOf 16 digits = address

/-- The first `count` statements take up all the bytes without a gap. Each starts within the bytes
and goes on to the next one, and nothing but the last one may reach up to two bytes too far. -/
structure Tiled (bytes : List UInt8) (count : ℕ) : Prop where
  first : start bytes 0 = 0
  increasing : ∀ k < count, start bytes k < start bytes (k + 1)
  inside : ∀ k < count, start bytes k < bytes.length
  covers : bytes.length ≤ start bytes count
  overshoot : start bytes count ≤ bytes.length + 2
  empty_iff : count = 0 ↔ bytes = []
  reports : ∀ k < count, start bytes (k + 1)
    = start bytes k + (statementAt bytes (start bytes k)).size
  undefined : ∀ k < count, Instruction.decode (bytes.getD (start bytes k) 0) = none →
    start bytes (k + 1) = start bytes k + 1
  defined : ∀ k < count, ∀ i, Instruction.decode (bytes.getD (start bytes k) 0) = some i →
    start bytes (k + 1)
      = start bytes k + (encodedLength (bytes.getD (start bytes k) 0)).toNat
  atMost : ∀ k < count, start bytes (k + 1) ≤ start bytes k + 3

variable {bytes : List UInt8}

/-! ## Starts -/

theorem start_succ (bytes : List UInt8) (k : ℕ) :
    start bytes (k + 1) = next bytes (start bytes k) :=
  Function.iterate_succ_apply' _ k 0

theorem lt_next (bytes : List UInt8) (address : ℕ) : address < next bytes address :=
  Nat.lt_add_of_pos_right (Statement.size_pos _)

theorem start_strictMono (bytes : List UInt8) : StrictMono (start bytes) :=
  strictMono_nat_of_lt_succ fun k => start_succ bytes k ▸ lt_next bytes _

theorem linesFrom_drop {address : ℕ} (offset : ℕ) (h : address < bytes.length) :
    linesFrom (offset + address) (bytes.drop address)
      = line (offset + address) (statementAt bytes address)
        :: linesFrom (offset + next bytes address) (bytes.drop (next bytes address)) := by
  have hne : bytes.drop address ≠ [] := by simpa using h
  rw [linesFrom_of_ne_nil _ hne, List.drop_drop, Nat.add_assoc]
  rfl

theorem linesFrom_drop_of_le {address : ℕ} (offset : ℕ) (h : bytes.length ≤ address) :
    linesFrom (offset + address) (bytes.drop address) = [] := by
  rw [List.drop_eq_nil_of_le h, linesFrom_nil]

/-- Without its first `k` lines, a listing goes on at the address on line `k`. -/
theorem drop_linesFrom (bytes : List UInt8) (offset : ℕ) : ∀ k ≤ (linesFrom offset bytes).length,
    (linesFrom offset bytes).drop k
      = linesFrom (offset + start bytes k) (bytes.drop (start bytes k))
  | 0, _ => rfl
  | k + 1, hk => by
    have ih := drop_linesFrom bytes offset k (by omega)
    by_cases hstart : start bytes k < bytes.length
    · rw [← List.tail_drop, ih, linesFrom_drop offset hstart, List.tail_cons, start_succ]
    · rw [linesFrom_drop_of_le offset (Nat.le_of_not_lt hstart), List.drop_eq_nil_iff] at ih
      omega

theorem start_lt {offset k : ℕ} (h : k < (linesFrom offset bytes).length) :
    start bytes k < bytes.length := by
  by_contra hle
  have hdrop := drop_linesFrom bytes offset k (Nat.le_of_lt h)
  rw [linesFrom_drop_of_le offset (Nat.le_of_not_lt hle), List.drop_eq_nil_iff] at hdrop
  omega

theorem length_le_start (bytes : List UInt8) (offset : ℕ) :
    bytes.length ≤ start bytes (linesFrom offset bytes).length := by
  have hdrop := drop_linesFrom bytes offset _ (Nat.le_refl _)
  by_contra hlt
  rw [List.drop_length, linesFrom_drop offset (Nat.lt_of_not_le hlt)] at hdrop
  cases hdrop

theorem getElem_linesFrom {offset k : ℕ} (h : k < (linesFrom offset bytes).length) :
    (linesFrom offset bytes)[k]
      = line (offset + start bytes k) (statementAt bytes (start bytes k)) := by
  have hdrop := drop_linesFrom bytes offset k (Nat.le_of_lt h)
  rw [linesFrom_drop offset (start_lt h), List.drop_eq_getElem_cons h] at hdrop
  exact (List.cons.inj hdrop).1

theorem length_linesFrom (bytes : List UInt8) (offset : ℕ) :
    (linesFrom offset bytes).length = (lines bytes).length := by
  have hcovers := length_le_start bytes offset
  have hcovers' : bytes.length ≤ start bytes (lines bytes).length := length_le_start bytes 0
  rcases Nat.lt_trichotomy (linesFrom offset bytes).length (lines bytes).length with h | h | h
  · have hinside := start_lt h
    omega
  · exact h
  · have hinside := start_lt h
    omega

theorem getElem_lines {k : ℕ} (h : k < (lines bytes).length) :
    (lines bytes)[k] = line (start bytes k) (statementAt bytes (start bytes k)) := by
  have hline : (lines bytes)[k] = _ := getElem_linesFrom h
  rwa [Nat.zero_add] at hline

theorem linesFrom_eq_raised (offset : ℕ) (bytes : List UInt8) :
    linesFrom offset bytes = raised offset bytes := by
  refine List.ext_getElem ?_ fun k hk _ => ?_
  · rw [raised, List.length_map, List.length_range, length_linesFrom]
  · rw [getElem_linesFrom hk]
    simp [raised]

/-! ## The loop -/

theorem scan_linesFrom (bytes : List UInt8) (address : ℕ) (lines : List String) :
    Scan bytes address lines (lines ++ linesFrom address (bytes.drop address)) := by
  by_cases h : address < bytes.length
  · have hdrop := linesFrom_drop 0 h
    rw [Nat.zero_add, Nat.zero_add] at hdrop
    have hlt := lt_next bytes address
    have hrest := scan_linesFrom bytes (next bytes address)
      (lines ++ [line address (statementAt bytes address)])
    rw [List.append_assoc] at hrest
    rw [hdrop]
    exact .goesOn h hrest
  · rw [List.drop_eq_nil_of_le (Nat.le_of_not_lt h), linesFrom_nil, List.append_nil]
    exact .ends (Nat.le_of_not_lt h)
termination_by bytes.length - address

theorem Scan.unique {address : ℕ} {lines result result' : List String}
    (h : Scan bytes address lines result) (h' : Scan bytes address lines result') :
    result = result' := by
  induction h with
  | ends behind =>
    cases h' with
    | ends _ => rfl
    | goesOn inside _ => omega
  | goesOn inside _ ih =>
    cases h' with
    | ends behind => omega
    | goesOn _ rest => exact ih rest

theorem scan_iff {result : List String} : Scan bytes 0 [] result ↔ result = lines bytes := by
  have hends : Scan bytes 0 [] (lines bytes) := scan_linesFrom bytes 0 []
  exact ⟨fun h => h.unique hends, fun h => h ▸ hends⟩

/-! ## Bytes behind bytes -/

theorem text_statementAt_append {address : ℕ} (more : List UInt8)
    (h : next bytes address ≤ bytes.length) :
    (statementAt bytes address).text = (statementAt (bytes ++ more) address).text := by
  refine Statement.text_ofBytes_eq_iff.2 fun k hk => ?_
  have hlt : address + k < bytes.length := Nat.lt_of_lt_of_le (Nat.add_lt_add_left hk _) h
  simp only [List.getD_eq_getElem?_getD, List.getElem?_drop, List.getElem?_append_left hlt]

theorem start_append {count : ℕ} (more : List UInt8) (h : start bytes count = bytes.length) :
    ∀ k ≤ count, start (bytes ++ more) k = start bytes k
  | 0, _ => rfl
  | k + 1, hk => by
    have hle := (start_strictMono bytes).monotone hk
    rw [h, start_succ] at hle
    rw [start_succ, start_succ, start_append more h k (Nat.le_of_succ_le hk), next, next,
      statementAt, statementAt, Statement.size_eq_of_text_eq (text_statementAt_append more hle)]

/-- Bytes behind a listing that ends where its bytes do are listed as if they stood alone, but for
their addresses. -/
theorem lines_append (more : List UInt8) (h : start bytes (lines bytes).length = bytes.length) :
    lines (bytes ++ more) = lines bytes ++ raised bytes.length more := by
  have hcount : (lines bytes).length ≤ (lines (bytes ++ more)).length := by
    by_contra hlt
    have hcovers : (bytes ++ more).length ≤ start (bytes ++ more) (lines (bytes ++ more)).length :=
      length_le_start _ 0
    rw [start_append more h _ (by omega), List.length_append] at hcovers
    have hinside := start_lt (Nat.lt_of_not_le hlt)
    omega
  have hrest := drop_linesFrom (bytes ++ more) 0 _ hcount
  rw [start_append more h _ (Nat.le_refl _), h, List.drop_left, Nat.zero_add,
    linesFrom_eq_raised bytes.length] at hrest
  have hfirst : (lines (bytes ++ more)).take (lines bytes).length = lines bytes := by
    refine List.ext_getElem (by rw [List.length_take, Nat.min_eq_left hcount]) fun k hk hk' => ?_
    have hend := (start_strictMono bytes).monotone hk'
    rw [h, Nat.succ_eq_add_one, start_succ] at hend
    rw [List.getElem_take, getElem_lines, getElem_lines hk',
      start_append more h k (Nat.le_of_lt hk'), line, line, ← text_statementAt_append more hend]
  rw [← List.take_append_drop (lines bytes).length (lines (bytes ++ more)), hfirst]
  exact congrArg _ hrest

/-! ## Tilings -/

theorem shows_line (address : ℕ) (s : Statement) : Shows (line address s) address s :=
  ⟨Numeral.padded 16 2 address, rfl, Numeral.le_length_padded 16 2 address,
    fun _ hc => Numeral.exists_digit_of_mem_padded (by decide) hc,
    Numeral.valueOf_padded (by decide) (by decide) 2 address⟩

theorem getD_drop (bytes : List UInt8) (address : ℕ) :
    (bytes.drop address).getD 0 0 = bytes.getD address 0 := by
  simp [List.getD_eq_getElem?_getD]

theorem next_of_undefined {address : ℕ} (h : Instruction.decode (bytes.getD address 0) = none) :
    next bytes address = address + 1 := by
  rw [next, statementAt, Statement.ofBytes_of_undefined (by rwa [getD_drop])]
  rfl

theorem next_of_decode {address : ℕ} {i : Instruction}
    (h : Instruction.decode (bytes.getD address 0) = some i) :
    next bytes address = address + (encodedLength (bytes.getD address 0)).toNat := by
  rw [next, statementAt, Statement.ofBytes_of_decode (by rwa [getD_drop]),
    ← Instruction.opcode_of_decode h]
  rfl

theorem next_le (bytes : List UInt8) (address : ℕ) : next bytes address ≤ address + 3 := by
  rcases hdec : Instruction.decode (bytes.getD address 0) with _ | i
  · rw [next_of_undefined hdec]
    omega
  · have hsize := i.toNat_size
    have hcount := i.operandCount_le
    rw [next_of_decode hdec, ← Instruction.opcode_of_decode hdec]
    change address + i.size.toNat ≤ address + 3
    omega

theorem tiled_lines (bytes : List UInt8) : Tiled bytes (lines bytes).length where
  first := rfl
  increasing k _ := start_strictMono bytes (Nat.lt_succ_self k)
  inside _ hk := start_lt hk
  covers := length_le_start bytes 0
  overshoot := by
    rcases hcount : (lines bytes).length with _ | k
    · exact Nat.zero_le _
    · have hk : k < (lines bytes).length := by omega
      have hlast := start_lt hk
      have hle := next_le bytes (start bytes k)
      rw [start_succ]
      omega
  empty_iff := by
    constructor
    · intro hcount
      have hcovers : bytes.length ≤ start bytes (lines bytes).length := length_le_start bytes 0
      rw [hcount] at hcovers
      exact List.length_eq_zero_iff.1 (Nat.le_zero.1 hcovers)
    · rintro rfl
      rw [lines, linesFrom_nil]
      rfl
  reports k _ := start_succ bytes k
  undefined k _ h := (start_succ bytes k).trans (next_of_undefined h)
  defined k _ _ h := (start_succ bytes k).trans (next_of_decode h)
  atMost k _ := start_succ bytes k ▸ next_le bytes _

/-- A listing ends, and its lines show statements that tile the bytes. Where the last one ends with
the bytes, more bytes behind them add their own listing with its addresses raised. -/
theorem lines_tile (bytes : List UInt8) :
    (∀ result, Scan bytes 0 [] result ↔ result = lines bytes)
      ∧ Tiled bytes (lines bytes).length
      ∧ lines bytes = raised 0 bytes
      ∧ (∀ k (h : k < (lines bytes).length),
        Shows (lines bytes)[k] (start bytes k) (statementAt bytes (start bytes k)))
      ∧ (start bytes (lines bytes).length = bytes.length → ∀ more : List UInt8,
        lines (bytes ++ more) = lines bytes ++ raised bytes.length more) := by
  refine ⟨fun _ => scan_iff, tiled_lines bytes, linesFrom_eq_raised 0 bytes, fun k h => ?_,
    fun h more => lines_append more h⟩
  rw [getElem_lines h]
  exact shows_line _ _

/-- A load that is cut off, behind a print. -/
theorem lines_tile_printsFirst :
    start [0x47, 0] (lines [0x47, 0]).length = 2
      ∧ raised 2 [0x82, 1] = ["0x02: LDI R1, 0x00"]
      ∧ lines ([0x47, 0] ++ [0x82, 1]) = ["0x00: PRN R0", "0x02: LDI R1, 0x00"] := by
  obtain ⟨-, -, -, -, happend⟩ := lines_tile [0x47, 0]
  have hend : start [0x47, 0] (lines [0x47, 0]).length = 2 := by decide +kernel
  have hraised : raised 2 [0x82, 1] = ["0x02: LDI R1, 0x00"] := by decide +kernel
  have hfirst : lines [0x47, 0] = ["0x00: PRN R0"] := by decide +kernel
  refine ⟨hend, hraised, (happend hend _).trans ?_⟩
  rw [hfirst]
  exact congrArg _ hraised

/-! ## Nothing is lost -/

/-- Equally many bytes that start with statements of the same text are the same as far as these
reach. -/
theorem take_eq_of_text_eq {l l' : List UInt8} (hlen : l.length = l'.length)
    (h : (Statement.ofBytes l).text = (Statement.ofBytes l').text) :
    l.take (Statement.ofBytes l).size = l'.take (Statement.ofBytes l).size := by
  refine List.ext_getElem (by rw [List.length_take, List.length_take, hlen]) fun k hk hk' => ?_
  rw [List.length_take] at hk hk'
  have hbyte := Statement.text_ofBytes_eq_iff.1 h k (by omega)
  rw [List.getElem_take, List.getElem_take]
  simpa [List.getD_eq_getElem?_getD, show k < l.length by omega, show k < l'.length by omega]
    using hbyte

theorem eq_of_linesFrom_eq (address : ℕ) (l l' : List UInt8) (hlen : l.length = l'.length)
    (h : linesFrom address l = linesFrom address l') : l = l' := by
  by_cases hl : l = []
  · subst hl
    exact (List.length_eq_zero_iff.1 hlen.symm).symm
  · have hl' : l' ≠ [] := by
      rintro rfl
      exact hl (List.length_eq_zero_iff.1 hlen)
    rw [linesFrom_of_ne_nil _ hl, linesFrom_of_ne_nil _ hl', List.cons.injEq] at h
    obtain ⟨hfirst, hrest⟩ := h
    have htext : (Statement.ofBytes l).text = (Statement.ofBytes l').text :=
      (String.append_right_inj _).1 hfirst
    have hsize := Statement.size_pos (Statement.ofBytes l)
    have hpos := List.length_pos_iff.2 hl
    rw [← Statement.size_eq_of_text_eq htext] at hrest
    have hdrop := eq_of_linesFrom_eq _ _ _ (by simp [hlen]) hrest
    rw [← List.take_append_drop (Statement.ofBytes l).size l, take_eq_of_text_eq hlen htext,
      hdrop, List.take_append_drop]
termination_by l.length
decreasing_by
  rw [List.length_drop]
  omega

/-- Equally many bytes with the same listing are the same bytes. -/
theorem eq_of_lines_eq {l l' : List UInt8} (hlen : l.length = l'.length)
    (h : lines l = lines l') : l = l' :=
  eq_of_linesFrom_eq 0 l l' hlen h

/-- A load without its last byte. If that is a zero, the whole of it has the same listing. -/
theorem eq_of_lines_eq_cutOff :
    lines [0x82, 1] = ["0x00: LDI R1, 0x00"]
      ∧ lines [0x82, 1, 0] = ["0x00: LDI R1, 0x00"]
      ∧ [0x82, 1] = [Instruction.ldi.opcode, 1, 0].take 2 := by
  have hcut : lines [0x82, 1] = ["0x00: LDI R1, 0x00"] := by decide +kernel
  have htake : lines ([Instruction.ldi.opcode, 1, 0].take 2) = ["0x00: LDI R1, 0x00"] := by
    decide +kernel
  exact ⟨hcut, by decide +kernel, eq_of_lines_eq rfl (hcut.trans htake.symm)⟩

end Listing

end LS8
