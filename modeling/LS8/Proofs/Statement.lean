import LS8.Listing
import LS8.Proofs.Numeral

/-!
# What the text of a statement shows

Numerals show their numbers, and a comma ends the name of a register. So the text of an instruction
shows the operand bytes that its opcode announces, and it shows nothing of the bytes behind them
(`Statement.text_instruction_eq_iff`). The first word of a text is the mnemonic, or what stands in
front of a byte that is no opcode, and these are all different; so the text shows the bytes that the
statement takes up, and nothing else (`Statement.text_ofBytes_eq_iff`).
-/

namespace LS8

namespace Instruction

theorem toNat_size (i : Instruction) : i.size.toNat = (operandCount i.opcode).toNat + 1 := by
  cases i <;> decide

theorem operandCount_le (i : Instruction) : (operandCount i.opcode).toNat ≤ 2 := by
  cases i <;> decide

theorem ofMnemonic?_mnemonic (i : Instruction) : ofMnemonic? i.mnemonic = some i := by
  cases i <;> rfl

end Instruction

namespace Statement

/-! ## Operands -/

theorem toList_registerName (a : UInt8) :
    (registerName a).toList = 'R' :: Nat.toDigits 10 a.toNat := by
  simp [registerName, Numeral.decimal]

theorem toNat_of_toDigits_eq {a a' : UInt8}
    (h : Nat.toDigits 10 a.toNat = Nat.toDigits 10 a'.toNat) : a = a' := by
  have hvalue := congrArg (Numeral.valueOf 10) h
  rw [Numeral.valueOf_toDigits (by decide) (by decide),
    Numeral.valueOf_toDigits (by decide) (by decide)] at hvalue
  exact UInt8.toNat_inj.1 hvalue

theorem registerName_injective : Function.Injective registerName := by
  intro a a' h
  have hdigits := congrArg String.toList h
  rw [toList_registerName, toList_registerName] at hdigits
  exact toNat_of_toDigits_eq (List.cons.inj hdigits).2

/-- A register's name ends where its digits do. -/
theorem registerName_append_inj {a a' : UInt8} {s s' : String}
    (h : registerName a ++ (", " ++ s) = registerName a' ++ (", " ++ s')) : a = a' ∧ s = s' := by
  have hdigits : ∀ (b : UInt8) (rest : List Char),
      (Nat.toDigits 10 b.toNat ++ ',' :: rest).takeWhile Char.isDigit
        = Nat.toDigits 10 b.toNat := by
    intro b rest
    rw [List.takeWhile_append_of_pos fun c hc =>
        Nat.isDigit_of_mem_toDigits (by decide) (by decide) hc,
      List.takeWhile_cons_of_neg (by decide), List.append_nil]
  have hcomma : ", ".toList = [',', ' '] := rfl
  have hlist := congrArg String.toList h
  simp only [String.toList_append, toList_registerName, hcomma, List.cons_append,
    List.nil_append, List.cons.injEq, true_and] at hlist
  have hfront := congrArg (List.takeWhile Char.isDigit) hlist
  rw [hdigits, hdigits] at hfront
  obtain rfl := toNat_of_toDigits_eq hfront
  exact ⟨rfl, String.toList_inj.1 (by simpa using hlist)⟩

/-- Two instructions of one kind are shown alike when they have the operands alike that their
opcode announces. -/
theorem text_instruction_eq_iff {i : Instruction} {a b a' b' : UInt8} :
    (instruction i a b).text = (instruction i a' b').text
      ↔ (1 ≤ (operandCount i.opcode).toNat → a = a')
        ∧ (2 ≤ (operandCount i.opcode).toNat → b = b') := by
  constructor
  · intro h
    cases i
    case hlt | ret =>
      exact ⟨fun hone => absurd hone (by decide), fun htwo => absurd htwo (by decide)⟩
    all_goals
      simp only [text, String.append_assoc, String.append_right_inj] at h
    case ldi =>
      obtain ⟨rfl, hb⟩ := registerName_append_inj h
      exact ⟨fun _ => rfl, fun _ => UInt8.toNat_inj.1 (Numeral.lowerHex_injective hb)⟩
    case add | mul =>
      obtain ⟨rfl, hb⟩ := registerName_append_inj h
      exact ⟨fun _ => rfl, fun _ => registerName_injective hb⟩
    all_goals exact ⟨fun _ => registerName_injective h, fun htwo => absurd htwo (by decide)⟩
  · rintro ⟨ha, hb⟩
    cases i
    case ldi | add | mul =>
      obtain rfl := ha (by decide)
      obtain rfl := hb (by decide)
      rfl
    case prn | push | pop | call =>
      obtain rfl := ha (by decide)
      rfl
    case hlt | ret => rfl

/-! ## Whole statements -/

def instruction? : Statement → Option Instruction
  | .instruction i _ _ => some i
  | .byte _ => none

/-- The word that the text starts with. -/
def keyword : Statement → String
  | .instruction i _ _ => i.mnemonic
  | .byte _ => ".byte"

theorem takeWhile_text (s : Statement) :
    s.text.toList.takeWhile (· ≠ ' ') = s.keyword.toList := by
  cases s with
  | instruction i a b => cases i <;> simp [text, keyword, Instruction.mnemonic]
  | byte value => simp [text, keyword]

theorem keyword_eq_of_text_eq {s t : Statement} (h : s.text = t.text) : s.keyword = t.keyword := by
  rw [← String.toList_inj, ← takeWhile_text, ← takeWhile_text, h]

/-- No mnemonic is mistaken for another one, or for the word in front of a lone byte. -/
theorem ofMnemonic?_keyword (s : Statement) :
    Instruction.ofMnemonic? s.keyword = s.instruction? := by
  cases s with
  | instruction i a b => exact i.ofMnemonic?_mnemonic
  | byte value => rfl

theorem ofBytes_of_decode {l : List UInt8} {i : Instruction}
    (h : Instruction.decode (l.getD 0 0) = some i) :
    ofBytes l = .instruction i (l.getD 1 0) (l.getD 2 0) := by
  rw [ofBytes, h]

theorem ofBytes_of_undefined {l : List UInt8} (h : Instruction.decode (l.getD 0 0) = none) :
    ofBytes l = .byte (l.getD 0 0) := by
  rw [ofBytes, h]

theorem size_ofBytes_of_decode {l : List UInt8} {i : Instruction}
    (h : Instruction.decode (l.getD 0 0) = some i) :
    (ofBytes l).size = (operandCount i.opcode).toNat + 1 := by
  rw [ofBytes_of_decode h, size, i.toNat_size]

/-- Statements look alike when their bytes are the same as far as the first one reaches. -/
theorem text_ofBytes_eq_iff {l l' : List UInt8} :
    (ofBytes l).text = (ofBytes l').text
      ↔ ∀ k < (ofBytes l).size, l.getD k 0 = l'.getD k 0 := by
  constructor
  · intro h k hk
    have hnamed := congrArg Instruction.ofMnemonic? (keyword_eq_of_text_eq h)
    rw [ofMnemonic?_keyword, ofMnemonic?_keyword] at hnamed
    rcases hdec : Instruction.decode (l.getD 0 0) with _ | i <;>
      rcases hdec' : Instruction.decode (l'.getD 0 0) with _ | j
    · rw [ofBytes_of_undefined hdec] at h hk
      rw [ofBytes_of_undefined hdec'] at h
      obtain rfl : k = 0 := Nat.lt_one_iff.1 hk
      exact Numeral.upperHex_injective ((String.append_right_inj ".byte 0x").1 h)
    · rw [ofBytes_of_undefined hdec, ofBytes_of_decode hdec'] at hnamed
      cases hnamed
    · rw [ofBytes_of_decode hdec, ofBytes_of_undefined hdec'] at hnamed
      cases hnamed
    · rw [size_ofBytes_of_decode hdec] at hk
      rw [ofBytes_of_decode hdec, ofBytes_of_decode hdec'] at hnamed h
      obtain rfl : i = j := Option.some_inj.1 hnamed
      obtain ⟨hone, htwo⟩ := text_instruction_eq_iff.1 h
      have hcount := i.operandCount_le
      obtain rfl | rfl | rfl : k = 0 ∨ k = 1 ∨ k = 2 := by omega
      · rw [← Instruction.opcode_of_decode hdec, ← Instruction.opcode_of_decode hdec']
      · exact hone (by omega)
      · exact htwo (by omega)
  · intro h
    have hopcode := h 0 (size_pos _)
    rcases hdec : Instruction.decode (l.getD 0 0) with _ | i
    · rw [ofBytes_of_undefined hdec, ofBytes_of_undefined (hopcode ▸ hdec), hopcode]
    · rw [size_ofBytes_of_decode hdec] at h
      rw [ofBytes_of_decode hdec, ofBytes_of_decode (hopcode ▸ hdec), text_instruction_eq_iff]
      exact ⟨fun hone => h 1 (by omega), fun htwo => h 2 (by omega)⟩

theorem size_eq_of_text_eq {l l' : List UInt8} (h : (ofBytes l).text = (ofBytes l').text) :
    (ofBytes l).size = (ofBytes l').size := by
  have hopcode := text_ofBytes_eq_iff.1 h 0 (size_pos _)
  rcases hdec : Instruction.decode (l.getD 0 0) with _ | i
  · rw [ofBytes_of_undefined hdec, ofBytes_of_undefined (hopcode ▸ hdec)]
    rfl
  · rw [size_ofBytes_of_decode hdec, size_ofBytes_of_decode (hopcode ▸ hdec)]

end Statement

end LS8
