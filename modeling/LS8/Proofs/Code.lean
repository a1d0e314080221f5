import LS8.Proofs.Core
import Mathlib.Data.Nat.Notation

/-!
# Code in memory

An operation is written as the opcode of its instruction and one byte for each operand
(`Operation.encode`). Where a memory stores these bytes from the program counter on, round address
zero if need be, the machine finds the operation (`operation?_of_stores`).
-/

namespace LS8

/-- The byte that names a register as an operand. -/
def Register.toByte (r : Register) : UInt8 :=
  UInt8.ofNat r.val

theorem Register.toNat_toByte (r : Register) : r.toByte.toNat = r.val :=
  UInt8.toNat_ofNat_of_lt (Nat.lt_trans r.isLt (by decide))

namespace Operation

def operands : Operation → List UInt8
  | .load r value => [r.toByte, value]
  | .compute _ r s => [r.toByte, s.toByte]
  | .print r | .push r | .pop r | .call r => [r.toByte]
  | .halt | .ret => []

/-- The bytes of the operation in a program. -/
def encode (op : Operation) : List UInt8 :=
  op.instruction.opcode :: op.operands

theorem ofNat_length_encode (op : Operation) :
    UInt8.ofNat op.encode.length = op.instruction.size := by
  cases op
  case compute o r s =>
    cases o <;> simp [encode, operands, instruction, Arithmetic.instruction, Instruction.size_eq]
  all_goals simp [encode, operands, instruction, Instruction.size_eq]

theorem register_toByte (r : Register) : register r.toByte = .ok r := by
  have hbyte := r.toNat_toByte
  rw [register_of_lt (hbyte ▸ r.isLt)]
  exact congrArg Except.ok (Fin.ext hbyte)

theorem resolvePair_toByte (o : Arithmetic) (r s : Register) :
    resolve.resolvePair r.toByte s.toByte o = .ok (compute o r s) := by
  simp only [resolve.resolvePair, register_toByte]

end Operation

namespace Memory

/-- The bytes lie one behind the other from the address on, and go on at address zero behind the
last one. -/
def Stores (m : Memory) (address : UInt8) (bytes : List UInt8) : Prop :=
  ∀ i (h : i < bytes.length), m.read (address + UInt8.ofNat i) = bytes[i]

instance (m : Memory) (address : UInt8) (bytes : List UInt8) :
    Decidable (m.Stores address bytes) :=
  inferInstanceAs (Decidable (∀ i (h : i < bytes.length), _ = bytes[i]))

variable {m : Memory} {address : UInt8}

theorem stores_append {l₁ l₂ : List UInt8} :
    m.Stores address (l₁ ++ l₂)
      ↔ m.Stores address l₁ ∧ m.Stores (address + UInt8.ofNat l₁.length) l₂ := by
  have hshift : ∀ i, address + UInt8.ofNat l₁.length + UInt8.ofNat i
      = address + UInt8.ofNat (l₁.length + i) := by
    intro i
    rw [UInt8.ofNat_add]
    grind
  constructor
  · intro h
    refine ⟨fun i hi => ?_, fun i hi => ?_⟩
    · rw [h i (by rw [List.length_append]; omega), List.getElem_append_left hi]
    · rw [hshift, h (l₁.length + i) (by rw [List.length_append]; omega),
        List.getElem_append_right (Nat.le_add_right _ _)]
      simp
  · rintro ⟨h₁, h₂⟩ i hi
    rw [List.length_append] at hi
    by_cases hlt : i < l₁.length
    · rw [h₁ i hlt, List.getElem_append_left hlt]
    · obtain ⟨d, rfl⟩ := Nat.exists_eq_add_of_le (Nat.le_of_not_lt hlt)
      rw [← hshift, h₂ d (by omega), List.getElem_append_right (Nat.le_add_right _ _)]
      simp

end Memory

namespace Machine

variable {σ : Type}

theorem fetch_of_stores {m : Machine σ} {bytes : List UInt8} (h : m.memory.Stores m.pc bytes)
    {i : ℕ} (hi : i < bytes.length) : m.fetch (UInt8.ofNat i) = bytes[i] :=
  h i hi

theorem operation?_of_stores {m : Machine σ} {op : Operation}
    (h : m.memory.Stores m.pc op.encode) : m.operation? = some op := by
  have hopcode : m.fetch 0 = op.instruction.opcode := fetch_of_stores h (Nat.zero_lt_succ _)
  refine operation?_eq_some_iff.2 ⟨op.instruction, ?_, ?_⟩
  · rw [hopcode, Instruction.decode_opcode]
  · cases op with
    | load r value =>
      have ha : m.fetch 1 = r.toByte := fetch_of_stores h (by decide : 1 < 3)
      have hb : m.fetch 2 = value := fetch_of_stores h (by decide : 2 < 3)
      rw [ha, hb, Operation.instruction, Operation.resolve, Operation.register_toByte]
      rfl
    | compute o r s =>
      have ha : m.fetch 1 = r.toByte := fetch_of_stores h (by decide : 1 < 3)
      have hb : m.fetch 2 = s.toByte := fetch_of_stores h (by decide : 2 < 3)
      rw [ha, hb]
      cases o <;> exact Operation.resolvePair_toByte _ r s
    | print r | push r | pop r | call r =>
      have ha : m.fetch 1 = r.toByte := fetch_of_stores h (by decide : 1 < 2)
      rw [ha, Operation.instruction, Operation.resolve, Operation.register_toByte]
      rfl
    | halt | ret => rfl

end Machine

end LS8
