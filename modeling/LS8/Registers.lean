import LS8.Numeral

/-!
# The register file

Eight registers of one byte each. The last one is the stack pointer, by convention of the stack
instructions only: it is read and written like the others, and it alone has a reset value that is
not zero.
-/

namespace LS8

abbrev registerCount : Nat := 8

/-- The index of a register; an operand byte names one only below `registerCount`. -/
abbrev Register := Fin registerCount

namespace Register

/-- The register that the stack instructions use as their pointer. -/
def stackPointer : Register := 7

def ofNat? (n : Nat) : Option Register :=
  if h : n < registerCount then some ⟨n, h⟩ else none

/-- The register an operand byte names, if any. -/
def ofByte? (b : UInt8) : Option Register :=
  ofNat? b.toNat

end Register

/-- The address the stack grows down from, unless another one is configured. -/
def defaultStackPointer : UInt8 := 0xF4

structure Registers where
  cells : Vector UInt8 registerCount
deriving DecidableEq

namespace Registers

def get (r : Registers) (i : Register) : UInt8 :=
  r.cells[i]

def set (r : Registers) (i : Register) (value : UInt8) : Registers :=
  ⟨r.cells.set i.val value i.isLt⟩

/-- The file at reset: zero but for the stack pointer. -/
def initial (stackPointer : UInt8) : Registers :=
  set ⟨Vector.replicate registerCount 0⟩ .stackPointer stackPointer

def sp (r : Registers) : UInt8 :=
  r.get .stackPointer

def setSp (r : Registers) (value : UInt8) : Registers :=
  r.set .stackPointer value

/-- The stack pointer moved down by one cell, from address zero to the last one. -/
def lowerSp (r : Registers) : Registers :=
  r.setSp (r.sp - 1)

/-- The stack pointer moved up by one cell, from the last address to zero. -/
def raiseSp (r : Registers) : Registers :=
  r.setSp (r.sp + 1)

def toList (r : Registers) : List UInt8 :=
  r.cells.toList

/-- The registers in order, two hexadecimal digits each, with a space between. -/
def dump (r : Registers) : String :=
  String.intercalate " " (r.toList.map Numeral.upperHex)

def toJson (r : Registers) : String :=
  "\x7b\"regs\":[" ++ String.intercalate "," (r.toList.map fun b => Numeral.decimal b.toNat)
    ++ "]\x7d"

theorem get_set (r : Registers) (i j : Register) (value : UInt8) :
    (r.set i value).get j = if i = j then value else r.get j := by
  simp [get, set, Vector.getElem_set, Fin.ext_iff]

@[simp] theorem get_set_self (r : Registers) (i : Register) (value : UInt8) :
    (r.set i value).get i = value := by
  simp [get_set]

theorem get_set_of_ne (r : Registers) {i j : Register} (value : UInt8) (h : i ≠ j) :
    (r.set i value).get j = r.get j := by
  simp [get_set, h]

@[simp] theorem sp_setSp (r : Registers) (value : UInt8) : (r.setSp value).sp = value :=
  get_set_self r _ value

theorem sp_set_of_ne (r : Registers) {i : Register} (value : UInt8) (h : i ≠ .stackPointer) :
    (r.set i value).sp = r.sp :=
  r.get_set_of_ne value h

@[simp] theorem sp_lowerSp (r : Registers) : r.lowerSp.sp = r.sp - 1 :=
  r.sp_setSp _

@[simp] theorem sp_raiseSp (r : Registers) : r.raiseSp.sp = r.sp + 1 :=
  r.sp_setSp _

theorem get_lowerSp (r : Registers) (i : Register) :
    r.lowerSp.get i = if i = .stackPointer then r.sp - 1 else r.get i := by
  simp [lowerSp, setSp, get_set, eq_comm]

theorem get_raiseSp (r : Registers) (i : Register) :
    r.raiseSp.get i = if i = .stackPointer then r.sp + 1 else r.get i := by
  simp [raiseSp, setSp, get_set, eq_comm]

theorem toList_set (r : Registers) (i : Register) (value : UInt8) :
    (r.set i value).toList = r.toList.set i.val value :=
  Vector.toList_set i.isLt

theorem getElem?_toList (r : Registers) (i : Register) : r.toList[i.val]? = some (r.get i) := by
  simp [toList, get]

theorem ext_get {r s : Registers} (h : ∀ i, r.get i = s.get i) : r = s := by
  obtain ⟨rc⟩ := r
  obtain ⟨sc⟩ := s
  congr
  exact Vector.ext fun i hi => by simpa [get] using h ⟨i, hi⟩

end Registers

end LS8
