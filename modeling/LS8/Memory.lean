import LS8.Numeral

/-!
# Memory

The 256 byte cells of the machine, one for each address a byte can hold, so no access is out of
range. A program is an image of at most 256 bytes; loading one overlays the cells from address zero
on and keeps the rest (`read_load`).
-/

namespace LS8

/-- The number of cells. -/
abbrev memorySize : Nat := 256

/-- A program's bytes, few enough to fit in memory. -/
structure Image where
  bytes : Array UInt8
  size_le : bytes.size ≤ memorySize

namespace Image

def empty : Image := ⟨#[], Nat.zero_le _⟩

/-- The bytes as an image, unless they are too many. -/
def ofBytes? (bytes : Array UInt8) : Option Image :=
  if h : bytes.size ≤ memorySize then some ⟨bytes, h⟩ else none

/-- The image with one more byte, or as it is when it is full. -/
def offer (image : Image) (b : UInt8) : Image :=
  if h : image.bytes.size < memorySize then
    ⟨image.bytes.push b, by rw [Array.size_push]; exact h⟩
  else image

end Image

structure Memory where
  cells : Vector UInt8 memorySize
deriving DecidableEq

namespace Memory

def zero : Memory := ⟨Vector.replicate memorySize 0⟩

def read (m : Memory) (address : UInt8) : UInt8 :=
  m.cells[address.toFin]

def write (m : Memory) (address value : UInt8) : Memory :=
  ⟨m.cells.set address.toNat value address.toNat_lt⟩

/-- The memory with the image's bytes in its first cells. -/
def load (m : Memory) (image : Image) : Memory :=
  ⟨Vector.ofFn fun i => image.bytes.getD i.val m.cells[i]⟩

def toList (m : Memory) : List UInt8 :=
  m.cells.toList

/-- The first `n` cells as binary literals, the form that program text uses. -/
def dump (m : Memory) (n : Nat) : List String :=
  (m.toList.take n).map Numeral.binaryLiteral

theorem read_write (m : Memory) (a b value : UInt8) :
    (m.write a value).read b = if a = b then value else m.read b := by
  simp [read, write, Vector.getElem_set, UInt8.toNat_inj]

@[simp] theorem read_write_self (m : Memory) (a value : UInt8) :
    (m.write a value).read a = value := by
  simp [read_write]

theorem read_write_of_ne (m : Memory) {a b : UInt8} (value : UInt8) (h : a ≠ b) :
    (m.write a value).read b = m.read b := by
  simp [read_write, h]

theorem read_load (m : Memory) (image : Image) (a : UInt8) :
    (m.load image).read a = image.bytes.getD a.toNat (m.read a) := by
  simp [read, load]

@[simp] theorem length_toList (m : Memory) : m.toList.length = memorySize := by
  simp [toList]

theorem getElem?_toList (m : Memory) (a : UInt8) : m.toList[a.toNat]? = some (m.read a) := by
  simp [toList, read, a.toNat_lt]

theorem toList_write (m : Memory) (a value : UInt8) :
    (m.write a value).toList = m.toList.set a.toNat value :=
  Vector.toList_set a.toNat_lt

@[simp] theorem read_zero (a : UInt8) : zero.read a = 0 := by
  simp [read, zero]

theorem ext_read {m n : Memory} (h : ∀ a, m.read a = n.read a) : m = n := by
  obtain ⟨mc⟩ := m
  obtain ⟨nc⟩ := n
  congr
  refine Vector.ext fun i hi => ?_
  have hi' : i < UInt8.size := hi
  simpa [read, Nat.mod_eq_of_lt hi'] using h (UInt8.ofNat i)

end Memory

end LS8
