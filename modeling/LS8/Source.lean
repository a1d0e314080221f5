import LS8.Error
import LS8.Memory
import LS8.Source.Line

/-!
# Program source

A source is the bytes a reader delivers and, if it breaks off, why. Its lines are the pieces that a
line feed ends; what follows the last line feed is a line only if it is not empty and the reader
came to its end. Reading takes the literals line by line into an image and counts them on when the
image is full, so an oversized program is reported at its full length.
-/

namespace LS8

structure Source where
  bytes : List UInt8
  /-- Why the reader broke off after these bytes, if it did. -/
  failure : Option IoError := none
deriving DecidableEq

/-- What came of opening a file. -/
abbrev OpenedFile := Except IoError Source

/-- The text in a file: all of its bytes, which have to be UTF-8. -/
def OpenedFile.text : OpenedFile → Except IoError (List Char)
  | .error cause => .error cause
  | .ok ⟨_, some cause⟩ => .error cause
  | .ok ⟨bytes, none⟩ =>
    match Text.decode? bytes with
    | some text => .ok text
    | none => .error .notUtf8

@[simp] theorem OpenedFile.text_encode (text : List Char) :
    OpenedFile.text (.ok ⟨Text.encode text, none⟩) = .ok text := by
  simp [OpenedFile.text]

namespace Source

def lineFeed : UInt8 := 10

/-- The parts between line feeds, at least one. -/
def pieces (bytes : List UInt8) : List (List UInt8) :=
  bytes.foldr
    (fun b parts => if b = lineFeed then [] :: parts else parts.modifyHead (b :: ·))
    [[]]

/-- The lines that were read in full. -/
def lines (source : Source) : List (List UInt8) :=
  let parts := pieces source.bytes
  let last := parts.getLastD []
  if last = [] || source.failure.isSome then parts.dropLast else parts

/-- How far a source has been read: the literals, as far as they fit, and how many there were. -/
structure Progress where
  image : Image := Image.empty
  count : Nat := 0

namespace Progress

def add (p : Progress) (value : UInt8) : Progress :=
  ⟨p.image.offer value, p.count + 1⟩

end Progress

/-- Reads lines of which the first has the given number. -/
def readLines : List (List UInt8) → (number : Nat) → Progress → Except LoadError Progress
  | [], _, p => .ok p
  | raw :: rest, number, p =>
    match SourceLine.code? raw with
    | none => readLines rest (number + 1) p
    | some text =>
      match SourceLine.classify text with
      | .byte value => readLines rest (number + 1) (p.add value)
      | .skip => readLines rest (number + 1) p
      | .tooWide =>
        .error (.valueOutOfRange number (String.ofList (SourceLine.significant text)))

/-- The image of the program. A literal that is too wide comes before a reader that broke off, and
that before a program that is too large. -/
def parse (source : Source) : Except LoadError Image :=
  match readLines source.lines 1 {}, source.failure with
  | .error e, _ => .error e
  | .ok _, some cause => .error (.sourceUnavailable cause)
  | .ok p, none =>
    if p.count ≤ memorySize then .ok p.image else .error (.programTooLarge p.count memorySize)

@[simp] theorem pieces_nil : pieces [] = [[]] := rfl

theorem pieces_cons (b : UInt8) (rest : List UInt8) :
    pieces (b :: rest)
      = if b = lineFeed then [] :: pieces rest else (pieces rest).modifyHead (b :: ·) := rfl

theorem pieces_ne_nil (bytes : List UInt8) : pieces bytes ≠ [] := by
  induction bytes with
  | nil => simp
  | cons b rest ih =>
    rw [pieces_cons]
    split
    · simp
    · cases h : pieces rest with
      | nil => exact absurd h ih
      | cons p ps => simp

end Source

end LS8
