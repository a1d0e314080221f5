import LS8.Machine
import LS8.Source

/-!
# Loading

A source is parsed as a whole before memory changes, so a program that cannot be loaded leaves
memory as it was. The rest of the machine takes no part.
-/

namespace LS8

/-- What came of loading a program: its length, what it was loaded into afterwards, and the log. -/
structure Loading (τ : Type) where
  result : Except LoadError Nat
  target : τ
  events : List Event

namespace Memory

def loadSource (m : Memory) (source : Source) : Loading Memory :=
  match source.parse with
  | .error e => ⟨.error e, m, []⟩
  | .ok image => ⟨.ok image.bytes.size, m.load image, [.loaded image.bytes.size]⟩

def loadFile (m : Memory) (path : String) : OpenedFile → Loading Memory
  | .error cause => ⟨.error (.sourceUnavailable cause), m, []⟩
  | .ok source =>
    let l := m.loadSource source
    { l with events := .loading path :: l.events }

end Memory

namespace Machine

variable {σ : Type}

/-- The machine with the outcome of loading into its memory. -/
def finishLoading (m : Machine σ) (l : Loading Memory) : Loading (Machine σ) :=
  ⟨l.result, { m with memory := l.target }, l.events⟩

def loadSource (m : Machine σ) (source : Source) : Loading (Machine σ) :=
  m.finishLoading (m.memory.loadSource source)

def loadFile (m : Machine σ) (path : String) (file : OpenedFile) : Loading (Machine σ) :=
  m.finishLoading (m.memory.loadFile path file)

theorem loadFile_of_parse {m : Machine σ} {source : Source} {image : Image}
    (h : source.parse = .ok image) (path : String) :
    m.loadFile path (.ok source) = ⟨.ok image.bytes.size, { m with memory := m.memory.load image },
      [.loading path, .loaded image.bytes.size]⟩ := by
  simp only [loadFile, Memory.loadFile, Memory.loadSource, finishLoading, h]

theorem loadFile_of_parse_error {m : Machine σ} {source : Source} {e : LoadError}
    (h : source.parse = .error e) (path : String) :
    m.loadFile path (.ok source) = ⟨.error e, m, [.loading path]⟩ := by
  simp only [loadFile, Memory.loadFile, Memory.loadSource, finishLoading, h]

end Machine

end LS8
