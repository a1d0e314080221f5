import LS8.Proofs.Parse
import LS8.Proofs.Session

/-!
# Loading is all or nothing

A source that is read into a buffer without a bound, and is checked once more when it is copied to
memory, is loaded as it is from an image (`Memory.loadInStages_eq`): the buffer is as long as the
count of the literals while there is room and stays so when there is none, so whatever has been read
in full can be copied (`Memory.exists_copyIn?`).

A load therefore changes the cells that its image covers, and nothing else, or it changes nothing at
all. Of several loads each cell shows the last one that succeeded and was long enough to cover it
(`loading_all_or_nothing`).
-/

namespace LS8

/-! ## Loading in stages -/

/-- The literals read so far: those that were kept, and how many there were. -/
structure Staging where
  kept : Array UInt8 := #[]
  count : ℕ := 0

namespace Staging

/-- Counts a literal, and keeps it unless there were as many before as memory has cells. -/
def add (s : Staging) (value : UInt8) : Staging :=
  ⟨if s.count < memorySize then s.kept.push value else s.kept, s.count + 1⟩

end Staging

namespace Source

/-- Reads lines into a buffer, where the first line has the given number. -/
def stageLines : List (List UInt8) → (number : ℕ) → Staging → Except LoadError Staging
  | [], _, s => .ok s
  | raw :: rest, number, s =>
    match SourceLine.code? raw with
    | none => stageLines rest (number + 1) s
    | some text =>
      match SourceLine.classify text with
      | .byte value => stageLines rest (number + 1) (s.add value)
      | .skip => stageLines rest (number + 1) s
      | .tooWide =>
        .error (.valueOutOfRange number (String.ofList (SourceLine.significant text)))

/-- The bytes of the program, which nothing bounds but the way in which they were read. -/
def stage (source : Source) : Except LoadError (Array UInt8) :=
  match stageLines source.lines 1 {}, source.failure with
  | .error e, _ => .error e
  | .ok _, some cause => .error (.sourceUnavailable cause)
  | .ok s, none =>
    if s.count ≤ memorySize then .ok s.kept else .error (.programTooLarge s.count memorySize)

namespace Progress

def staging (p : Progress) : Staging :=
  ⟨p.image.bytes, p.count⟩

/-- The image holds as many of the literals as fit. -/
def Filled (p : Progress) : Prop :=
  p.image.bytes.size = min p.count memorySize

theorem filled_empty : ({} : Progress).Filled := by
  simp [Filled, Image.empty]

theorem Filled.add {p : Progress} (h : p.Filled) (value : UInt8) : (p.add value).Filled := by
  unfold Filled at h ⊢
  by_cases hroom : p.image.bytes.size < memorySize
  · simp [Progress.add, Image.offer, hroom]
    omega
  · simp [Progress.add, Image.offer, hroom]
    omega

theorem Filled.staging_add {p : Progress} (h : p.Filled) (value : UInt8) :
    p.staging.add value = (p.add value).staging := by
  unfold Filled at h
  by_cases hroom : p.count < memorySize
  · have himage : p.image.bytes.size < memorySize := by omega
    simp [staging, Staging.add, Progress.add, Image.offer, hroom, himage]
  · have himage : ¬ p.image.bytes.size < memorySize := by omega
    simp [staging, Staging.add, Progress.add, Image.offer, hroom, himage]

end Progress

theorem stageLines_eq (lines : List (List UInt8)) : ∀ (number : ℕ) {p : Progress}, p.Filled →
    stageLines lines number p.staging = (readLines lines number p).map Progress.staging := by
  induction lines with
  | nil => exact fun _ _ _ => rfl
  | cons raw rest ih =>
    intro number p h
    unfold stageLines readLines
    rcases SourceLine.code? raw with _ | text
    · exact ih _ h
    · simp only
      rcases SourceLine.classify text with value | _ | _
      · simp only
        rw [h.staging_add]
        exact ih _ (h.add value)
      · exact ih _ h
      · rfl

theorem stage_eq (source : Source) : source.stage = source.parse.map Image.bytes := by
  have hlines := stageLines_eq source.lines 1 Progress.filled_empty
  unfold stage parse
  rw [show ({} : Staging) = ({} : Progress).staging from rfl, hlines]
  rcases readLines source.lines 1 {} with e | p
  · rfl
  · rcases source.failure with _ | cause
    · simp only [Except.map, Progress.staging]
      split <;> rfl
    · rfl

end Source

namespace Memory

/-- The memory with the bytes in its first cells, unless they are too many. -/
def copyIn? (m : Memory) (bytes : Array UInt8) : Option Memory :=
  (Image.ofBytes? bytes).map m.load

/-- Reads the source into a buffer and copies this to memory, if it fits. -/
def loadInStages (m : Memory) (source : Source) : Loading Memory :=
  match source.stage with
  | .error e => ⟨.error e, m, []⟩
  | .ok bytes =>
    match m.copyIn? bytes with
    | none => ⟨.error (.programTooLarge bytes.size memorySize), m, []⟩
    | some after => ⟨.ok bytes.size, after, [.loaded bytes.size]⟩

theorem copyIn?_bytes (m : Memory) (image : Image) :
    m.copyIn? image.bytes = some (m.load image) := by
  unfold copyIn? Image.ofBytes?
  rw [dif_pos image.size_le]
  rfl

/-- What has been read in full fits. -/
theorem exists_copyIn? (m : Memory) {source : Source} {bytes : Array UInt8}
    (h : source.stage = .ok bytes) : ∃ after, m.copyIn? bytes = some after := by
  rw [Source.stage_eq] at h
  rcases hparse : source.parse with e | image <;> rw [hparse] at h <;> cases h
  exact ⟨_, m.copyIn?_bytes image⟩

theorem loadInStages_eq (m : Memory) (source : Source) :
    m.loadInStages source = m.loadSource source := by
  unfold loadInStages loadSource
  rw [Source.stage_eq]
  rcases source.parse with e | image
  · rfl
  · simp only [Except.map, copyIn?_bytes]

/-! ## One load -/

/-- The memory after a load that has read an image, or has failed. -/
def receive (m : Memory) : Except LoadError Image → Memory
  | .ok image => m.load image
  | .error _ => m

theorem loadSource_eq (m : Memory) (source : Source) :
    (m.loadSource source).result = source.parse.map (·.bytes.size)
      ∧ (m.loadSource source).target = m.receive source.parse := by
  unfold loadSource
  rcases source.parse with e | image <;> exact ⟨rfl, rfl⟩

theorem read_load_of_lt (m : Memory) {image : Image} {a : UInt8} (h : a.toNat < image.bytes.size) :
    (m.load image).read a = image.bytes[a.toNat] := by
  rw [read_load]
  simp [Array.getD, h]

theorem read_load_of_le (m : Memory) {image : Image} {a : UInt8} (h : image.bytes.size ≤ a.toNat) :
    (m.load image).read a = m.read a := by
  rw [read_load]
  simp [Array.getD, Nat.not_lt.2 h]

end Memory

/-! ## Several loads -/

/-- The request is to load a program, and reading this gives an image or fails. -/
inductive Request.Loads : Request → Except LoadError Image → Prop
  | source (source : Source) : Loads (.loadSource source) source.parse
  | file (path : String) (source : Source) : Loads (.loadFile path (.ok source)) source.parse
  | unopened (path : String) (cause : IoError) :
      Loads (.loadFile path (.error cause)) (.error (.sourceUnavailable cause))

/-- What the loads leave in a cell, one after the other: the byte of the last image that covers it,
or what was there before. -/
inductive LeftBy (reads : List (Except LoadError Image)) (a : UInt8) (before : UInt8) :
    UInt8 → Prop
  | untouched (short : ∀ image, .ok image ∈ reads → image.bytes.size ≤ a.toNat) :
      LeftBy reads a before before
  | covered {earlier later : List (Except LoadError Image)} {image : Image}
      (order : reads = earlier ++ .ok image :: later) (covers : a.toNat < image.bytes.size)
      (last : ∀ i, .ok i ∈ later → i.bytes.size ≤ a.toNat) :
      LeftBy reads a before image.bytes[a.toNat]

theorem leftBy_foldl_receive (a : UInt8) : ∀ (reads : List (Except LoadError Image)) (m : Memory),
    LeftBy reads a (m.read a) ((reads.foldl Memory.receive m).read a)
  | [], m => .untouched (by simp)
  | read :: rest, m => by
    have hrest := leftBy_foldl_receive a rest (m.receive read)
    rw [List.foldl_cons]
    generalize ((rest.foldl Memory.receive (m.receive read)).read a) = byte at hrest ⊢
    cases hrest with
    | untouched short =>
      rcases read with e | image
      · exact .untouched (by simpa using short)
      · by_cases hcovers : a.toNat < image.bytes.size
        · rw [Memory.receive, m.read_load_of_lt hcovers]
          exact .covered (List.nil_append _).symm hcovers short
        · rw [Memory.receive, m.read_load_of_le (by omega)]
          refine .untouched fun i hi => ?_
          simp only [List.mem_cons, Except.ok.injEq] at hi
          rcases hi with rfl | hi
          · omega
          · exact short i hi
    | @covered earlier later i order covers last =>
      have hread : read :: rest = read :: earlier ++ .ok i :: later := by
        rw [order, List.cons_append]
      exact .covered hread covers last

namespace Machine

variable {σ : Type} [OutputSink σ]

theorem serve_of_loads (m : Machine σ) {request : Request} {read : Except LoadError Image}
    (h : request.Loads read) : ∃ log, m.serve request
      = some ⟨.loaded (read.map (·.bytes.size)), { m with memory := m.memory.receive read },
        log⟩ := by
  cases h with
  | source source =>
    obtain ⟨hresult, htarget⟩ := m.memory.loadSource_eq source
    refine ⟨(m.memory.loadSource source).events, ?_⟩
    rw [← hresult, ← htarget]
    rfl
  | file path source =>
    obtain ⟨hresult, htarget⟩ := m.memory.loadSource_eq source
    refine ⟨.loading path :: (m.memory.loadSource source).events, ?_⟩
    rw [← hresult, ← htarget]
    rfl
  | unopened path cause => exact ⟨[], rfl⟩

theorem session_of_loads {requests : List Request} {reads : List (Except LoadError Image)}
    (h : List.Forall₂ Request.Loads requests reads) : ∀ m : Machine σ, ∃ s,
      m.session requests = some s
        ∧ s.answers = reads.map (fun read => .loaded (read.map (·.bytes.size)))
        ∧ s.machine = { m with memory := reads.foldl Memory.receive m.memory } := by
  induction h with
  | nil => exact fun m => ⟨{ machine := m }, rfl, rfl, rfl⟩
  | @cons request read requests reads hload _ ih =>
    intro m
    obtain ⟨log, hserve⟩ := m.serve_of_loads hload
    obtain ⟨s, hs, hanswers, hmachine⟩ := ih { m with memory := m.memory.receive read }
    refine ⟨_, session_cons_eq_some_iff.2 ⟨_, s, hserve, hs, rfl⟩, ?_, ?_⟩
    · rw [hanswers, List.map_cons]
    · rw [hmachine, List.foldl_cons]

/-- A load overlays the first cells with the image that the source holds, or it fails as reading the
source does and changes nothing; the check that the image fits is never needed. Of several loads
each cell shows the last image that covers it. -/
theorem loading_all_or_nothing (m : Machine σ) :
    (∀ source : Source,
      (m.loadSource source).result = source.parse.map (·.bytes.size)
        ∧ (∀ n, (m.loadSource source).result = .ok n → n ≤ memorySize
          ∧ ∃ image, source.parse = .ok image ∧ image.bytes.size = n
            ∧ (∀ a : UInt8, a.toNat < n →
              image.bytes[a.toNat]? = some ((m.loadSource source).target.memory.read a))
            ∧ ∀ a : UInt8, n ≤ a.toNat →
              (m.loadSource source).target.memory.read a = m.memory.read a)
        ∧ (∀ e, (m.loadSource source).result = .error e →
          source.parse = .error e ∧ (m.loadSource source).target.memory = m.memory)
        ∧ (m.loadSource source).target
          = { m with memory := (m.loadSource source).target.memory }
        ∧ m.memory.loadInStages source = m.memory.loadSource source
        ∧ ∀ bytes, source.stage = .ok bytes → ∃ after, m.memory.copyIn? bytes = some after)
      ∧ ∀ requests reads, List.Forall₂ Request.Loads requests reads → ∃ s,
        m.session requests = some s
          ∧ s.answers = reads.map (fun read => .loaded (read.map (·.bytes.size)))
          ∧ s.machine = { m with memory := s.machine.memory }
          ∧ ∀ a, LeftBy reads a (m.memory.read a) (s.machine.memory.read a) := by
  refine ⟨fun source => ?_, fun requests reads h => ?_⟩
  · obtain ⟨hresult, htarget⟩ := m.memory.loadSource_eq source
    have hmemory : (m.loadSource source).target.memory = m.memory.receive source.parse := htarget
    refine ⟨hresult, fun n hn => ?_, fun e he => ?_, rfl, m.memory.loadInStages_eq source,
      fun bytes => m.memory.exists_copyIn?⟩
    · have hok : source.parse.map (·.bytes.size) = .ok n := hresult.symm.trans hn
      rw [hmemory]
      rcases hparse : source.parse with e | image <;> rw [hparse] at hok <;> cases hok
      refine ⟨image.size_le, image, rfl, rfl, fun a ha => ?_, fun a => m.memory.read_load_of_le⟩
      rw [Array.getElem?_eq_getElem ha]
      exact congrArg some (m.memory.read_load_of_lt ha).symm
    · have herror : source.parse.map (·.bytes.size) = .error e := hresult.symm.trans he
      rw [hmemory]
      rcases hparse : source.parse with e | image <;> rw [hparse] at herror <;> cases herror
      exact ⟨rfl, rfl⟩
  · obtain ⟨s, hs, hanswers, hmachine⟩ := session_of_loads h m
    refine ⟨s, hs, hanswers, ?_, fun a => ?_⟩
    · rw [hmachine]
    · rw [hmachine]
      exact leftBy_foldl_receive a reads m.memory

def threeLiterals : Source where
  bytes := Text.encode "1\n10\n11\n".toList

def oneLiteral : Source where
  bytes := Text.encode "100".toList

def secondTooWide : Source where
  bytes := Text.encode "101\n111111111\n".toList

/-- A load, one of a shorter program over it, and two that fail. -/
def overlapping : List Request :=
  [.loadSource threeLiterals, .loadFile "short.ls8" (.ok oneLiteral), .loadSource secondTooWide,
    .loadFile "none.ls8" (.error .notFound)]

/-- What the sources of these loads hold. -/
def overlappingReads : List (Except LoadError Image) :=
  [.ok ⟨#[1, 2, 3], by decide⟩, .ok ⟨#[4], by decide⟩, .error (.valueOutOfRange 2 "111111111"),
    .error (.sourceUnavailable .notFound)]

theorem loads_overlapping : List.Forall₂ Request.Loads overlapping overlappingReads := by
  have hthree : threeLiterals.parse = .ok ⟨#[1, 2, 3], by decide⟩ := rfl
  have hone : oneLiteral.parse = .ok ⟨#[4], by decide⟩ := rfl
  have hwide : secondTooWide.parse = .error (.valueOutOfRange 2 "111111111") := rfl
  exact .cons (hthree ▸ .source _) (.cons (hone ▸ .file _ _)
    (.cons (hwide ▸ .source _) (.cons (.unopened _ _) .nil)))

/-- A machine with a byte in a cell that none of these programs covers. -/
def ninthWritten : Machine Collector :=
  { initial ({} : Collector) {} with memory := Memory.zero.write 9 7 }

theorem loading_all_or_nothing_overlapping :
    List.Forall₂ Request.Loads overlapping overlappingReads
      ∧ (ninthWritten.loadSource threeLiterals).result = .ok 3
      ∧ ∃ s, ninthWritten.session overlapping = some s
        ∧ s.machine = { ninthWritten with memory := s.machine.memory }
        ∧ s.machine.memory.read 0 = 4 ∧ LeftBy overlappingReads 0 0 4
        ∧ s.machine.memory.read 1 = 2 ∧ LeftBy overlappingReads 1 0 2
        ∧ s.machine.memory.read 9 = 7 ∧ LeftBy overlappingReads 9 7 7 := by
  obtain ⟨hload, hloads⟩ := loading_all_or_nothing ninthWritten
  obtain ⟨s, hs, -, hrest, hcells⟩ := hloads _ _ loads_overlapping
  obtain ⟨t, ht, -, hmachine⟩ := session_of_loads loads_overlapping ninthWritten
  obtain rfl := Option.some_inj.1 (hs.symm.trans ht)
  have hread : ∀ a, s.machine.memory.read a
      = (#[4] : Array UInt8).getD a.toNat
          ((#[1, 2, 3] : Array UInt8).getD a.toNat (ninthWritten.memory.read a)) := by
    intro a
    rw [hmachine]
    simp [overlappingReads, Memory.receive, Memory.read_load]
  have hzero := hcells 0
  have hone := hcells 1
  have hnine := hcells 9
  rw [hread] at hzero hone hnine
  exact ⟨loads_overlapping, (hload threeLiterals).1.trans rfl, s, hs, hrest, hread 0, hzero,
    hread 1, hone, hread 9, hnine⟩

end Machine

end LS8
