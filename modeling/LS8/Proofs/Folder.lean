import LS8.Folder
import Mathlib.Data.Nat.Notation
import Mathlib.Logic.Function.Iterate

/-!
# Opening paths in a folder

A path leads from place to place, and what it opens is what is where it ends: the parts behind a
slash go on from where those before it have led (`lead_append`). So a name opens the entry that it
stands for (`openFile_name`), a path that comes back to the folder first opens the same
(`openFile_detour`), and behind a name the way goes on from its entry (`openFile_behind`), which it
cannot if that is a file (`lead_file`). Outside, a climb that is long enough ends at the root
(`parent_iterate`).
-/

namespace LS8

namespace Folder

variable {f : Folder} {start : Place} {name : String}

/-! ## The way of a path -/

theorem lead_append (f : Folder) (start : Place) (front rest : List Char) :
    f.lead start (front ++ '/' :: rest) = (f.lead start front).bind (f.lead · rest) := by
  unfold lead
  rw [List.splitOn_append_cons_self, List.map_append, List.foldlM_append]
  rfl

theorem lead_part {part : String} (h : '/' ∉ part.toList) :
    f.lead start part.toList = f.walk start part := by
  unfold lead
  rw [List.splitOn_eq_singleton h, List.map_singleton, String.ofList_toList, List.foldlM_cons]
  cases f.walk start part <;> rfl

/-- No way goes on from a file, not even to itself. -/
theorem lead_file (f : Folder) (bytes : List UInt8) (path : List Char) :
    f.lead (.file bytes) path = .error .notDirectory := by
  unfold lead
  cases h : path.splitOn '/' with
  | nil => exact absurd h (List.splitOn_ne_nil '/' path)
  | cons part parts => rfl

/-- Every step of a climb takes one folder, as long as there is one. -/
theorem parent_iterate (f : Folder) (n depth : ℕ) :
    f.parent^[n] (.outside depth) = .outside (depth - n) := by
  induction n with
  | zero => rfl
  | succ n ih =>
    rw [Function.iterate_succ_apply', ih, Nat.sub_add_eq]
    rfl

/-! ## What a path opens -/

/-- A name that an entry can have. -/
structure IsName (name : String) : Prop where
  slashless : '/' ∉ name.toList
  nonempty : name ≠ ""
  ne_here : name ≠ "."
  ne_up : name ≠ ".."
  short : name.utf8ByteSize ≤ partLimit

instance (name : String) : Decidable (IsName name) :=
  decidable_of_iff ('/' ∉ name.toList ∧ name ≠ "" ∧ name ≠ "." ∧ name ≠ ".."
      ∧ name.utf8ByteSize ≤ partLimit)
    ⟨fun ⟨h₁, h₂, h₃, h₄, h₅⟩ => ⟨h₁, h₂, h₃, h₄, h₅⟩,
      fun ⟨h₁, h₂, h₃, h₄, h₅⟩ => ⟨h₁, h₂, h₃, h₄, h₅⟩⟩

theorem walk_name (h : IsName name) : f.walk .here name
    = ((f.entries.lookup name).map Place.ofEntry).elim (.error .notFound) .ok := by
  have hshort := Nat.not_lt.2 h.short
  simp only [walk, find?, h.nonempty, h.ne_here, h.ne_up, hshort, decide_false, Bool.or_self,
    Bool.false_eq_true, if_false]
  cases f.entries.lookup name <;> rfl

theorem openFile_relative {path : String} (hrelative : path.toList.head? ≠ some '/')
    (hne : path ≠ "") (hshort : path.utf8ByteSize ≤ pathLimit) :
    f.openFile path = (f.lead .here path.toList).bind Place.opened := by
  unfold openFile
  rw [if_neg hne, if_neg (Nat.not_lt.2 hshort)]
  simp only [hrelative, if_false]

theorem IsName.head?_ne (h : IsName name) : name.toList.head? ≠ some '/' :=
  fun hhead => h.slashless (List.mem_of_head? hhead)

/-- A name opens the entry that it stands for. -/
theorem openFile_name (h : IsName name) : f.openFile name
    = ((f.entries.lookup name).map Place.ofEntry).elim (.error .notFound) Place.opened := by
  have hshort : name.utf8ByteSize ≤ pathLimit := Nat.le_trans h.short (by decide)
  rw [openFile_relative h.head?_ne h.nonempty hshort, lead_part h.slashless, walk_name h]
  cases f.entries.lookup name <;> rfl

section Joined

variable {front rest : String}

theorem toList_joined (front rest : String) :
    (front ++ "/" ++ rest).toList = front.toList ++ '/' :: rest.toList := by
  simp [String.toList_append]

theorem openFile_joined (hrelative : front.toList.head? ≠ some '/') (hne : front ≠ "")
    (hshort : (front ++ "/" ++ rest).utf8ByteSize ≤ pathLimit) :
    f.openFile (front ++ "/" ++ rest)
      = ((f.lead .here front.toList).bind (f.lead · rest.toList)).bind Place.opened := by
  obtain ⟨c, more, hfront⟩ : ∃ c more, front.toList = c :: more :=
    List.exists_cons_of_ne_nil fun hnil => hne (String.toList_eq_nil_iff.1 hnil)
  have hhead : (front ++ "/" ++ rest).toList.head? = front.toList.head? := by
    rw [toList_joined, hfront]
    rfl
  have hjoined : front ++ "/" ++ rest ≠ "" := by
    intro hempty
    have htext := toList_joined front rest
    rw [hempty, hfront] at htext
    cases htext
  rw [openFile_relative (hhead ▸ hrelative) hjoined hshort, toList_joined, lead_append]

/-- A path that comes back to the folder has no part in what is opened from there on. -/
theorem openFile_detour (hback : f.lead .here front.toList = .ok .here)
    (hfront : front.toList.head? ≠ some '/') (hne : front ≠ "")
    (hrest : rest.toList.head? ≠ some '/') (hmore : rest ≠ "")
    (hshort : (front ++ "/" ++ rest).utf8ByteSize ≤ pathLimit) :
    f.openFile (front ++ "/" ++ rest) = f.openFile rest := by
  have hrestShort : rest.utf8ByteSize ≤ pathLimit := by
    rw [String.utf8ByteSize_append] at hshort
    omega
  rw [openFile_joined hfront hne hshort, hback, openFile_relative hrest hmore hrestShort]
  rfl

/-- Behind a name the way goes on from its entry, if there is one. -/
theorem openFile_behind (h : IsName name)
    (hshort : (name ++ "/" ++ rest).utf8ByteSize ≤ pathLimit) :
    f.openFile (name ++ "/" ++ rest) = ((f.entries.lookup name).map Place.ofEntry).elim
      (.error .notFound) fun p => (f.lead p rest.toList).bind Place.opened := by
  rw [openFile_joined h.head?_ne h.nonempty hshort, lead_part h.slashless, walk_name h]
  cases f.entries.lookup name <;> rfl

/-- Into a folder and out of it again. -/
theorem lead_out (h : IsName name) (hfolder : f.entries.lookup name = some .folder) :
    f.lead .here (name ++ "/" ++ "..").toList = .ok .here := by
  rw [toList_joined, lead_append, lead_part h.slashless, walk_name h, hfolder]
  rfl

end Joined

end Folder

end LS8
