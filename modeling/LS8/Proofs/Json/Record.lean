import LS8.Json.Record
import Mathlib.Data.List.Nodup

/-!
# What an object gives for a name

The keys of an object are strings, and a string denotes a text if the escaped halves in it are in
pairs (`string?_eq_some_iff`). A record is read from an object exactly if its keys all denote texts
and none of the record's own names is repeated (`exists_record?_iff`). Then it has the value that
the object gives for each name, wherever in the object that is and whatever else the object holds
(`lookup_record?`). From an array it is read by position, and the fields past the end of the array
are missing; those that are there are the same as in an object of the same fields (`Gathers`).
-/

namespace LS8

namespace Json

/-! ## Texts -/

namespace Quoted

/-- The string stands for the text: every escaped half is paired with the one behind it. -/
inductive Denotes : Quoted → List Char → Prop
  | nil : Denotes [] []
  | char {c : Char} {more : Quoted} {text : List Char} (rest : Denotes more text) :
      Denotes (.char c :: more) (c :: text)
  | pair {high low : ℕ} {more : Quoted} {text : List Char} (first : 0xD800 ≤ high ∧ high < 0xDC00)
      (second : 0xDC00 ≤ low ∧ low < 0xE000) (rest : Denotes more text) :
      Denotes (.half high :: .half low :: more)
        (Char.ofNat (0x10000 + (high - 0xD800) * 0x400 + (low - 0xDC00)) :: text)

theorem halves_iff {high low : ℕ} : (isHighHalf high && isLowHalf low) = true
    ↔ (0xD800 ≤ high ∧ high < 0xDC00) ∧ 0xDC00 ≤ low ∧ low < 0xE000 := by
  simp only [isHighHalf, isLowHalf, Bool.and_eq_true, decide_eq_true_eq]

theorem resolve_of_denotes {q : Quoted} {text : List Char} (h : q.Denotes text) :
    ∀ done, resolve done q = some (done.reverse ++ text) := by
  induction h with
  | nil =>
    intro done
    rw [resolve, List.append_nil]
  | char _ ih =>
    intro done
    rw [resolve, ih, List.reverse_cons, List.append_assoc, List.singleton_append]
  | pair hhigh hlow _ ih =>
    intro done
    rw [resolve, if_pos (halves_iff.2 ⟨hhigh, hlow⟩), ih, List.reverse_cons, List.append_assoc,
      List.singleton_append]
    rfl

theorem denotes_of_resolve : ∀ {q : Quoted} {done s : List Char}, resolve done q = some s →
    ∃ text, q.Denotes text ∧ s = done.reverse ++ text := by
  intro q done
  induction done, q using resolve.induct with
  | case1 done =>
    intro s h
    rw [resolve, Option.some_inj] at h
    exact ⟨[], .nil, by rw [← h, List.append_nil]⟩
  | case2 done c rest ih =>
    intro s h
    rw [resolve] at h
    obtain ⟨text, hrest, rfl⟩ := ih h
    exact ⟨c :: text, .char hrest, by simp⟩
  | case3 done high low rest hhalves ih =>
    intro s h
    rw [resolve, if_pos hhalves] at h
    obtain ⟨text, hrest, rfl⟩ := ih h
    obtain ⟨hhigh, hlow⟩ := halves_iff.1 hhalves
    exact ⟨_, .pair hhigh hlow hrest, by simp [join]⟩
  | case4 done high low rest hhalves =>
    intro s h
    rw [resolve, if_neg hhalves] at h
    cases h
  | case5 done unit rest hlone =>
    intro s h
    rw [resolve] at h
    · cases h
    · exact hlone

theorem string?_eq_some_iff {q : Quoted} {s : String} :
    q.string? = some s ↔ q.Denotes s.toList := by
  unfold string? chars?
  constructor
  · intro h
    obtain ⟨chars, hchars, rfl⟩ := Option.map_eq_some_iff.1 h
    obtain ⟨text, htext, rfl⟩ := denotes_of_resolve hchars
    rwa [String.toList_ofList]
  · intro h
    rw [resolve_of_denotes h, List.reverse_nil, List.nil_append, Option.map_some,
      String.ofList_toList]

/-- The string that has no escapes. -/
def plain (text : List Char) : Quoted :=
  text.map .char

theorem denotes_plain : ∀ text : List Char, Denotes (plain text) text
  | [] => .nil
  | _ :: text => .char (denotes_plain text)

end Quoted

/-! ## Members -/

namespace Value

variable {members : List (Quoted × Value)} {name : String} {names : List String}

/-- Every key denotes a text. -/
def Legible (members : List (Quoted × Value)) : Prop :=
  ∀ m ∈ members, ∃ text, m.1.Denotes text

/-- A member with this name has the value. -/
def Gives (members : List (Quoted × Value)) (name : String) (v : Value) : Prop :=
  ∃ key : Quoted, (key, v) ∈ members ∧ key.Denotes name.toList

/-- Two members have this name. -/
def Repeats (members : List (Quoted × Value)) (name : String) : Prop :=
  ∃ m m' : Quoted × Value, [m, m'].Sublist members
    ∧ m.1.Denotes name.toList ∧ m'.1.Denotes name.toList

/-- A member with its name, if its key denotes one. -/
def named? (m : Quoted × Value) : Option (String × Value) :=
  m.1.string?.map (·, m.2)

theorem named?_eq_some_iff {m : Quoted × Value} {v : Value} :
    named? m = some (name, v) ↔ m.1.Denotes name.toList ∧ m.2 = v := by
  unfold named?
  rw [Option.map_eq_some_iff, ← Quoted.string?_eq_some_iff]
  constructor
  · rintro ⟨s, hs, h⟩
    cases h
    exact ⟨hs, rfl⟩
  · rintro ⟨hname, rfl⟩
    exact ⟨name, hname, rfl⟩

theorem repeats_iff :
    Repeats members name ↔ [some name, some name].Sublist (members.map fun m => m.1.string?) := by
  constructor
  · rintro ⟨m, m', hsub, hm, hm'⟩
    have hmap := hsub.map fun m => m.1.string?
    rwa [List.map_cons, List.map_singleton, Quoted.string?_eq_some_iff.2 hm,
      Quoted.string?_eq_some_iff.2 hm'] at hmap
  · intro h
    obtain ⟨l, hsub, hl⟩ := List.sublist_map_iff.1 h
    obtain ⟨m, l, rfl, hm, hl⟩ := List.map_eq_cons_iff.1 hl.symm
    obtain ⟨m', rfl, hm'⟩ := List.map_eq_singleton_iff.1 hl
    exact ⟨m, m', hsub, Quoted.string?_eq_some_iff.1 hm, Quoted.string?_eq_some_iff.1 hm'⟩

theorem mapM_eq_some_iff {α β : Type} {f : α → Option β} :
    ∀ {l : List α} {r : List β}, l.mapM f = some r ↔ l.map f = r.map some
  | [], r => by cases r <;> simp
  | a :: l, r => by
    rw [List.mapM_cons, List.map_cons]
    cases r with
    | nil => cases f a <;> cases l.mapM f <;> simp
    | cons b r =>
      rw [List.map_cons, List.cons.injEq, ← mapM_eq_some_iff]
      cases f a <;> cases l.mapM f <;> simp

theorem lookup_eq_some_iff_of_nodup {v : Value} : ∀ {l : List (String × Value)},
    (l.map Prod.fst).Nodup → (l.lookup name = some v ↔ (name, v) ∈ l)
  | [], _ => by simp
  | (key, w) :: l, h => by
    rw [List.map_cons, List.nodup_cons] at h
    by_cases hkey : name = key
    · subst hkey
      have hnot : (name, v) ∉ l := fun hmem => h.1 (List.mem_map.2 ⟨(name, v), hmem, rfl⟩)
      simp [hnot, eq_comm]
    · have hbeq : (name == key) = false := beq_false_of_ne hkey
      rw [List.lookup_cons, hbeq, lookup_eq_some_iff_of_nodup h.2]
      simp [hkey]

theorem exists_named : ∀ {members : List (Quoted × Value)}, Legible members →
    ∃ named : List (String × Value), members.map named? = named.map some
  | [], _ => ⟨[], rfl⟩
  | m :: members, h => by
    obtain ⟨⟨text, hm⟩, hmembers⟩ := List.forall_mem_cons.1 h
    obtain ⟨named, hnamed⟩ := exists_named hmembers
    have hfirst : named? m = some (String.ofList text, m.2) :=
      named?_eq_some_iff.2 ⟨by rwa [String.toList_ofList], rfl⟩
    exact ⟨(String.ofList text, m.2) :: named, by rw [List.map_cons, List.map_cons, hfirst, hnamed]⟩

/-- The members that have one of the names, each with its name. -/
def ownFields (names : List String) (named : List (String × Value)) : List (String × Value) :=
  named.filter fun m => m.1 ∈ names

theorem record?_eq_some_iff {fields : List (String × Value)} :
    (object members).record? names = some fields ↔ ∃ named, members.map named? = named.map some
      ∧ ownFields names named = fields ∧ (fields.map Prod.fst).Nodup := by
  have hrecord : (object members).record? names = (members.mapM named?).bind fun named =>
      if ((ownFields names named).map Prod.fst).Nodup then some (ownFields names named)
      else none := rfl
  rw [hrecord, Option.bind_eq_some_iff]
  simp only [mapM_eq_some_iff, Option.ite_none_right_eq_some, Option.some_inj]
  constructor
  · rintro ⟨named, hnamed, hnodup, rfl⟩
    exact ⟨named, hnamed, rfl, hnodup⟩
  · rintro ⟨named, hnamed, rfl, hnodup⟩
    exact ⟨named, hnamed, hnodup, rfl⟩

section Named

variable {named : List (String × Value)} (hnamed : members.map named? = named.map some)
include hnamed

theorem gives_iff {v : Value} : Gives members name v ↔ (name, v) ∈ named := by
  have hmap : (name, v) ∈ named ↔ some (name, v) ∈ members.map named? := by
    rw [hnamed, List.mem_map_of_injective fun _ _ => Option.some.inj]
  rw [hmap, List.mem_map]
  constructor
  · rintro ⟨key, hmem, hkey⟩
    exact ⟨(key, v), hmem, named?_eq_some_iff.2 ⟨hkey, rfl⟩⟩
  · rintro ⟨⟨key, w⟩, hmem, hm⟩
    obtain ⟨hkey, rfl⟩ := named?_eq_some_iff.1 hm
    exact ⟨key, hmem, hkey⟩

theorem keys_eq : members.map (fun m => m.1.string?) = (named.map Prod.fst).map some := by
  have hkeys := congrArg (List.map fun m => m.map Prod.fst) hnamed
  rw [List.map_map, List.map_map] at hkeys
  rw [List.map_map]
  refine Eq.trans (List.map_congr_left fun m _ => ?_) hkeys
  simp [named?, Function.comp_def]

/-- A name is repeated where it is not the only one of its kind. -/
theorem repeats_iff_of_named :
    Repeats members name ↔ [name, name].Sublist (named.map Prod.fst) := by
  rw [repeats_iff, keys_eq hnamed]
  constructor
  · intro h
    obtain ⟨l, hsub, hl⟩ := List.sublist_map_iff.1 h
    have hl : [name, name] = l := (List.map_injective_iff.2 fun _ _ => Option.some.inj) hl
    rwa [hl]
  · exact fun h => h.map some

theorem nodup_ownFields : ((ownFields names named).map Prod.fst).Nodup
    ↔ ∀ name ∈ names, ¬ Repeats members name := by
  have hown : (ownFields names named).map Prod.fst
      = (named.map Prod.fst).filter fun name => name ∈ names := by
    rw [ownFields, List.filter_map]
    rfl
  rw [hown, List.nodup_iff_sublist]
  constructor
  · intro h name hname hrepeats
    have hsub := ((repeats_iff_of_named hnamed).1 hrepeats).filter fun name => name ∈ names
    simp only [List.filter_cons, hname, decide_true, if_true, List.filter_nil] at hsub
    exact h name hsub
  · intro h name hsub
    have hname : name ∈ names := by simpa using List.of_mem_filter (hsub.mem List.mem_cons_self)
    exact h name hname ((repeats_iff_of_named hnamed).2 (hsub.trans List.filter_sublist))

end Named

/-- A record is read from the objects whose keys all denote texts, with none of its names twice. -/
theorem exists_record?_iff : (∃ fields, (object members).record? names = some fields)
    ↔ Legible members ∧ ∀ name ∈ names, ¬ Repeats members name := by
  constructor
  · rintro ⟨fields, h⟩
    obtain ⟨named, hnamed, rfl, hnodup⟩ := record?_eq_some_iff.1 h
    refine ⟨fun m hm => ?_, (nodup_ownFields hnamed).1 hnodup⟩
    have hmem : named? m ∈ named.map some := by
      rw [← hnamed]
      exact List.mem_map_of_mem hm
    obtain ⟨⟨name, v⟩, -, hname⟩ := List.mem_map.1 hmem
    exact ⟨name.toList, (named?_eq_some_iff.1 hname.symm).1⟩
  · rintro ⟨hlegible, honce⟩
    obtain ⟨named, hnamed⟩ := exists_named hlegible
    exact ⟨_, record?_eq_some_iff.2 ⟨named, hnamed, rfl, (nodup_ownFields hnamed).2 honce⟩⟩

/-- Its fields are what the object gives for the names. -/
theorem lookup_record? {fields : List (String × Value)} {v : Value}
    (h : (object members).record? names = some fields) (hname : name ∈ names) :
    fields.lookup name = some v ↔ Gives members name v := by
  obtain ⟨named, hnamed, rfl, hnodup⟩ := record?_eq_some_iff.1 h
  rw [lookup_eq_some_iff_of_nodup hnodup, gives_iff hnamed, ownFields, List.mem_filter]
  simp [hname]

/-- What a record has in the field of this name: what is meant by the value that the object gives
for it, or the default if there is none. -/
inductive Field {α : Type} (members : List (Quoted × Value)) (name : String)
    (Means : Value → α → Prop) (default : α) : α → Prop
  | given {v : Value} {a : α} (member : Gives members name v) (meaning : Means v a) :
      Field members name Means default a
  | absent (missing : ∀ v, ¬ Gives members name v) : Field members name Means default default

theorem field?_of_field {α β : Type} {fields : List (String × Value)} {Means : Value → α → Prop}
    {default a : α} {read : Value → Option β} {f : α → β}
    (hrecord : (object members).record? names = some fields) (hname : name ∈ names)
    (hread : ∀ {v a}, Gives members name v → Means v a → read v = some (f a))
    (h : Field members name Means default a) :
    field? fields name (f default) read = some (f a) := by
  unfold field?
  cases h with
  | @given v _ hmember hmeaning =>
    rw [(lookup_record? hrecord hname).2 hmember]
    exact hread hmember hmeaning
  | absent hmissing =>
    have hnone : fields.lookup name = none :=
      Option.eq_none_iff_forall_ne_some.2 fun v hv =>
        hmissing v ((lookup_record? hrecord hname).1 hv)
    rw [hnone]

/-! ## By name or by position -/

/-- The value gives the first `k` of the fields: all of them by name, in any order, or as many as
there are by position. -/
inductive Gathers (fields : List (String × Value)) : ℕ → Value → Prop
  | named {given : List (String × Value)} (all : given.Perm fields) :
      Gathers fields fields.length (.object (given.map fun f => (.plain f.1.toList, f.2)))
  | positional {k : ℕ} (within : k ≤ fields.length) :
      Gathers fields k (.array ((fields.take k).map Prod.snd))

theorem named?_plain (f : String × Value) : named? (.plain f.1.toList, f.2) = some f :=
  named?_eq_some_iff.2 ⟨Quoted.denotes_plain _, rfl⟩

theorem zip_take : ∀ (fields : List (String × Value)) (k : ℕ),
    (fields.map Prod.fst).zip ((fields.take k).map Prod.snd) = fields.take k
  | [], k => by simp
  | f :: fields, 0 => by simp
  | f :: fields, k + 1 => by
    rw [List.take_succ_cons, List.map_cons, List.map_cons, List.zip_cons_cons, zip_take]

theorem lookup_of_perm {l l' : List (String × Value)} (h : l.Perm l')
    (hnodup : (l'.map Prod.fst).Nodup) (name : String) : l.lookup name = l'.lookup name := by
  have hnodup' : (l.map Prod.fst).Nodup := (h.map Prod.fst).nodup_iff.2 hnodup
  refine Option.ext fun v => ?_
  rw [lookup_eq_some_iff_of_nodup hnodup', lookup_eq_some_iff_of_nodup hnodup, h.mem_iff]

/-- Either way the record has the first of the fields, in some order. -/
theorem Gathers.record? {fields : List (String × Value)} {k : ℕ} {v : Value}
    (h : Gathers fields k v) (hnodup : (fields.map Prod.fst).Nodup) :
    ∃ given, v.record? (fields.map Prod.fst) = some given ∧ given.Perm (fields.take k) := by
  cases h with
  | @named given hall =>
    refine ⟨given, record?_eq_some_iff.2 ⟨given, ?_, ?_, (hall.map Prod.fst).nodup_iff.2 hnodup⟩, ?_⟩
    · rw [List.map_map]
      exact List.map_congr_left fun f _ => named?_plain f
    · refine List.filter_eq_self.2 fun f hf => decide_eq_true ?_
      exact List.mem_map_of_mem (hall.mem_iff.1 hf)
    · rwa [List.take_length]
  | positional hwithin =>
    refine ⟨fields.take k, ?_, .refl _⟩
    have hlength : ((fields.take k).map Prod.snd).length ≤ (fields.map Prod.fst).length := by
      rw [List.length_map, List.length_map]
      exact (List.take_sublist k fields).length_le
    exact (if_pos hlength).trans (congrArg some (zip_take fields k))

/-- The two fields of a record, as far as they are given. -/
theorem Gathers.field? {m n : String} {a b v : Value} {k : ℕ} (h : Gathers [(m, a), (n, b)] k v)
    (hne : m ≠ n) : ∃ given, v.record? [m, n] = some given
      ∧ (∀ {α : Type} (default : α) (read : Value → Option α),
        Value.field? given m default read = if 0 < k then read a else some default)
      ∧ ∀ {α : Type} (default : α) (read : Value → Option α),
        Value.field? given n default read = if 1 < k then read b else some default := by
  have hnodup : ([(m, a), (n, b)].map Prod.fst).Nodup := by simpa using hne
  obtain ⟨given, hgiven, hperm⟩ := h.record? hnodup
  have hlookup := lookup_of_perm hperm (hnodup.sublist ((List.take_sublist _ _).map _))
  refine ⟨given, hgiven, fun default read => ?_, fun default read => ?_⟩
  · unfold Value.field?
    rw [hlookup]
    rcases k with _ | k
    · rfl
    · simp
  · have hbeq : (n == m) = false := beq_false_of_ne hne.symm
    unfold Value.field?
    rw [hlookup]
    rcases k with _ | _ | k
    · rfl
    · simp [List.lookup_cons, hbeq]
    · simp [List.lookup_cons, hbeq]

end Value

end Json

end LS8
