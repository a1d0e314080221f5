import LS8.Config.Reading
import LS8.Proofs.Console
import LS8.Proofs.Json.Nesting
import LS8.Proofs.Json.Record

/-!
# Configurations from objects

Every setting of a configuration may be left out. An object describes the configuration in which
each setting is what is given for it and every other one its default: the order of the members, the
space between them and members with other names have no part in it. A text of such an object is
read as this configuration. It is not read where a name of the configuration's own is repeated, nor
where a key is no text.
-/

namespace LS8

namespace Config

open Json (Quoted Value Layout isNumber_of_isDecimal)
open Json.Value (Legible Gives Repeats Field)

/-! ## What the settings mean -/

inductive IsFlag : Value → Bool → Prop
  | bool (b : Bool) : IsFlag (.bool b) b

inductive IsLimit : Value → Option UInt64 → Prop
  | null : IsLimit .null none
  | number {digits : List Char} {n : UInt64} (numeral : Numeral.IsDecimal digits n.toNat) :
      IsLimit (.number digits) (some n)

/-- A policy is given by its name, alone or as a key for null. -/
inductive IsPolicy : Value → Policy → Prop
  | name {text : Quoted} {p : Policy} (names : text.Denotes p.name.toList) :
      IsPolicy (.string text) p
  | key {text : Quoted} {p : Policy} (names : text.Denotes p.name.toList) :
      IsPolicy (.object [(text, .null)]) p

inductive IsByte : Value → UInt8 → Prop
  | number {digits : List Char} {b : UInt8} (numeral : Numeral.IsDecimal digits b.toNat) :
      IsByte (.number digits) b

inductive IsGeneral : Value → Bool × Option UInt64 → Prop
  | object {members : List (Quoted × Value)} {traces : Bool} {limit : Option UInt64}
      (tracesOnce : ¬ Repeats members "trace_instructions")
      (limitOnce : ¬ Repeats members "max_steps")
      (tracesField : Field members "trace_instructions" IsFlag false traces)
      (limitField : Field members "max_steps" IsLimit none limit) :
      IsGeneral (.object members) (traces, limit)

inductive IsExecution : Value → Policy × UInt8 → Prop
  | object {members : List (Quoted × Value)} {policy : Policy} {sp : UInt8}
      (policyOnce : ¬ Repeats members "unknown_instruction")
      (spOnce : ¬ Repeats members "initial_sp")
      (policyField : Field members "unknown_instruction" IsPolicy .halt policy)
      (spField : Field members "initial_sp" IsByte 0xF4 sp) :
      IsExecution (.object members) (policy, sp)

/-- The members describe the configuration: each setting is what is given for it, or its default. -/
structure Describes (members : List (Quoted × Value)) (c : Config) : Prop where
  generalOnce : ¬ Repeats members "general"
  executionOnce : ¬ Repeats members "execution"
  general : Field members "general" IsGeneral (false, none) (c.traceInstructions, c.maxSteps)
  execution : Field members "execution" IsExecution (.halt, 0xF4)
    (c.unknownInstruction, c.initialSp)

/-- The groups of settings, each with its own. -/
def groups : List (String × List String) :=
  [("general", ["trace_instructions", "max_steps"]),
   ("execution", ["unknown_instruction", "initial_sp"])]

/-- The keys at both levels denote texts. -/
def Readable (members : List (Quoted × Value)) : Prop :=
  Legible members ∧ ∀ group ∈ groups, ∀ inner, Gives members group.1 (.object inner) → Legible inner

/-- A group is given twice, or a setting within its group. -/
def Ambiguous (members : List (Quoted × Value)) : Prop :=
  ∃ group ∈ groups, Repeats members group.1
    ∨ ∃ inner, Gives members group.1 (.object inner) ∧ ∃ name ∈ group.2, Repeats inner name

/-! ## Reading the settings -/

theorem below?_of_isDecimal {digits : List Char} {n bound : ℕ} (h : Numeral.IsDecimal digits n)
    (hn : n < bound) : Value.below? bound (.number digits) = some n := by
  have hdigits : digits ≠ [] ∧ digits.all Char.isDigit := ⟨h.ne_nil, List.all_eq_true.2 h.digit⟩
  simp [Value.below?, Numeral.ofDecimal?, hdigits, h.value, hn]

theorem bool?_of_isFlag {v : Value} {b : Bool} (h : IsFlag v b) : v.bool? = some b := by
  cases h
  rfl

theorem limit?_of_isLimit {v : Value} {limit : Option UInt64} (h : IsLimit v limit) :
    v.optional? (fun v => (v.below? UInt64.size).map UInt64.ofNat) = some limit := by
  cases h with
  | null => rfl
  | @number digits n hnumeral =>
    rw [Value.optional?, below?_of_isDecimal hnumeral n.toNat_lt]
    · simp
    · nofun

theorem byte?_of_isByte {v : Value} {b : UInt8} (h : IsByte v b) :
    (v.below? UInt8.size).map UInt8.ofNat = some b := by
  obtain ⟨hnumeral⟩ := h
  rw [below?_of_isDecimal hnumeral b.toNat_lt]
  simp

theorem ofName?_name (p : Policy) : Policy.ofName? p.name = some p := by
  cases p <;> rfl

theorem policy?_of_isPolicy {v : Value} {p : Policy} (h : IsPolicy v p) :
    Policy.ofValue? v = some p := by
  cases h with
  | name hnames | key hnames =>
    rw [Policy.ofValue?, Quoted.string?_eq_some_iff.2 hnames, Option.bind_some, ofName?_name]

theorem readGeneral_of_isGeneral {v : Value} {p : Bool × Option UInt64} (h : IsGeneral v p)
    (hlegible : ∀ inner, v = .object inner → Legible inner) :
    readGeneral {} v = some { traceInstructions := p.1, maxSteps := p.2 } := by
  obtain ⟨htracesOnce, hlimitOnce, htraces, hlimit⟩ := h
  rename_i members traces limit
  have honce : ∀ name ∈ ["trace_instructions", "max_steps"], ¬ Repeats members name := by
    simp [htracesOnce, hlimitOnce]
  obtain ⟨fields, hfields⟩ := Value.exists_record?_iff.2 ⟨hlegible members rfl, honce⟩
  have htraces : Value.field? fields "trace_instructions" false Value.bool? = some traces :=
    Value.field?_of_field (f := id) hfields (by decide) (fun _ => bool?_of_isFlag) htraces
  have hlimit : Value.field? fields "max_steps" none (Value.optional? fun v =>
      (Value.below? UInt64.size v).map UInt64.ofNat) = some limit :=
    Value.field?_of_field (f := id) hfields (by decide) (fun _ => limit?_of_isLimit) hlimit
  simp [readGeneral, hfields, htraces, hlimit]

theorem readExecution_of_isExecution {v : Value} {p : Policy × UInt8} (h : IsExecution v p)
    (hlegible : ∀ inner, v = .object inner → Legible inner) (traces : Bool)
    (limit : Option UInt64) :
    readExecution { traceInstructions := traces, maxSteps := limit } v
      = some ⟨traces, limit, p.1, p.2⟩ := by
  obtain ⟨hpolicyOnce, hspOnce, hpolicy, hsp⟩ := h
  rename_i members policy sp
  have honce : ∀ name ∈ ["unknown_instruction", "initial_sp"], ¬ Repeats members name := by
    simp [hpolicyOnce, hspOnce]
  obtain ⟨fields, hfields⟩ := Value.exists_record?_iff.2 ⟨hlegible members rfl, honce⟩
  have hpolicy : Value.field? fields "unknown_instruction" .halt Policy.ofValue? = some policy :=
    Value.field?_of_field (f := id) hfields (by decide) (fun _ => policy?_of_isPolicy) hpolicy
  have hsp : Value.field? fields "initial_sp" defaultStackPointer (fun v =>
      (Value.below? UInt8.size v).map UInt8.ofNat) = some sp :=
    Value.field?_of_field (f := id) hfields (by decide) (fun _ => byte?_of_isByte) hsp
  simp [readExecution, hfields, hpolicy, hsp]

/-! ## Reading both groups -/

variable {members : List (Quoted × Value)} {c : Config}

theorem ofValue?_of_describes (hreadable : Readable members) (h : Describes members c) :
    ofValue? (.object members) = some c := by
  obtain ⟨hlegible, hinner⟩ := hreadable
  have honce : ∀ name ∈ ["general", "execution"], ¬ Repeats members name := by
    simp [h.generalOnce, h.executionOnce]
  obtain ⟨fields, hfields⟩ := Value.exists_record?_iff.2 ⟨hlegible, honce⟩
  have hgeneral : Value.field? fields "general" {} (readGeneral {})
      = some { traceInstructions := c.traceInstructions, maxSteps := c.maxSteps } := by
    refine Value.field?_of_field
      (f := fun p => ({ traceInstructions := p.1, maxSteps := p.2 } : Config))
      hfields (by decide) (fun hv hmeans => readGeneral_of_isGeneral hmeans ?_) h.general
    rintro inner rfl
    exact hinner _ List.mem_cons_self inner hv
  have hexecution : Value.field? fields "execution"
      { traceInstructions := c.traceInstructions, maxSteps := c.maxSteps }
      (readExecution { traceInstructions := c.traceInstructions, maxSteps := c.maxSteps })
      = some c := by
    refine Value.field?_of_field
      (f := fun p => (⟨c.traceInstructions, c.maxSteps, p.1, p.2⟩ : Config))
      hfields (by decide) (fun hv hmeans => readExecution_of_isExecution hmeans ?_ _ _)
      h.execution
    rintro inner rfl
    exact hinner _ (List.mem_cons_of_mem _ List.mem_cons_self) inner hv
  simp [ofValue?, hfields, hgeneral, hexecution]

/-- Where a configuration is read, the records of both groups are. -/
theorem exists_record?_of_ofValue? (h : ofValue? (.object members) = some c) :
    (∃ fields, (Value.object members).record? ["general", "execution"] = some fields)
      ∧ ∀ group ∈ groups, ∀ inner, Gives members group.1 (.object inner) →
          ∃ fields, (Value.object inner).record? group.2 = some fields := by
  unfold ofValue? at h
  obtain ⟨fields, hfields, h⟩ := Option.bind_eq_some_iff.1 h
  obtain ⟨c₁, hgeneral, hexecution⟩ := Option.bind_eq_some_iff.1 h
  refine ⟨⟨fields, hfields⟩, fun group hgroup inner hinner => ?_⟩
  simp only [groups, List.mem_cons, List.not_mem_nil, or_false] at hgroup
  rcases hgroup with rfl | rfl
  · unfold Value.field? at hgeneral
    rw [(Value.lookup_record? hfields (by decide)).2 hinner] at hgeneral
    obtain ⟨inner, hinner, -⟩ := Option.bind_eq_some_iff.1 hgeneral
    exact ⟨inner, hinner⟩
  · unfold Value.field? at hexecution
    rw [(Value.lookup_record? hfields (by decide)).2 hinner] at hexecution
    obtain ⟨inner, hinner, -⟩ := Option.bind_eq_some_iff.1 hexecution
    exact ⟨inner, hinner⟩

theorem wellFormed_of_ofValue? (h : ofValue? (.object members) = some c) :
    Readable members ∧ ¬ Ambiguous members := by
  obtain ⟨hroot, hinner⟩ := exists_record?_of_ofValue? h
  obtain ⟨hlegible, honce⟩ := Value.exists_record?_iff.1 hroot
  refine ⟨⟨hlegible, fun group hgroup inner hgives => ?_⟩, ?_⟩
  · exact (Value.exists_record?_iff.1 (hinner group hgroup inner hgives)).1
  · rintro ⟨group, hgroup, hrepeats | ⟨inner, hgives, name, hname, hrepeats⟩⟩
    · have hname : group.1 ∈ ["general", "execution"] := List.mem_map_of_mem hgroup
      exact honce group.1 hname hrepeats
    · exact (Value.exists_record?_iff.1 (hinner group hgroup inner hgives)).2 name hname hrepeats

/-! ## Reading a text -/

theorem ofJson_of_layout {v : Value} {text : List Char} (h : Layout v.tokens text) :
    ofJson text = (ofValue? v).elim (.error .invalid) .ok := by
  unfold ofJson
  rw [Value.parse?_of_layout h, Option.bind_some]
  cases ofValue? v <;> rfl

/-- A text of an object whose keys are texts is read as the configuration that its members describe,
in any order, with any space and whatever else they hold. With a repeated name, or with a key that
is no text, it is not read. -/
theorem ofJson_object {members : List (Quoted × Value)} {text : List Char}
    (h : Layout (Value.object members).tokens text) :
    (∀ c, Readable members → Describes members c → ofJson text = .ok c)
      ∧ (Ambiguous members → ofJson text = .error .invalid)
      ∧ (¬ Readable members → ofJson text = .error .invalid) := by
  have hinvalid : ¬ (Readable members ∧ ¬ Ambiguous members) → ofJson text = .error .invalid := by
    intro hbad
    have hnone : ofValue? (.object members) = none :=
      Option.eq_none_iff_forall_ne_some.2 fun c hc => hbad (wellFormed_of_ofValue? hc)
    rw [ofJson_of_layout h, hnone]
    rfl
  refine ⟨fun c hreadable hdescribes => ?_, fun hambiguous => ?_, fun hunreadable => ?_⟩
  · rw [ofJson_of_layout h, ofValue?_of_describes hreadable hdescribes]
    rfl
  · exact hinvalid fun hgood => hgood.2 hambiguous
  · exact hinvalid fun hgood => hunreadable hgood.1

/-- A name may be spelled with escapes, and other names may be repeated. -/
theorem ofJson_object_escaped :
    Layout (Value.object [(.plain "execution".toList, .object [(.plain ['x'], .array []),
        (.plain "initial_sp".toList, .number ['1', '6']), (.plain ['x'], .array [])])]).tokens
      "\x7b\"\\u0065xecution\": \x7b\"x\":[],\"initial_sp\":16,\"x\":[]\x7d\x7d".toList
      ∧ ofJson "\x7b\"\\u0065xecution\": \x7b\"x\":[],\"initial_sp\":16,\"x\":[]\x7d\x7d".toList
        = .ok { initialSp := 16 } := by
  have hrest : Quoted.Spells (.plain "xecution".toList) "xecution".toList :=
    Quoted.spells_plain rfl
  have hname : Quoted.Spells (.plain "execution".toList) "\\u0065xecution".toList :=
    .cons (.unit (Json.isUnit_digits (n := 0x65) (by decide)) (.inl (by decide))) hrest
  have hsp : Quoted.Spells (.plain "initial_sp".toList) "initial_sp".toList :=
    Quoted.spells_plain rfl
  have hx : Quoted.Spells (.plain ['x']) ['x'] := Quoted.spells_plain rfl
  have hnumber : Json.IsNumber ['1', '6'] := isNumber_of_isDecimal (Numeral.isDecimal_toDigits 16)
  have hnone : Json.IsBlank [] := nofun
  have hblank : Json.IsBlank [' '] := by simp [Json.IsBlank, Json.spaces]
  refine (and_iff_left_of_imp fun hlayout => ?_).2 ?_
  · have hroot : (Value.object [(.plain "execution".toList, .object [(.plain ['x'], .array []),
          (.plain "initial_sp".toList, .number ['1', '6']), (.plain ['x'], .array [])])]).record?
        ["general", "execution"] = some [("execution", .object [(.plain ['x'], .array []),
          (.plain "initial_sp".toList, .number ['1', '6']), (.plain ['x'], .array [])])] := rfl
    have hgroup : (Value.object [(.plain ['x'], .array []),
          (.plain "initial_sp".toList, .number ['1', '6']), (.plain ['x'], .array [])]).record?
        ["unknown_instruction", "initial_sp"] = some [("initial_sp", .number ['1', '6'])] := rfl
    have honce := (Value.exists_record?_iff.1 ⟨_, hroot⟩).2
    have hgroupOnce := (Value.exists_record?_iff.1 ⟨_, hgroup⟩).2
    refine (ofJson_object hlayout).1 { initialSp := 16 } (wellFormed_of_ofValue? rfl).1
      ⟨honce _ (by decide), honce _ (by decide), .absent fun v hv => ?_,
        .given ((Value.lookup_record? hroot (by decide)).1 rfl) (.object (hgroupOnce _ (by decide))
          (hgroupOnce _ (by decide)) (.absent fun v hv => ?_)
          (.given ((Value.lookup_record? hgroup (by decide)).1 rfl)
            (.number (Numeral.isDecimal_toDigits 16))))⟩
    · cases (Value.lookup_record? hroot (by decide)).2 hv
    · cases (Value.lookup_record? hgroup (by decide)).2 hv
  · refine ⟨_, .cons .openBrace <| .cons (.string hname) <| .cons .colon <| .cons .openBrace <|
      .cons (.string hx) <| .cons .colon <| .cons .openBracket <| .cons .closeBracket <|
      .cons .comma <| .cons (.string hsp) <| .cons .colon <| .cons (.number hnumber) <|
      .cons .comma <| .cons (.string hx) <| .cons .colon <| .cons .openBracket <|
      .cons .closeBracket <| .cons .closeBrace <| .cons .closeBrace .nil, ?_⟩
    exact .cons hnone <| .cons hnone <| .cons hnone <| .cons hblank <| Json.spaced_flatten _

/-- A key that is an escaped half of a pair is no text, though it is not one of the names. -/
theorem ofJson_object_loneHalf :
    Layout (Value.object [([.half 0xD800], .number ['1'])]).tokens "\x7b\"\\ud800\":1\x7d".toList
      ∧ Describes [([.half 0xD800], .number ['1'])] {}
      ∧ ofJson "\x7b\"\\ud800\":1\x7d".toList = .error .invalid := by
  have hgives : ∀ (name : String) (v : Value),
      ¬ Gives [([.half 0xD800], .number ['1'])] name v := by
    rintro name v ⟨key, hmem, hkey⟩
    cases List.mem_singleton.1 hmem
    cases hkey
  have honce : ∀ name : String, ¬ Repeats [([.half 0xD800], .number ['1'])] name := by
    rintro name ⟨⟨key, v⟩, m', hsub, hkey, -⟩
    exact hgives name v ⟨key, hsub.mem List.mem_cons_self, hkey⟩
  refine ⟨?_, ⟨honce _, honce _, .absent (hgives _), .absent (hgives _)⟩, rfl⟩
  refine ⟨[['\x7b'], ['"', '\\', 'u', 'd', '8', '0', '0', '"'], [':'], ['1'], ['\x7d']], ?_,
    Json.spaced_flatten _⟩
  have hunit : Json.IsUnit ['d', '8', '0', '0'] 0xD800 :=
    Json.isUnit_digits (n := 0xD800) (by decide)
  have hone : Json.IsNumber ['1'] := isNumber_of_isDecimal (Numeral.isDecimal_toDigits 1)
  exact .cons .openBrace <| .cons (.string (.cons (.half hunit (by decide) (by decide)) .nil)) <|
    .cons .colon <| .cons (.number hone) <| .cons .closeBrace .nil

end Config

end LS8
