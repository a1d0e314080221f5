import LS8.Proofs.Config.Members

/-!
# Configurations by position

A configuration and its two groups are records of two fields each, and every record may be an array
of its fields in their order as well as an object. In any combination the configuration is the same
(`ofJson_arranged`); what is missing at the end of an array has its default, and an entry too many
is an error wherever the array is read.
-/

namespace LS8

namespace Config

open Json (Value Layout)
open Json.Value (Gathers)

/-! ## Arranging the settings -/

/-- The configuration with only the first settings of each group, and only those of the first
groups, and defaults for the others. -/
def kept (groups general execution : ℕ) (c : Config) : Config where
  traceInstructions := if 0 < groups ∧ 0 < general then c.traceInstructions else false
  maxSteps := if 0 < groups ∧ 1 < general then c.maxSteps else none
  unknownInstruction := if 1 < groups ∧ 0 < execution then c.unknownInstruction else .halt
  initialSp := if 1 < groups ∧ 1 < execution then c.initialSp else 0xF4

/-- The value gives so many of the groups of the configuration, with so many settings of each, all
three by name or by position. -/
inductive Arranged (c : Config) : ℕ → ℕ → ℕ → Value → Prop
  | mk {limit policy sp general execution v : Value} {i j k : ℕ} (isLimit : IsLimit limit c.maxSteps)
      (isPolicy : IsPolicy policy c.unknownInstruction) (isByte : IsByte sp c.initialSp)
      (first : Gathers [("trace_instructions", .bool c.traceInstructions), ("max_steps", limit)] j
        general)
      (second : Gathers [("unknown_instruction", policy), ("initial_sp", sp)] k execution)
      (groups : Gathers [("general", general), ("execution", execution)] i v) :
      Arranged c i j k v

/-- An array with more entries than a record of two fields has. -/
def IsOverlong (v : Value) : Prop :=
  ∃ items, v = .array items ∧ 2 < items.length

/-! ## Reading them -/

variable {c : Config}

theorem readGeneral_of_gathers {limit v : Value} {k : ℕ} {traces : Bool} {steps : Option UInt64}
    (hlimit : IsLimit limit steps)
    (h : Gathers [("trace_instructions", .bool traces), ("max_steps", limit)] k v) :
    readGeneral {} v = some { traceInstructions := if 0 < k then traces else false,
                              maxSteps := if 1 < k then steps else none } := by
  obtain ⟨given, hgiven, hfirst, hsecond⟩ := h.field? (by decide)
  have htraces : Value.field? given "trace_instructions" false Value.bool?
      = some (if 0 < k then traces else false) := by
    rw [hfirst]
    split_ifs <;> rfl
  have hsteps : Value.field? given "max_steps" none (Value.optional? fun v =>
      (Value.below? UInt64.size v).map UInt64.ofNat) = some (if 1 < k then steps else none) := by
    rw [hsecond, limit?_of_isLimit hlimit]
    split_ifs <;> rfl
  simp [readGeneral, hgiven, htraces, hsteps]

theorem readExecution_of_gathers {policy sp v : Value} {k : ℕ} {p : Policy} {b : UInt8}
    (hpolicy : IsPolicy policy p) (hsp : IsByte sp b)
    (h : Gathers [("unknown_instruction", policy), ("initial_sp", sp)] k v) {c : Config}
    (hdefault : c.unknownInstruction = .halt ∧ c.initialSp = 0xF4) :
    readExecution c v = some { c with unknownInstruction := if 0 < k then p else .halt,
                                      initialSp := if 1 < k then b else 0xF4 } := by
  obtain ⟨given, hgiven, hfirst, hsecond⟩ := h.field? (by decide)
  have hunknown : Value.field? given "unknown_instruction" c.unknownInstruction Policy.ofValue?
      = some (if 0 < k then p else .halt) := by
    rw [hfirst, policy?_of_isPolicy hpolicy, hdefault.1]
    split_ifs <;> rfl
  have hbyte : Value.field? given "initial_sp" c.initialSp (fun v =>
      (Value.below? UInt8.size v).map UInt8.ofNat) = some (if 1 < k then b else 0xF4) := by
    rw [hsecond, byte?_of_isByte hsp, hdefault.2]
    split_ifs <;> rfl
  simp [readExecution, hgiven, hunknown, hbyte]

theorem ofValue?_of_arranged {i j k : ℕ} {v : Value} (h : c.Arranged i j k v) :
    ofValue? v = some (c.kept i j k) := by
  obtain ⟨hlimit, hpolicy, hsp, hgeneral, hexecution, hgroups⟩ := h
  obtain ⟨given, hgiven, hfirst, hsecond⟩ := hgroups.field? (by decide)
  let c₁ : Config := { traceInstructions := if 0 < i ∧ 0 < j then c.traceInstructions else false,
                       maxSteps := if 0 < i ∧ 1 < j then c.maxSteps else none }
  have hread : Value.field? given "general" {} (readGeneral {}) = some c₁ := by
    rw [hfirst, readGeneral_of_gathers hlimit hgeneral]
    by_cases hi : 0 < i <;> simp [c₁, hi]
  have hread' : Value.field? given "execution" c₁ (readExecution c₁) = some (c.kept i j k) := by
    rw [hsecond, readExecution_of_gathers hpolicy hsp hexecution (c := c₁) ⟨rfl, rfl⟩]
    by_cases hi : 1 < i <;> simp [c₁, kept, hi, defaultStackPointer]
  simp [ofValue?, hgiven, hread, hread']

/-- An array that is too long is no record of two fields. -/
theorem record?_of_isOverlong {v : Value} (h : IsOverlong v) (m n : String) :
    v.record? [m, n] = none := by
  obtain ⟨items, rfl, hlong⟩ := h
  exact if_neg (Nat.not_le.2 hlong)

theorem ofValue?_of_isOverlong {v : Value} (h : IsOverlong v) : ofValue? v = none := by
  unfold ofValue?
  rw [record?_of_isOverlong h]
  rfl

theorem readGeneral_of_isOverlong {v : Value} (h : IsOverlong v) (c : Config) :
    readGeneral c v = none := by
  unfold readGeneral
  rw [record?_of_isOverlong h]
  rfl

theorem readExecution_of_isOverlong {v : Value} (h : IsOverlong v) (c : Config) :
    readExecution c v = none := by
  unfold readExecution
  rw [record?_of_isOverlong h]
  rfl

theorem ofValue?_of_isOverlong_group {general execution v : Value} {k : ℕ}
    (h : Gathers [("general", general), ("execution", execution)] k v)
    (hlong : (0 < k ∧ IsOverlong general) ∨ (1 < k ∧ IsOverlong execution)) :
    ofValue? v = none := by
  obtain ⟨given, hgiven, hfirst, hsecond⟩ := h.field? (by decide)
  rcases hlong with ⟨hk, hgeneral⟩ | ⟨hk, hexecution⟩
  · have hread : Value.field? given "general" {} (readGeneral {}) = none := by
      rw [hfirst, if_pos hk, readGeneral_of_isOverlong hgeneral]
    simp [ofValue?, hgiven, hread]
  · have hread : ∀ c, Value.field? given "execution" c (readExecution c) = none := by
      intro c
      rw [hsecond, if_pos hk, readExecution_of_isOverlong hexecution]
    simp [ofValue?, hgiven, hread]

/-! ## Reading a text -/

/-- A configuration is read from every arrangement of its settings: in full it is the same, and
without the last entries of the arrays it has the defaults in their place. It is not read from an
array with an entry too many, whether that is the whole or one of the groups. -/
theorem ofJson_arranged :
    (∀ c v text, Arranged c 2 2 2 v → Layout v.tokens text → ofJson text = .ok c)
      ∧ (∀ c i j k v text, Arranged c i j k v → Layout v.tokens text →
        ofJson text = .ok (c.kept i j k))
      ∧ (∀ v text, IsOverlong v → Layout v.tokens text → ofJson text = .error .invalid)
      ∧ ∀ general execution k v text,
        Gathers [("general", general), ("execution", execution)] k v →
        (0 < k ∧ IsOverlong general) ∨ (1 < k ∧ IsOverlong execution) →
        Layout v.tokens text → ofJson text = .error .invalid := by
  refine ⟨fun c v text h htext => ?_, fun c i j k v text h htext => ?_, fun v text h htext => ?_,
    fun general execution k v text h hlong htext => ?_⟩ <;> rw [ofJson_of_layout htext]
  · rw [ofValue?_of_arranged h]
    rfl
  · rw [ofValue?_of_arranged h]
    rfl
  · rw [ofValue?_of_isOverlong h]
    rfl
  · rw [ofValue?_of_isOverlong_group h hlong]
    rfl

/-- The settings by name in one group and by position in the other, where the last may be left out
but nothing added. -/
theorem ofJson_arranged_mixed :
    ofJson
        "[\x7b\"max_steps\":7,\"trace_instructions\":true\x7d,[\x7b\"skip\":null\x7d,16]]".toList
        = .ok ⟨true, some 7, .skip, 16⟩
      ∧ ofJson "[\x7b\"max_steps\":7,\"trace_instructions\":true\x7d,[]]".toList
        = .ok ⟨true, some 7, .halt, 0xF4⟩
      ∧ ofJson "[[],[],[]]".toList = .error .invalid
      ∧ ofJson "[[],[null,16,16]]".toList = .error .invalid := by
  have hplain : ∀ {text : List Char}, text.all Json.isPlain = true →
      Json.Token.Spells (.string (.plain text)) ('"' :: (text ++ ['"'])) :=
    fun htext => .string (Json.Quoted.spells_plain htext)
  have hsteps : Json.IsNumber ['7'] := Json.isNumber_of_isDecimal (Numeral.isDecimal_toDigits 7)
  have hsp : Json.IsNumber ['1', '6'] := Json.isNumber_of_isDecimal (Numeral.isDecimal_toDigits 16)
  have hgeneral : Gathers [("trace_instructions", .bool true), ("max_steps", .number ['7'])] 2
      (.object [(.plain "max_steps".toList, .number ['7']),
        (.plain "trace_instructions".toList, .bool true)]) :=
    .named (.swap ("trace_instructions", .bool true) ("max_steps", .number ['7']) [])
  have harranged : ∀ {k : ℕ} {execution : Value},
      Gathers [("unknown_instruction", .object [(.plain "skip".toList, .null)]),
        ("initial_sp", .number ['1', '6'])] k execution →
      Arranged ⟨true, some 7, .skip, 16⟩ 2 2 k (.array [.object [(.plain "max_steps".toList,
        .number ['7']), (.plain "trace_instructions".toList, .bool true)], execution]) :=
    fun hexecution => .mk (.number (Numeral.isDecimal_toDigits 7))
      (.key (Json.Quoted.denotes_plain _)) (.number (Numeral.isDecimal_toDigits 16)) hgeneral
      hexecution (.positional le_rfl)
  refine ⟨ofJson_arranged.1 _ _ _ (harranged (.positional le_rfl)) ?_,
    ofJson_arranged.2.1 ⟨true, some 7, .skip, 16⟩ 2 2 0 _ _
      (harranged (.positional (Nat.zero_le _))) ?_,
    ofJson_arranged.2.2.1 (.array [.array [], .array [], .array []]) _ ⟨_, rfl, by decide⟩ ?_,
    ofJson_arranged.2.2.2 (.array []) (.array [.null, .number ['1', '6'], .number ['1', '6']]) 2 _ _
      (.positional le_rfl) (.inr ⟨by decide, _, rfl, by decide⟩) ?_⟩
  · exact ⟨_, .cons .openBracket <| .cons .openBrace <| .cons (hplain rfl) <| .cons .colon <|
      .cons (.number hsteps) <| .cons .comma <| .cons (hplain rfl) <| .cons .colon <| .cons .true <|
      .cons .closeBrace <| .cons .comma <| .cons .openBracket <| .cons .openBrace <|
      .cons (hplain rfl) <| .cons .colon <| .cons .null <| .cons .closeBrace <| .cons .comma <|
      .cons (.number hsp) <| .cons .closeBracket <| .cons .closeBracket .nil, Json.spaced_flatten _⟩
  · exact ⟨_, .cons .openBracket <| .cons .openBrace <| .cons (hplain rfl) <| .cons .colon <|
      .cons (.number hsteps) <| .cons .comma <| .cons (hplain rfl) <| .cons .colon <| .cons .true <|
      .cons .closeBrace <| .cons .comma <| .cons .openBracket <| .cons .closeBracket <|
      .cons .closeBracket .nil, Json.spaced_flatten _⟩
  · exact ⟨_, .cons .openBracket <| .cons .openBracket <| .cons .closeBracket <| .cons .comma <|
      .cons .openBracket <| .cons .closeBracket <| .cons .comma <| .cons .openBracket <|
      .cons .closeBracket <| .cons .closeBracket .nil, Json.spaced_flatten _⟩
  · exact ⟨_, .cons .openBracket <| .cons .openBracket <| .cons .closeBracket <| .cons .comma <|
      .cons .openBracket <| .cons .null <| .cons .comma <| .cons (.number hsp) <| .cons .comma <|
      .cons (.number hsp) <| .cons .closeBracket <| .cons .closeBracket .nil, Json.spaced_flatten _⟩

end Config

end LS8
