import LS8.Proofs.Config.Members

/-!
# Configurations as written

The written form of a configuration consists of the tokens of a value (`spells_words`), the object
of two groups with all settings in them, and from this value the configuration is read
(`ofValue?_toValue`). So it is read back from its written form, with any white space between the
tokens (`ofJson_toJson`).
-/

namespace LS8

namespace Config

open Json (Quoted Value Token spells_decimal)

def generalValue (c : Config) : Value :=
  .object
    [(.plain "trace_instructions".toList, .bool c.traceInstructions),
     (.plain "max_steps".toList, c.maxSteps.elim .null fun n => .number (Nat.toDigits 10 n.toNat))]

def executionValue (c : Config) : Value :=
  .object
    [(.plain "unknown_instruction".toList, .string (.plain c.unknownInstruction.name.toList)),
     (.plain "initial_sp".toList, .number (Nat.toDigits 10 c.initialSp.toNat))]

/-- The value of the written form. -/
def toValue (c : Config) : Value :=
  .object
    [(.plain "general".toList, c.generalValue), (.plain "execution".toList, c.executionValue)]

/-- The written form, taken apart into its tokens. -/
def words (c : Config) : List String :=
  ["\x7b", "\"general\"", ":", "\x7b",
      "\"trace_instructions\"", ":", if c.traceInstructions then "true" else "false", ",",
      "\"max_steps\"", ":", c.maxSteps.elim "null" fun n => Numeral.decimal n.toNat, "\x7d", ",",
    "\"execution\"", ":", "\x7b",
      "\"unknown_instruction\"", ":", "\"" ++ c.unknownInstruction.name ++ "\"", ",",
      "\"initial_sp\"", ":", Numeral.decimal c.initialSp.toNat, "\x7d", "\x7d"]

theorem join_words (c : Config) : String.join c.words = c.toJson := by
  have hlimit : ∀ s : String, s ++ "," ++ "\"max_steps\"" ++ ":" = s ++ ",\"max_steps\":" := by
    simp [String.append_assoc]
  have hexecution : ∀ s : String, s ++ "\x7d" ++ "," ++ "\"execution\"" ++ ":" ++ "\x7b"
      ++ "\"unknown_instruction\"" ++ ":" ++ "\""
        = s ++ "\x7d,\"execution\":\x7b\"unknown_instruction\":\"" := by
    simp [String.append_assoc]
  have hsp : ∀ s : String,
      s ++ "\"" ++ "," ++ "\"initial_sp\"" ++ ":" = s ++ "\",\"initial_sp\":" := by
    simp [String.append_assoc]
  have hend : ∀ s : String, s ++ "\x7d" ++ "\x7d" = s ++ "\x7d\x7d" := by
    simp [String.append_assoc]
  unfold words toJson
  simp only [String.join, List.foldl_cons, List.foldl_nil, ← String.append_assoc, hlimit,
    hexecution, hsp, hend, String.reduceAppend]

theorem spells_flag (b : Bool) :
    Token.Spells (.bool b) (if b then "true" else "false").toList := by
  cases b
  · exact .false
  · exact .true

theorem spells_limit (limit : Option UInt64) :
    Token.Spells (limit.elim .null fun n => .number (Nat.toDigits 10 n.toNat))
      (limit.elim "null" fun n => Numeral.decimal n.toNat).toList := by
  cases limit with
  | none => exact .null
  | some n => exact spells_decimal n.toNat

theorem spells_policy (p : Policy) :
    Token.Spells (.string (.plain p.name.toList)) ("\"" ++ p.name ++ "\"").toList := by
  cases p <;> exact .string (Quoted.spells_plain rfl)

/-- The words are those of the value's tokens. -/
theorem spells_words (c : Config) :
    List.Forall₂ Token.Spells c.toValue.tokens (c.words.map String.toList) := by
  have hname : ∀ {text : List Char}, text.all Json.isPlain = true →
      Token.Spells (.string (.plain text)) ('"' :: (text ++ ['"'])) :=
    fun htext => .string (Quoted.spells_plain htext)
  have hlimit : (c.maxSteps.elim Value.null fun n => .number (Nat.toDigits 10 n.toNat)).tokens
      = [c.maxSteps.elim Token.null fun n => .number (Nat.toDigits 10 n.toNat)] := by
    cases c.maxSteps <;> rfl
  simp only [toValue, generalValue, executionValue, Value.tokens, Value.memberTokens, hlimit,
    List.cons_append, List.nil_append]
  exact .cons .openBrace <| .cons (hname rfl) <| .cons .colon <| .cons .openBrace <|
    .cons (hname rfl) <| .cons .colon <| .cons (spells_flag c.traceInstructions) <|
    .cons .comma <| .cons (hname rfl) <| .cons .colon <|
    .cons (spells_limit c.maxSteps) <| .cons .closeBrace <| .cons .comma <|
    .cons (hname rfl) <| .cons .colon <| .cons .openBrace <|
    .cons (hname rfl) <| .cons .colon <| .cons (spells_policy c.unknownInstruction) <|
    .cons .comma <| .cons (hname rfl) <| .cons .colon <|
    .cons (spells_decimal c.initialSp.toNat) <| .cons .closeBrace <| .cons .closeBrace .nil

theorem record?_generalValue (c : Config) :
    c.generalValue.record? ["trace_instructions", "max_steps"]
      = some [("trace_instructions", .bool c.traceInstructions),
        ("max_steps", c.maxSteps.elim .null fun n => .number (Nat.toDigits 10 n.toNat))] := rfl

theorem record?_executionValue (c : Config) :
    c.executionValue.record? ["unknown_instruction", "initial_sp"]
      = some [("unknown_instruction", .string (.plain c.unknownInstruction.name.toList)),
        ("initial_sp", .number (Nat.toDigits 10 c.initialSp.toNat))] := rfl

theorem isGeneral_generalValue (c : Config) :
    IsGeneral c.generalValue (c.traceInstructions, c.maxSteps) := by
  have hfields := c.record?_generalValue
  have honce := (Value.exists_record?_iff.1 ⟨_, hfields⟩).2
  have hlimit : IsLimit (c.maxSteps.elim .null fun n => .number (Nat.toDigits 10 n.toNat))
      c.maxSteps := by
    cases c.maxSteps with
    | none => exact .null
    | some n => exact .number (Numeral.isDecimal_toDigits n.toNat)
  exact .object (honce _ (by decide)) (honce _ (by decide))
    (.given ((Value.lookup_record? hfields (by decide)).1 rfl) (.bool _))
    (.given ((Value.lookup_record? hfields (by decide)).1 rfl) hlimit)

theorem isExecution_executionValue (c : Config) :
    IsExecution c.executionValue (c.unknownInstruction, c.initialSp) := by
  have hfields := c.record?_executionValue
  have honce := (Value.exists_record?_iff.1 ⟨_, hfields⟩).2
  exact .object (honce _ (by decide)) (honce _ (by decide))
    (.given ((Value.lookup_record? hfields (by decide)).1 rfl) (.name (Quoted.denotes_plain _)))
    (.given ((Value.lookup_record? hfields (by decide)).1 rfl)
      (.number (Numeral.isDecimal_toDigits c.initialSp.toNat)))

/-- With every setting given, none is left to its default. -/
theorem ofValue?_toValue (c : Config) : ofValue? c.toValue = some c := by
  have hfields : c.toValue.record? ["general", "execution"]
      = some [("general", c.generalValue), ("execution", c.executionValue)] := rfl
  obtain ⟨hlegible, honce⟩ := Value.exists_record?_iff.1 ⟨_, hfields⟩
  refine ofValue?_of_describes ⟨hlegible, fun group hgroup inner hinner => ?_⟩
    ⟨honce _ (by decide), honce _ (by decide),
      .given ((Value.lookup_record? hfields (by decide)).1 rfl) c.isGeneral_generalValue,
      .given ((Value.lookup_record? hfields (by decide)).1 rfl) c.isExecution_executionValue⟩
  simp only [groups, List.mem_cons, List.not_mem_nil, or_false] at hgroup
  rcases hgroup with rfl | rfl
  · cases (Value.lookup_record? hfields (by decide)).2 hinner
    exact (Value.exists_record?_iff.1 ⟨_, c.record?_generalValue⟩).1
  · cases (Value.lookup_record? hfields (by decide)).2 hinner
    exact (Value.exists_record?_iff.1 ⟨_, c.record?_executionValue⟩).1

theorem ofJson_of_spaced (c : Config) {text : List Char}
    (h : Json.Spaced (c.words.map String.toList) text) : ofJson text = .ok c := by
  rw [ofJson_of_layout ⟨_, c.spells_words, h⟩, ofValue?_toValue]
  rfl

theorem spaced_toJson (c : Config) :
    Json.Spaced (c.words.map String.toList) c.toJson.toList := by
  rw [← join_words, String.toList_join, List.flatMap_def]
  exact Json.spaced_flatten _

/-- What is written is read back, with any white space between the tokens, and so is what has been
read from any text and is then written. -/
theorem ofJson_toJson : (∀ c : Config, String.join c.words = c.toJson
      ∧ (∀ text, Json.Spaced (c.words.map String.toList) text → ofJson text = .ok c)
      ∧ ofJson c.toJson.toList = .ok c)
    ∧ ∀ text, (ofJson text).bind (fun c => ofJson c.toJson.toList) = ofJson text := by
  have hback : ∀ c : Config, ofJson c.toJson.toList = .ok c :=
    fun c => ofJson_of_spaced c c.spaced_toJson
  refine ⟨fun c => ⟨c.join_words, fun _ => ofJson_of_spaced c, hback c⟩, fun text => ?_⟩
  cases ofJson text with
  | error e => rfl
  | ok c =>
    unfold Except.bind
    exact hback c

theorem ofJson_toJson_largest :
    Json.Spaced ((Config.mk true (some 18446744073709551615) .skip 255).words.map String.toList)
        (((Config.mk true (some 18446744073709551615) .skip 255).words.map String.toList).flatMap
          (['\r', '\n'] ++ ·))
      ∧ ofJson (((Config.mk true (some 18446744073709551615) .skip 255).words.map
            String.toList).flatMap (['\r', '\n'] ++ ·))
        = .ok ⟨true, some 18446744073709551615, .skip, 255⟩ := by
  have hblank : Json.IsBlank ['\r', '\n'] := by simp [Json.IsBlank, Json.spaces]
  have hspaced := Json.spaced_flatMap hblank
    ((Config.mk true (some 18446744073709551615) .skip 255).words.map String.toList)
  exact ⟨hspaced, (ofJson_toJson.1 _).2.1 _ hspaced⟩

end Config

end LS8
