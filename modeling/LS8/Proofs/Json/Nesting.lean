import LS8.Json.Value
import LS8.Proofs.Json.Spelling

/-!
# Values as tokens

A value determines its tokens: items and members follow one another with commas between them, in a
pair of brackets or braces. The parser reads these tokens back as the value, however deeply it is
nested, because what it has read of the containers that are still open is on its stack
(`run?_tokens`). So it reads every text that consists of the tokens of a value, in any spelling and
with any white space between them, as that value (`parse?_of_layout`).
-/

namespace LS8

namespace Json

namespace Value

mutual

def tokens : Value → List Token
  | .null => [.null]
  | .bool b => [.bool b]
  | .number literal => [.number literal]
  | .string text => [.string text]
  | .array items => .openBracket :: (itemTokens items ++ [.closeBracket])
  | .object members => .openBrace :: (memberTokens members ++ [.closeBrace])

def itemTokens : List Value → List Token
  | [] => []
  | [v] => v.tokens
  | v :: w :: more => v.tokens ++ .comma :: itemTokens (w :: more)

def memberTokens : List (Quoted × Value) → List Token
  | [] => []
  | [(name, v)] => .string name :: .colon :: v.tokens
  | (name, v) :: m :: more =>
    .string name :: .colon :: (v.tokens ++ .comma :: memberTokens (m :: more))

end

namespace Parser

/-- What the parser waits for after some more tokens. -/
def run? (p : Parser) (tokens : List Token) : Option Parser :=
  tokens.foldlM step p

theorem run?_cons {p q : Parser} {t : Token} {tokens : List Token} (h : p.step t = some q) :
    p.run? (t :: tokens) = q.run? tokens := by
  unfold run?
  rw [List.foldlM_cons, h]
  rfl

theorem run?_append {p q : Parser} {l₁ l₂ : List Token} (h : p.run? l₁ = some q) :
    p.run? (l₁ ++ l₂) = q.run? l₂ := by
  unfold run? at h ⊢
  rw [List.foldlM_append, h]
  rfl

/-- The parser takes the first token of a value inside these open containers. -/
def AwaitsValue (p : Parser) (stack : List Open) : Prop :=
  ∀ t, t ≠ .closeBracket → p.step t = begin? stack t

/-- The parser takes a key of an object with these members, inside these open containers. -/
def AwaitsKey (p : Parser) (members : List (Quoted × Value)) (stack : List Open) : Prop :=
  ∀ name, p.step (.string name) = some (.colon members name stack)

theorem awaitsValue_value (stack : List Open) : AwaitsValue (.value stack) stack :=
  fun _ _ => rfl

theorem awaitsValue_firstItem (stack : List Open) :
    AwaitsValue (.firstItem stack) (.array [] :: stack) := by
  intro t ht
  cases t with
  | closeBracket => exact absurd rfl ht
  | _ => rfl

theorem awaitsKey_key (members : List (Quoted × Value)) (stack : List Open) :
    AwaitsKey (.key members stack) members stack :=
  fun _ => rfl

theorem awaitsKey_firstKey (stack : List Open) : AwaitsKey (.firstKey stack) [] stack :=
  fun _ => rfl

mutual

theorem run?_tokens : ∀ (v : Value) {p : Parser} {stack : List Open}, p.AwaitsValue stack →
    p.run? v.tokens = some (.after v stack)
  | .null, p, stack, h => run?_cons (h .null nofun)
  | .bool b, p, stack, h => run?_cons (h (.bool b) nofun)
  | .number literal, p, stack, h => run?_cons (h (.number literal) nofun)
  | .string text, p, stack, h => run?_cons (h (.string text) nofun)
  | .array [], p, stack, h => run?_cons (h .openBracket nofun)
  | .array (v :: more), p, stack, h => by
    rw [tokens, run?_cons (h .openBracket nofun)]
    exact run?_itemTokens (v :: more) nofun (awaitsValue_firstItem stack)
  | .object [], p, stack, h => run?_cons (h .openBrace nofun)
  | .object (m :: more), p, stack, h => by
    rw [tokens, run?_cons (h .openBrace nofun)]
    exact run?_memberTokens (m :: more) nofun (awaitsKey_firstKey stack)

theorem run?_itemTokens : ∀ (items : List Value), items ≠ [] →
    ∀ {p : Parser} {done : List Value} {stack : List Open}, p.AwaitsValue (.array done :: stack) →
      p.run? (itemTokens items ++ [.closeBracket])
        = some (.after (.array (done.reverse ++ items)) stack)
  | [], hne, _, _, _, _ => absurd rfl hne
  | [v], _, p, done, stack, h => by
    rw [itemTokens, run?_append (run?_tokens v h)]
    simp [run?, step, follow?]
  | v :: w :: more, _, p, done, stack, h => by
    rw [itemTokens, List.append_assoc, run?_append (run?_tokens v h), List.cons_append,
      run?_cons (q := .value (.array (v :: done) :: stack)) rfl,
      run?_itemTokens (w :: more) nofun (awaitsValue_value _)]
    simp

theorem run?_memberTokens : ∀ (members : List (Quoted × Value)), members ≠ [] →
    ∀ {p : Parser} {done : List (Quoted × Value)} {stack : List Open}, p.AwaitsKey done stack →
      p.run? (memberTokens members ++ [.closeBrace])
        = some (.after (.object (done.reverse ++ members)) stack)
  | [], hne, _, _, _, _ => absurd rfl hne
  | [(name, v)], _, p, done, stack, h => by
    rw [memberTokens, List.cons_append, List.cons_append, run?_cons (h name),
      run?_cons (q := .value (.object done name :: stack)) rfl,
      run?_append (run?_tokens v (awaitsValue_value _))]
    simp [run?, step, follow?]
  | (name, v) :: m :: more, _, p, done, stack, h => by
    rw [memberTokens, List.cons_append, List.cons_append, List.append_assoc, run?_cons (h name),
      run?_cons (q := .value (.object done name :: stack)) rfl,
      run?_append (run?_tokens v (awaitsValue_value _)), List.cons_append,
      run?_cons (q := .key ((name, v) :: done) stack) rfl,
      run?_memberTokens (m :: more) nofun (awaitsKey_key _ _)]
    simp

end

/-- Behind a number the parser does not take another one. -/
theorem separated_of_run? : ∀ {tokens : List Token} {p q : Parser}, p.run? tokens = some q →
    Separated tokens
  | [], _, _, _ => .nil
  | [_], _, _, _ => .singleton _
  | s :: t :: more, p, q, h => by
    unfold run? at h
    rw [List.foldlM_cons] at h
    obtain ⟨r, hr, hmore⟩ := Option.bind_eq_some_iff.1 h
    refine List.isChain_cons_cons.2 ⟨fun hs => ?_, separated_of_run? hmore⟩
    rw [List.foldlM_cons] at hmore
    obtain ⟨u, hu, -⟩ := Option.bind_eq_some_iff.1 hmore
    cases s with
    | number literal =>
      obtain ⟨v, stack, rfl⟩ : ∃ v stack, r = .after v stack := by
        cases p with
        | value | firstItem => exact ⟨_, _, (Option.some_inj.1 hr).symm⟩
        | after v stack => cases stack with
          | nil => cases hr
          | cons o _ => cases o <;> cases hr
        | _ => cases hr
      cases t with
      | number _ =>
        cases stack with
        | nil => cases hu
        | cons o _ => cases o <;> cases hu
      | _ => rfl
    | _ => cases hs

end Parser

theorem ofTokens?_tokens (v : Value) : ofTokens? v.tokens = some v := by
  have hrun := Parser.run?_tokens v (Parser.awaitsValue_value [])
  unfold ofTokens?
  unfold Parser.run? at hrun
  rw [hrun]
  rfl

theorem separated_tokens (v : Value) : Separated v.tokens :=
  Parser.separated_of_run? (Parser.run?_tokens v (Parser.awaitsValue_value []))

/-- Tokens that are read as a value have no two numbers behind each other. -/
theorem separated_of_ofTokens? {tokens : List Token} {v : Value} (h : ofTokens? tokens = some v) :
    Separated tokens := by
  obtain ⟨p, hp, -⟩ := Option.bind_eq_some_iff.1 h
  exact Parser.separated_of_run? hp

/-- The parser reads a text of the value's tokens as the value. -/
theorem parse?_of_layout {v : Value} {text : List Char} (h : Layout v.tokens text) :
    parse? text = some v := by
  unfold parse?
  rw [tokens?_of_layout v.separated_tokens h, Option.bind_some, ofTokens?_tokens]

end Value

end Json

end LS8
