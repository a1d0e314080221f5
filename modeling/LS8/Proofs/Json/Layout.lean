import LS8.Proofs.Json.Nesting
import LS8.Proofs.Json.Record

/-!
# Texts of tokens put together

Texts of tokens with white space around them may be put one behind the other (`Layout.append`), so
a text can be checked part by part. The text of an object is that of its members with a comma
between them, wherever it is indented (`layout_object`).
-/

namespace LS8

namespace Json

theorem IsBlank.append {s t : List Char} (hs : IsBlank s) (ht : IsBlank t) : IsBlank (s ++ t) :=
  List.forall_mem_append.2 ⟨hs, ht⟩

/-- White space may be put in front. -/
theorem Spaced.blank_append {blank text : List Char} {words : List (List Char)}
    (hblank : IsBlank blank) (h : Spaced words text) : Spaced words (blank ++ text) := by
  cases h with
  | nil hspace => exact .nil (hblank.append hspace)
  | cons hspace hrest =>
    rw [← List.append_assoc]
    exact .cons (hblank.append hspace) hrest

theorem Spaced.append {words₁ words₂ : List (List Char)} {s t : List Char} (hs : Spaced words₁ s)
    (ht : Spaced words₂ t) : Spaced (words₁ ++ words₂) (s ++ t) := by
  induction hs with
  | nil hspace => exact ht.blank_append hspace
  | cons hspace _ ih =>
    rw [List.append_assoc, List.append_assoc]
    exact .cons hspace ih

theorem Layout.append {tokens₁ tokens₂ : List Token} {s t : List Char} (hs : Layout tokens₁ s)
    (ht : Layout tokens₂ t) : Layout (tokens₁ ++ tokens₂) (s ++ t) := by
  obtain ⟨words₁, hwords₁, hspaced₁⟩ := hs
  obtain ⟨words₂, hwords₂, hspaced₂⟩ := ht
  exact ⟨words₁ ++ words₂, List.rel_append hwords₁ hwords₂, hspaced₁.append hspaced₂⟩

theorem layout_blank {blank : List Char} (h : IsBlank blank) : Layout [] blank :=
  ⟨[], .nil, .nil h⟩

theorem layout_token {t : Token} {word : List Char} (h : t.Spells word) : Layout [t] word := by
  have hspaced := spaced_flatten [word]
  rw [List.flatten_singleton] at hspaced
  exact ⟨[word], .cons h .nil, hspaced⟩

/-- A token may be put in front. -/
theorem Layout.cons {t : Token} {tokens : List Token} {word text : List Char} (hword : t.Spells word)
    (h : Layout tokens text) : Layout (t :: tokens) (word ++ text) :=
  (layout_token hword).append h

namespace Value

/-- The text of a member whose name needs no escapes. -/
theorem layout_member {name blank text : List Char} {v : Value} (hname : name.all isPlain = true)
    (hblank : IsBlank blank) (h : Layout v.tokens text) :
    Layout (.string (.plain name) :: .colon :: v.tokens)
      ('"' :: (name ++ ['"']) ++ (':' :: (blank ++ text))) :=
  .cons (.string (Quoted.spells_plain hname)) (.cons .colon ((layout_blank hblank).append h))

/-- The members have these texts, with the same white space behind each comma. -/
theorem layout_memberTokens {blank : List Char} (hblank : IsBlank blank) :
    ∀ {members : List (Quoted × Value)} {texts : List (List Char)},
      List.Forall₂ (fun m text => Layout (.string m.1 :: .colon :: m.2.tokens) text) members texts →
        Layout (memberTokens members) ((',' :: blank).intercalate texts)
  | [], _, .nil => layout_blank (List.forall_mem_nil _)
  | [m], _, .cons hm .nil => by
    rw [List.intercalate_singleton]
    exact hm
  | m :: n :: more, _, .cons hm (.cons hn hmore) => by
    have hcomma : Layout [.comma] (',' :: blank) := .cons .comma (layout_blank hblank)
    rw [List.intercalate_cons_cons, memberTokens, List.append_assoc]
    exact hm.append (hcomma.append (layout_memberTokens hblank (.cons hn hmore)))

theorem layout_object {first between last : List Char} (hfirst : IsBlank first)
    (hbetween : IsBlank between) (hlast : IsBlank last) {members : List (Quoted × Value)}
    {texts : List (List Char)} (h : List.Forall₂
      (fun m text => Layout (.string m.1 :: .colon :: m.2.tokens) text) members texts) :
    Layout (object members).tokens
      ('\x7b' :: (first ++ ((',' :: between).intercalate texts ++ (last ++ ['\x7d'])))) := by
  have hmembers := layout_memberTokens hbetween h
  exact .cons .openBrace ((layout_blank hfirst).append
    (hmembers.append ((layout_blank hlast).append (layout_token .closeBrace))))

end Value

end Json

end LS8
