import LS8.Numeral

/-!
# Visible text

Text as it is shown on a terminal: the control characters that a terminal would obey are spelled
out, and nothing else changes (`visible_eq_self`). Tabs and line ends stay, since they only lay the
text out.
-/

namespace LS8

namespace Text

/-- The control characters of ASCII that are spelled out: bell, backspace, form feed, escape and
delete. -/
def commandChars : List Char :=
  ['\x07', '\x08', '\x0c', '\x1b', '\x7f']

/-- One of the C1 control characters, which follow ASCII. -/
def isC1Control (c : Char) : Bool :=
  0x80 ≤ c.toNat && c.toNat ≤ 0x9f

/-- A character as it is shown: a control character by its code in hexadecimal. -/
def visibleChar (c : Char) : List Char :=
  if c ∈ commandChars then '\\' :: 'x' :: Numeral.padded 16 2 c.toNat
  else if isC1Control c then '\\' :: 'u' :: '\x7b' :: Nat.toDigits 16 c.toNat ++ ['\x7d']
  else [c]

def visible (text : List Char) : List Char :=
  text.flatMap visibleChar

@[simp] theorem visible_append (s t : List Char) : visible (s ++ t) = visible s ++ visible t :=
  List.flatMap_append

theorem visible_eq_self {text : List Char}
    (h : ∀ c ∈ text, c ∉ commandChars ∧ isC1Control c = false) : visible text = text := by
  induction text with
  | nil => rfl
  | cons c rest ih =>
    obtain ⟨hc, hrest⟩ := List.forall_mem_cons.1 h
    have hshown : visibleChar c = [c] := by simp [visibleChar, hc.1, hc.2]
    have htail : visible rest = rest := ih hrest
    simp only [visible, List.flatMap_cons] at htail ⊢
    rw [hshown, htail, List.singleton_append]

end Text

end LS8
