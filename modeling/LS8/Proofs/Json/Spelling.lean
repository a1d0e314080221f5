import LS8.Json.Token
import LS8.Proofs.Numeral
import Mathlib.Data.List.Chain
import Mathlib.Data.List.Forall2

/-!
# How tokens are spelled

The lexical grammar of JSON. A number has an integer part and may have a sign, a fraction and an
exponent; a character of a string stands for itself, or is written by a letter or by its code unit
behind a backslash; and between tokens there may be white space. The scanner reads a text of spelled
tokens back as these tokens (`tokens?_of_layout`). Two numbers must not follow each other, since
without space between them they would be one.
-/

namespace LS8

namespace Json

/-! ## The grammar -/

/-- The characters of white space. -/
def spaces : List Char :=
  [' ', '\t', '\n', '\r']

def IsBlank (text : List Char) : Prop :=
  ∀ c ∈ text, c ∈ spaces

/-- The text consists of the words, with white space around them. -/
inductive Spaced : List (List Char) → List Char → Prop
  | nil {blank : List Char} (space : IsBlank blank) : Spaced [] blank
  | cons {blank word text : List Char} {words : List (List Char)} (space : IsBlank blank)
      (rest : Spaced words text) : Spaced (word :: words) (blank ++ (word ++ text))

def IsDigits (text : List Char) : Prop :=
  text ≠ [] ∧ ∀ c ∈ text, c.isDigit = true

/-- Digits without a zero in front of others. -/
inductive IsInteger : List Char → Prop
  | zero : IsInteger ['0']
  | digits {first : Char} {more : List Char} (lead : first ≠ '0') (digit : first.isDigit = true)
      (digits : ∀ c ∈ more, c.isDigit = true) : IsInteger (first :: more)

inductive IsFraction : List Char → Prop
  | nil : IsFraction []
  | point {text : List Char} (digits : IsDigits text) : IsFraction ('.' :: text)

inductive IsExponent : List Char → Prop
  | nil : IsExponent []
  | letter {e : Char} {sign text : List Char} (marks : e = 'e' ∨ e = 'E')
      (signs : sign = [] ∨ sign = ['+'] ∨ sign = ['-']) (digits : IsDigits text) :
      IsExponent (e :: (sign ++ text))

inductive IsNumber : List Char → Prop
  | mk {sign integer fraction exponent : List Char} (signs : sign = [] ∨ sign = ['-'])
      (whole : IsInteger integer) (part : IsFraction fraction) (scale : IsExponent exponent) :
      IsNumber (sign ++ (integer ++ (fraction ++ exponent)))

/-- The letters that may follow a backslash, with the characters they stand for. -/
def shortEscapes : List (Char × Char) :=
  [('"', '"'), ('\\', '\\'), ('/', '/'), ('b', '\x08'), ('f', '\x0c'), ('n', '\n'), ('r', '\r'),
   ('t', '\t')]

def IsHexDigit (c : Char) (n : ℕ) : Prop :=
  n < 16 ∧ (c = n.digitChar ∨ c = n.digitChar.toUpper)

/-- Four hexadecimal digits spell a code unit. -/
inductive IsUnit : List Char → ℕ → Prop
  | mk {a b c d : Char} {i j k l : ℕ} (first : IsHexDigit a i) (second : IsHexDigit b j)
      (third : IsHexDigit c k) (fourth : IsHexDigit d l) :
      IsUnit [a, b, c, d] (((i * 16 + j) * 16 + k) * 16 + l)

inductive Element.Spells : Element → List Char → Prop
  | plain {c : Char} (visible : 0x20 ≤ c.toNat) (quote : c ≠ '"') (backslash : c ≠ '\\') :
      Spells (.char c) [c]
  | short {letter c : Char} (escape : (letter, c) ∈ shortEscapes) : Spells (.char c) ['\\', letter]
  | unit {digits : List Char} {n : ℕ} (spelled : IsUnit digits n)
      (whole : n < 0xD800 ∨ 0xE000 ≤ n) : Spells (.char (Char.ofNat n)) ('\\' :: 'u' :: digits)
  | half {digits : List Char} {n : ℕ} (spelled : IsUnit digits n) (ge : 0xD800 ≤ n)
      (lt : n < 0xE000) : Spells (.half n) ('\\' :: 'u' :: digits)

inductive Quoted.Spells : Quoted → List Char → Prop
  | nil : Spells [] []
  | cons {e : Element} {more : Quoted} {word text : List Char} (first : e.Spells word)
      (rest : Spells more text) : Spells (e :: more) (word ++ text)

inductive Token.Spells : Token → List Char → Prop
  | openBrace : Spells .openBrace ['\x7b']
  | closeBrace : Spells .closeBrace ['\x7d']
  | openBracket : Spells .openBracket ['[']
  | closeBracket : Spells .closeBracket [']']
  | colon : Spells .colon [':']
  | comma : Spells .comma [',']
  | null : Spells .null ['n', 'u', 'l', 'l']
  | true : Spells (.bool true) ['t', 'r', 'u', 'e']
  | false : Spells (.bool false) ['f', 'a', 'l', 's', 'e']
  | number {literal : List Char} (grammatical : IsNumber literal) :
      Spells (.number literal) literal
  | string {text : Quoted} {body : List Char} (spelled : Quoted.Spells text body) :
      Spells (.string text) ('"' :: (body ++ ['"']))

/-- The text consists of the tokens, each in one of its spellings, with white space around them. -/
def Layout (tokens : List Token) (text : List Char) : Prop :=
  ∃ words, List.Forall₂ Token.Spells tokens words ∧ Spaced words text

def Token.isNumber : Token → Bool
  | .number _ => true
  | _ => false

/-- No two numbers follow each other. -/
def Separated (tokens : List Token) : Prop :=
  tokens.IsChain fun s t => s.isNumber = true → t.isNumber = false

/-! ## Plain spellings -/

/-- The words with the same white space in front of each. -/
theorem spaced_flatMap {blank : List Char} (h : IsBlank blank) :
    ∀ words : List (List Char), Spaced words (words.flatMap (blank ++ ·))
  | [] => .nil (List.forall_mem_nil _)
  | word :: words => by
    rw [List.flatMap_cons, List.append_assoc]
    exact .cons h (spaced_flatMap h words)

theorem spaced_flatten (words : List (List Char)) : Spaced words words.flatten := by
  have hnone : IsBlank [] := List.forall_mem_nil _
  have hwords := spaced_flatMap hnone words
  rwa [List.flatMap_def, List.map_id'' List.nil_append] at hwords

/-- The characters of a string that need no escape. -/
def isPlain (c : Char) : Bool :=
  0x20 ≤ c.toNat && c != '"' && c != '\\'

theorem Quoted.spells_plain : ∀ {text : List Char}, text.all isPlain = true →
    Quoted.Spells (text.map .char) text
  | [], _ => .nil
  | c :: text, h => by
    simp only [List.all_cons, isPlain, Bool.and_eq_true, decide_eq_true_eq, bne_iff_ne] at h
    obtain ⟨⟨⟨hvisible, hquote⟩, hbackslash⟩, htext⟩ := h
    exact .cons (.plain hvisible hquote hbackslash) (spells_plain htext)

theorem isUnit_digits {n : ℕ} (h : n < 0x10000) : IsUnit [(n / 0x1000).digitChar,
    (n / 0x100 % 16).digitChar, (n / 0x10 % 16).digitChar, (n % 16).digitChar] n := by
  have hn : ((n / 0x1000 * 16 + n / 0x100 % 16) * 16 + n / 0x10 % 16) * 16 + n % 16 = n := by omega
  have hspelled : IsUnit _
      (((n / 0x1000 * 16 + n / 0x100 % 16) * 16 + n / 0x10 % 16) * 16 + n % 16) :=
    .mk ⟨by omega, .inl rfl⟩ ⟨by omega, .inl rfl⟩ ⟨by omega, .inl rfl⟩ ⟨by omega, .inl rfl⟩
  rwa [hn] at hspelled

/-! ## Decimal numerals -/

theorem isNumber_of_isDecimal {digits : List Char} {n : ℕ} (h : Numeral.IsDecimal digits n) :
    IsNumber digits := by
  have hinteger : IsInteger digits := by
    obtain ⟨hne, hdigit, hlead, -⟩ := h
    cases digits with
    | nil => exact absurd rfl hne
    | cons first more =>
      obtain ⟨hfirst, hmore⟩ := List.forall_mem_cons.1 hdigit
      by_cases hzero : first = '0'
      · rw [hlead (by rw [hzero]; rfl)]
        exact .zero
      · exact .digits hzero hfirst hmore
  have hnumber := IsNumber.mk (.inl rfl) hinteger .nil .nil
  rwa [List.nil_append, List.append_nil, List.append_nil] at hnumber

theorem spells_decimal (n : ℕ) :
    Token.Spells (.number (Nat.toDigits 10 n)) (Numeral.decimal n).toList := by
  rw [Numeral.decimal, String.toList_ofList]
  exact .number (isNumber_of_isDecimal (Numeral.isDecimal_toDigits n))

/-! ## Numbers -/

namespace NumberPart

/-- Where a number stands after some more characters. -/
def run? (part : NumberPart) (text : List Char) : Option NumberPart :=
  text.foldlM next? part

theorem run?_append {p q r : NumberPart} {s t : List Char} (hs : p.run? s = some q)
    (ht : q.run? t = some r) : p.run? (s ++ t) = some r := by
  unfold run? at hs ht ⊢
  rw [List.foldlM_append, hs]
  exact ht

theorem run?_cons {p q r : NumberPart} {c : Char} {t : List Char} (hc : p.next? c = some q)
    (ht : q.run? t = some r) : p.run? (c :: t) = some r := by
  unfold run? at ht ⊢
  rw [List.foldlM_cons, hc]
  exact ht

theorem run?_of_stays {p : NumberPart} (h : ∀ c : Char, c.isDigit = true → p.next? c = some p) :
    ∀ {text : List Char}, (∀ c ∈ text, c.isDigit = true) → p.run? text = some p
  | [], _ => rfl
  | c :: text, hdigits => by
    rw [List.forall_mem_cons] at hdigits
    exact run?_cons (h c hdigits.1) (run?_of_stays h hdigits.2)

/-- Digits lead from where the first one is due to where more may follow. -/
theorem run?_digits {p q : NumberPart} (hfirst : ∀ c : Char, c.isDigit = true → p.next? c = some q)
    (hstays : ∀ c : Char, c.isDigit = true → q.next? c = some q) {text : List Char}
    (h : IsDigits text) : p.run? text = some q := by
  obtain ⟨hne, hdigits⟩ := h
  cases text with
  | nil => exact absurd rfl hne
  | cons c text =>
    rw [List.forall_mem_cons] at hdigits
    exact run?_cons (hfirst c hdigits.1) (run?_of_stays hstays hdigits.2)

/-- The integer part of a number is complete, and nothing follows it yet. -/
def EndsInteger (p : NumberPart) : Prop :=
  p = .zero ∨ p = .integer

/-- So is the fraction, if there is one. -/
def EndsFraction (p : NumberPart) : Prop :=
  p.EndsInteger ∨ p = .fraction

theorem run?_integer {text : List Char} (h : IsInteger text) :
    ∃ c more p q, text = c :: more ∧ first? c = some p ∧ sign.next? c = some p
      ∧ p.run? more = some q ∧ q.EndsInteger := by
  cases h with
  | zero => exact ⟨'0', [], .zero, .zero, rfl, rfl, rfl, rfl, .inl rfl⟩
  | @digits first more hlead hfirst hmore =>
    have hminus : first ≠ '-' := by
      rintro rfl
      cases hfirst
    refine ⟨first, more, .integer, .integer, rfl, ?_, ?_, run?_of_stays ?_ hmore, .inr rfl⟩
    · simp [first?, hlead, hfirst, hminus]
    · simp [next?, hlead, hfirst]
    · intro c hc
      simp [next?, hc]

theorem next?_of_endsInteger {p : NumberPart} (h : p.EndsInteger) {c : Char}
    (hc : c.isDigit = false) : p.next? c = next?.tail? c := by
  rcases h with rfl | rfl <;> simp [next?, hc]

theorem run?_fraction {p : NumberPart} (hp : p.EndsInteger) {text : List Char}
    (h : IsFraction text) : ∃ q, p.run? text = some q ∧ q.EndsFraction := by
  cases h with
  | nil => exact ⟨p, rfl, .inl hp⟩
  | point hdigits =>
    have hpoint : p.next? '.' = some .point := next?_of_endsInteger hp (by decide)
    refine ⟨.fraction, run?_cons hpoint (run?_digits ?_ ?_ hdigits), .inr rfl⟩ <;>
    · intro c hc
      simp [next?, hc]

theorem run?_exponent {p : NumberPart} (hp : p.EndsFraction) {text : List Char}
    (h : IsExponent text) : ∃ q, p.run? text = some q ∧ q.isComplete = true := by
  cases h with
  | nil => exact ⟨p, rfl, by rcases hp with (rfl | rfl) | rfl <;> rfl⟩
  | @letter e s digits hmarks hsigns hdigits =>
    have hletter : p.next? e = some .letter := by
      rcases hmarks with rfl | rfl <;> rcases hp with (rfl | rfl) | rfl <;> rfl
    refine ⟨.exponent, run?_cons hletter ?_, rfl⟩
    have hafter : ∀ q : NumberPart, q = .exponentSign ∨ q = .exponent →
        ∀ c : Char, c.isDigit = true → q.next? c = some .exponent := by
      rintro q (rfl | rfl) c hc <;> simp [next?, hc]
    rcases hsigns with rfl | rfl | rfl
    · refine run?_digits (fun c hc => ?_) (hafter _ (.inr rfl)) hdigits
      have hsign : ¬ (c = '+' ∨ c = '-') := by
        rintro (rfl | rfl) <;> cases hc
      simp [next?, hc, hsign]
    · exact run?_cons rfl (run?_digits (hafter _ (.inl rfl)) (hafter _ (.inr rfl)) hdigits)
    · exact run?_cons rfl (run?_digits (hafter _ (.inl rfl)) (hafter _ (.inr rfl)) hdigits)

/-- The text is scanned as one number. -/
def Scans (text : List Char) : Prop :=
  ∃ c more p q, text = c :: more ∧ first? c = some p ∧ p.run? more = some q ∧ q.isComplete = true

/-- The scanner finds its way through every number. -/
theorem scans_of_isNumber {text : List Char} (h : IsNumber text) : Scans text := by
  obtain ⟨hsigns, hwhole, hpart, hscale⟩ := h
  obtain ⟨c, more, p, q, rfl, hfirst, hsigned, hq, hends⟩ := run?_integer hwhole
  obtain ⟨r, hr, hends⟩ := run?_fraction hends hpart
  obtain ⟨s, hs, hcomplete⟩ := run?_exponent hends hscale
  have hrun := run?_append hq (run?_append hr hs)
  rcases hsigns with rfl | rfl
  · exact ⟨c, _, p, s, rfl, hfirst, hrun, hcomplete⟩
  · exact ⟨'-', _, .sign, s, rfl, rfl, run?_cons hsigned hrun, hcomplete⟩

/-- A number is over where none of the characters follows that could go on with it. -/
theorem next?_of_complete {p : NumberPart} (hp : p.isComplete = true) {c : Char}
    (hdigit : c.isDigit = false) (hmark : c ≠ '.' ∧ c ≠ 'e' ∧ c ≠ 'E') : p.next? c = none := by
  obtain ⟨hpoint, he, hE⟩ := hmark
  cases p with
  | sign | point | letter | exponentSign => cases hp
  | zero | integer | fraction | exponent =>
    simp [next?, next?.tail?, next?.letter?, hdigit, hpoint, he, hE]

end NumberPart

/-! ## Scanning -/

/-- What follows cannot belong to a number in front of it. -/
def EndsNumber (text : List Char) : Prop :=
  ∀ c ∈ text.head?, c.isDigit = false ∧ c ≠ '.' ∧ c ≠ 'e' ∧ c ≠ 'E'

namespace Scanner

/-- The tokens read so far and those of the text, if it goes on from where the scanner stands. -/
def scan? (s : Scanner) (text : List Char) : Option (List Token) :=
  (text.foldlM step s).bind finish

variable {ts : List Token} {rest : List Char}

theorem scan?_cons {s t : Scanner} {c : Char} (h : s.step c = some t) :
    s.scan? (c :: rest) = t.scan? rest := by
  unfold scan?
  rw [List.foldlM_cons, h]
  rfl

theorem step_between_of_space {c : Char} (h : c ∈ spaces) :
    (⟨ts, .between⟩ : Scanner).step c = some ⟨ts, .between⟩ := by
  have hspace : isSpace c = true := by
    simp only [spaces, List.mem_cons, List.not_mem_nil, or_false] at h
    rcases h with rfl | rfl | rfl | rfl <;> rfl
  simp [step, begin?, hspace]

theorem scan?_blank : ∀ {blank : List Char}, IsBlank blank →
    scan? ⟨ts, .between⟩ (blank ++ rest) = scan? ⟨ts, .between⟩ rest
  | [], _ => rfl
  | c :: blank, h => by
    obtain ⟨hc, hblank⟩ := List.forall_mem_cons.1 h
    rw [List.cons_append, scan?_cons (step_between_of_space hc), scan?_blank hblank]

/-! ### Numbers -/

theorem begin?_of_first? {c : Char} {p : NumberPart} (h : NumberPart.first? c = some p) :
    begin? ts c = some ⟨ts, .number p [c]⟩ := by
  have hspace : isSpace c = false := by
    by_contra hspace
    simp only [isSpace, Bool.not_eq_false, Bool.or_eq_true, decide_eq_true_eq] at hspace
    rcases hspace with ((rfl | rfl) | rfl) | rfl <;> cases h
  have hquote : c ≠ '"' := by
    rintro rfl
    cases h
  have hpunctuation : punctuation? c = none := by
    unfold punctuation?
    split <;> first | rfl | cases h
  have hword : word? c = none := by
    unfold word?
    split <;> first | rfl | cases h
  simp [begin?, hspace, hquote, hpunctuation, hword, h]

theorem scan?_run? : ∀ {text : List Char} {p q : NumberPart} {read : List Char},
    p.run? text = some q →
      scan? ⟨ts, .number p read⟩ (text ++ rest)
        = scan? ⟨ts, .number q (text.reverse ++ read)⟩ rest
  | [], p, q, read, h => by
    cases h
    rfl
  | c :: text, p, q, read, h => by
    unfold NumberPart.run? at h
    rw [List.foldlM_cons] at h
    obtain ⟨r, hr, hrest⟩ := Option.bind_eq_some_iff.1 h
    have hstep : (⟨ts, .number p read⟩ : Scanner).step c = some ⟨ts, .number r (c :: read)⟩ := by
      simp [step, hr]
    rw [List.cons_append, scan?_cons hstep, scan?_run? hrest, List.reverse_cons, List.append_assoc,
      List.singleton_append]

/-- A number ends where something follows that cannot belong to it. -/
theorem scan?_complete {p : NumberPart} {read : List Char} (hp : p.isComplete = true)
    (hrest : EndsNumber rest) :
    scan? ⟨ts, .number p read⟩ rest = scan? ⟨.number read.reverse :: ts, .between⟩ rest := by
  cases rest with
  | nil => simp [scan?, finish, hp]
  | cons c rest =>
    obtain ⟨hdigit, hmark⟩ := hrest c rfl
    have hnext := NumberPart.next?_of_complete hp hdigit hmark
    have hstep : (⟨ts, .number p read⟩ : Scanner).step c
        = (⟨.number read.reverse :: ts, .between⟩ : Scanner).step c := by
      simp [step, hnext, hp, hdigit]
    unfold scan?
    rw [List.foldlM_cons, List.foldlM_cons, hstep]

theorem scan?_number {literal : List Char} (h : NumberPart.Scans literal)
    (hrest : EndsNumber rest) :
    scan? ⟨ts, .between⟩ (literal ++ rest) = scan? ⟨.number literal :: ts, .between⟩ rest := by
  obtain ⟨c, more, p, q, rfl, hfirst, hrun, hcomplete⟩ := h
  have hstep : (⟨ts, .between⟩ : Scanner).step c = some ⟨ts, .number p [c]⟩ :=
    begin?_of_first? hfirst
  rw [List.cons_append, scan?_cons hstep, scan?_run? hrun, scan?_complete hcomplete hrest]
  simp

/-! ### Strings -/

theorem hexDigit?_of_isHexDigit {c : Char} {n : ℕ} (h : IsHexDigit c n) : hexDigit? c = some n := by
  have hdigits : ∀ n < 16, hexDigit? n.digitChar = some n
      ∧ hexDigit? n.digitChar.toUpper = some n := by decide
  obtain ⟨hn, rfl | rfl⟩ := h
  · exact (hdigits n hn).1
  · exact (hdigits n hn).2

theorem scan?_unit {read : Quoted} {digits : List Char} {n : ℕ} (h : IsUnit digits n) :
    scan? ⟨ts, .string read⟩ ('\\' :: 'u' :: (digits ++ rest))
      = scan? ⟨ts, .string (elementOfUnit n :: read)⟩ rest := by
  obtain ⟨ha, hb, hc, hd⟩ := h
  rename_i a b c d i j k l
  have hstep : ∀ {c : Char} {n : ℕ}, IsHexDigit c n → ∀ left value : ℕ,
      (⟨ts, .unit (left + 2) value read⟩ : Scanner).step c
        = some ⟨ts, .unit (left + 1) (16 * value + n) read⟩ := by
    intro c n hn left value
    simp [step, hexDigit?_of_isHexDigit hn]
  have hlast : (⟨ts, .unit 1 (16 * (16 * (16 * 0 + i) + j) + k) read⟩ : Scanner).step d
      = some ⟨ts, .string (elementOfUnit (((i * 16 + j) * 16 + k) * 16 + l) :: read)⟩ := by
    have hvalue : 16 * (16 * (16 * (16 * 0 + i) + j) + k) + l
        = ((i * 16 + j) * 16 + k) * 16 + l := by omega
    simp only [step, hexDigit?_of_isHexDigit hd, Option.map_some, hvalue, Nat.le_refl, if_true]
  rw [scan?_cons (t := ⟨ts, .escape read⟩) rfl, scan?_cons (t := ⟨ts, .unit 4 0 read⟩) rfl]
  exact (scan?_cons (hstep ha 2 0)).trans ((scan?_cons (hstep hb 1 _)).trans
    ((scan?_cons (hstep hc 0 _)).trans (scan?_cons hlast)))

theorem scan?_element {read : Quoted} {e : Element} {word : List Char} (h : e.Spells word) :
    scan? ⟨ts, .string read⟩ (word ++ rest) = scan? ⟨ts, .string (e :: read)⟩ rest := by
  cases h with
  | @plain c hvisible hquote hbackslash =>
    refine scan?_cons ?_
    simp [step, hquote, hbackslash, Nat.not_lt.2 hvisible]
  | @short letter c hescape =>
    have hletter : letter ≠ 'u' ∧ escaped? letter = some c := by
      simp only [shortEscapes, List.mem_cons, List.not_mem_nil, or_false, Prod.mk.injEq] at hescape
      rcases hescape with h | h | h | h | h | h | h | h <;> obtain ⟨rfl, rfl⟩ := h <;>
        exact ⟨by decide, rfl⟩
    have hstep : (⟨ts, .escape read⟩ : Scanner).step letter
        = some ⟨ts, .string (.char c :: read)⟩ := by
      simp [step, hletter.1, hletter.2]
    exact (scan?_cons rfl).trans (scan?_cons hstep)
  | @unit digits n hspelled hwhole =>
    have helement : elementOfUnit n = .char (Char.ofNat n) := by
      have hhalf : (Quoted.isHighHalf n || Quoted.isLowHalf n) = false := by
        simp only [Quoted.isHighHalf, Quoted.isLowHalf, Bool.or_eq_false_iff, Bool.and_eq_false_iff,
          decide_eq_false_iff_not]
        omega
      rw [elementOfUnit, hhalf]
      rfl
    rw [← helement]
    exact scan?_unit hspelled
  | @half digits n hspelled hge hlt =>
    have helement : elementOfUnit n = .half n := by
      have hhalf : (Quoted.isHighHalf n || Quoted.isLowHalf n) = true := by
        simp only [Quoted.isHighHalf, Quoted.isLowHalf, Bool.or_eq_true, Bool.and_eq_true,
          decide_eq_true_eq]
        omega
      rw [elementOfUnit, hhalf]
      rfl
    rw [← helement]
    exact scan?_unit hspelled

theorem scan?_quoted {text : Quoted} {body : List Char} (h : Quoted.Spells text body) :
    ∀ {read : Quoted}, scan? ⟨ts, .string read⟩ (body ++ rest)
      = scan? ⟨ts, .string (text.reverse ++ read)⟩ rest := by
  induction h with
  | nil =>
    intro read
    rfl
  | cons hfirst _ ih =>
    intro read
    rw [List.append_assoc, scan?_element hfirst, ih, List.reverse_cons, List.append_assoc,
      List.singleton_append]

/-! ### Tokens -/

theorem scan?_token {t : Token} {word : List Char} (h : t.Spells word)
    (hrest : t.isNumber = true → EndsNumber rest) :
    scan? ⟨ts, .between⟩ (word ++ rest) = scan? ⟨t :: ts, .between⟩ rest := by
  cases h with
  | number hnumber => exact scan?_number (NumberPart.scans_of_isNumber hnumber) (hrest rfl)
  | @string text body hbody =>
    have hopen : (⟨ts, .between⟩ : Scanner).step '"' = some ⟨ts, .string []⟩ := rfl
    have hclose : (⟨ts, .string text.reverse⟩ : Scanner).step '"'
        = some ⟨.string text :: ts, .between⟩ := by
      simp [step, push]
    rw [List.cons_append, List.append_assoc, scan?_cons hopen, scan?_quoted hbody, List.append_nil]
    exact scan?_cons hclose
  | _ => rfl

/-- No spelling of another token begins with a character that could belong to a number. -/
theorem endsNumber_spelled {t : Token} {word : List Char} (h : t.Spells word)
    (ht : t.isNumber = false) : EndsNumber (word ++ rest) := by
  cases h with
  | number _ => cases ht
  | _ =>
    rintro c ⟨⟩
    decide

theorem endsNumber_spaced {tokens : List Token} {words : List (List Char)} {text : List Char}
    (hwords : List.Forall₂ Token.Spells tokens words) (h : Spaced words text)
    (hfirst : ∀ t ∈ tokens.head?, t.isNumber = false) : EndsNumber text := by
  have hspace : ∀ {c : Char} {blank : List Char}, IsBlank (c :: blank) →
      c.isDigit = false ∧ c ≠ '.' ∧ c ≠ 'e' ∧ c ≠ 'E' := by
    intro c blank hblank
    have hc : c ∈ spaces := hblank c List.mem_cons_self
    simp only [spaces, List.mem_cons, List.not_mem_nil, or_false] at hc
    rcases hc with rfl | rfl | rfl | rfl <;> decide
  cases h with
  | nil hblank =>
    cases text with
    | nil => nofun
    | cons c blank =>
      rintro _ ⟨⟩
      exact hspace hblank
  | @cons blank word text words hblank _ =>
    cases blank with
    | cons c blank =>
      rintro _ ⟨⟩
      exact hspace hblank
    | nil =>
      cases hwords with
      | cons hword _ =>
        rw [List.nil_append]
        exact endsNumber_spelled hword (hfirst _ rfl)

theorem scan?_spaced : ∀ {tokens : List Token} {words : List (List Char)} {text : List Char}
    {ts : List Token}, Separated tokens → List.Forall₂ Token.Spells tokens words →
      Spaced words text → scan? ⟨ts, .between⟩ text = some (ts.reverse ++ tokens)
  | [], _, text, ts, _, .nil, .nil hblank => by
    have hscan : scan? ⟨ts, .between⟩ (text ++ []) = scan? ⟨ts, .between⟩ [] := scan?_blank hblank
    rw [List.append_nil] at hscan ⊢
    exact hscan
  | t :: tokens, _, _, ts, hsep, .cons hword hwords, .cons hblank hspaced => by
    obtain ⟨hfirst, hsep⟩ := List.isChain_cons.1 hsep
    have hrest : t.isNumber = true → EndsNumber _ := fun ht =>
      endsNumber_spaced hwords hspaced fun s hs => hfirst s hs ht
    rw [scan?_blank hblank, scan?_token hword hrest, scan?_spaced hsep hwords hspaced,
      List.reverse_cons, List.append_assoc, List.singleton_append]

end Scanner

/-- The scanner reads a text of tokens, however they are spelled and spaced. -/
theorem tokens?_of_layout {tokens : List Token} {text : List Char} (hsep : Separated tokens)
    (h : Layout tokens text) : tokens? text = some tokens := by
  obtain ⟨words, hwords, hspaced⟩ := h
  exact Scanner.scan?_spaced hsep hwords hspaced

end Json

end LS8
