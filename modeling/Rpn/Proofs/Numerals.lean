import Mathlib.Computability.Language
import Mathlib.Tactic.Abel
import Rpn.Lexeme

/-! Numerals as a language.

The form of numerals is a regular expression,

    [+-]? (D (. D?)? | . D) ([eE] [+-]? D)?    where D is \d+ (_ \d+)*

and `numerals` is its language. The automaton that decides the form reads a text from
left to right and never goes back, so at each of its forms it has to accept just what
may follow there: `Form.rest`. These languages satisfy the equations that the automaton
is made of (`rest_eq`), which gives `isNumeral_iff`. -/
namespace Rpn.Numeral
open Computability

/-! ### The language -/

/-- The texts of one character of a class. -/
def oneOf (p : Char → Prop) : Language Char := {w | ∃ c, p c ∧ w = [c]}

def digit : Language Char := oneOf (Text.isDigit · = true)

def separator : Language Char := oneOf (· = '_')

def point : Language Char := oneOf (· = '.')

def mark : Language Char := oneOf fun c => c = 'e' ∨ c = 'E'

def sign : Language Char := oneOf fun c => c = '+' ∨ c = '-'

/-- Digits, with single separators between digits. -/
def integral : Language Char := digit * digit∗ * (separator * (digit * digit∗))∗

/-- Digits with a point after or among them or without, or after a point. -/
def unsigned : Language Char := integral * (1 + point * (1 + integral)) + point * integral

def exponent : Language Char := mark * (1 + sign) * integral

/-- The texts that have the form of a numeral. -/
def numerals : Language Char := (1 + sign) * unsigned * (1 + exponent)

/-! ### What may follow -/

/-- What may follow the first digit of digits with separators. -/
def integralRest : Language Char := digit∗ * (separator * (digit * digit∗))∗

/-- The texts of one character that a glyph stands for. -/
def Glyph.texts : Glyph → Language Char
  | digit => Numeral.digit
  | separator => Numeral.separator
  | point => Numeral.point
  | exponent => mark
  | sign => Numeral.sign

/-- What may follow in a numeral that has come this far. -/
def Form.rest : Form → Language Char
  | start => numerals
  | signed => unsigned * (1 + Numeral.exponent)
  | whole => integralRest * (1 + Numeral.point * (1 + integral)) * (1 + Numeral.exponent)
  | wholeSeparator => integral * (1 + Numeral.point * (1 + integral)) * (1 + Numeral.exponent)
  | point => (1 + integral) * (1 + Numeral.exponent)
  | barePoint => integral * (1 + Numeral.exponent)
  | fraction => integralRest * (1 + Numeral.exponent)
  | fractionSeparator => integral * (1 + Numeral.exponent)
  | mark => (1 + sign) * integral
  | markSigned => integral
  | exponent => integralRest
  | exponentSeparator => integral

theorem integral_eq : integral = digit * integralRest := by
  rw [integral, integralRest, mul_assoc]

theorem integralRest_eq :
    integralRest = 1 + digit * integralRest + separator * integral := by
  have hloop : (separator * (digit * digit∗))∗ = 1 + separator * integral := by
    conv_lhs => rw [← Language.one_add_self_mul_kstar_eq_kstar]
    rw [integral, mul_assoc]
  calc integralRest
      = (1 + digit * digit∗) * (separator * (digit * digit∗))∗ := by
        rw [Language.one_add_self_mul_kstar_eq_kstar, integralRest]
    _ = (separator * (digit * digit∗))∗ + digit * integralRest := by
        rw [add_mul, one_mul, mul_assoc, integralRest]
    _ = 1 + digit * integralRest + separator * integral := by
        rw [hloop]
        abel

theorem integral_mul (L : Language Char) : integral * L = digit * (integralRest * L) := by
  rw [integral_eq, mul_assoc]

theorem integralRest_mul (L : Language Char) :
    integralRest * L = L + digit * (integralRest * L) + separator * (integral * L) := by
  conv_lhs => rw [integralRest_eq]
  simp only [add_mul, one_mul, mul_assoc]

theorem exponent_eq : exponent = mark * ((1 + sign) * integral) := by
  rw [exponent, mul_assoc]

/-- What may follow after one more glyph. -/
def Form.restAfter (f : Form) (g : Glyph) : Language Char :=
  g.texts * (f.next? g).elim 0 Form.rest

/-- What may follow is nothing, where a numeral may end, or a glyph and what may follow it. -/
theorem Form.rest_eq (f : Form) :
    f.rest = (if f.isComplete then 1 else 0) +
      (f.restAfter .digit + f.restAfter .separator + f.restAfter .point +
        f.restAfter .exponent + f.restAfter .sign) := by
  cases f <;>
    simp only [restAfter, rest, Form.next?, isComplete, Option.elim, Glyph.texts, mul_zero,
      add_zero, zero_add, if_true, Bool.false_eq_true, if_false, mul_assoc]
  -- what is left is to open each language up to its first character and no further
  case start =>
    rw [numerals, mul_assoc, add_mul, one_mul]
    conv_lhs => enter [1]; rw [unsigned, add_mul, mul_assoc, mul_assoc, integral_mul]
  case signed => rw [unsigned, add_mul, mul_assoc, mul_assoc, integral_mul]
  case whole =>
    conv_lhs => rw [integralRest_mul]
    rw [add_mul, one_mul, mul_assoc]
    conv_lhs => enter [1, 1, 1]; rw [exponent_eq]
    abel
  case wholeSeparator => rw [integral_mul]
  case point =>
    rw [add_mul, one_mul, integral_mul]
    conv_lhs => enter [1]; rw [exponent_eq]
    abel
  case barePoint => rw [integral_mul]
  case fraction =>
    conv_lhs => rw [integralRest_mul]
    conv_lhs => enter [1, 1]; rw [exponent_eq]
    abel
  case fractionSeparator => rw [integral_mul]
  case mark =>
    rw [add_mul, one_mul]
    conv_lhs => enter [1]; rw [integral_eq]
  case markSigned => rw [integral_eq]
  case exponent =>
    conv_lhs => rw [integralRest_eq]
    abel
  case exponentSeparator => rw [integral_eq]

/-! ### The automaton -/

/-- Is the character one that the glyph stands for? -/
def Glyph.Has : Glyph → Char → Prop
  | digit, c => Text.isDigit c = true
  | separator, c => c = '_'
  | point, c => c = '.'
  | exponent, c => c = 'e' ∨ c = 'E'
  | sign, c => c = '+' ∨ c = '-'

theorem Glyph.texts_eq (g : Glyph) : g.texts = oneOf g.Has := by
  cases g <;> rfl

theorem glyph?_eq_some_iff (c : Char) (g : Glyph) : glyph? c = some g ↔ g.Has c := by
  constructor
  · unfold glyph?
    split_ifs <;> rintro ⟨⟩ <;> assumption
  · cases g with
    | digit =>
      intro h
      exact if_pos h
    | separator | point =>
      rintro rfl
      decide
    | exponent | sign => rintro (rfl | rfl) <;> decide

theorem nil_not_mem_oneOf_mul (p : Char → Prop) (L : Language Char) : [] ∉ oneOf p * L := by
  rintro ⟨_, ⟨c, _, rfl⟩, w, _, h⟩
  cases h

theorem cons_mem_oneOf_mul (p : Char → Prop) (L : Language Char) (c : Char) (s : List Char) :
    c :: s ∈ oneOf p * L ↔ p c ∧ s ∈ L := by
  constructor
  · rintro ⟨_, ⟨c', hc, rfl⟩, w, hw, h⟩
    obtain ⟨rfl, rfl⟩ := List.cons.inj h
    exact ⟨hc, hw⟩
  · rintro ⟨hc, hs⟩
    exact ⟨[c], ⟨c, hc, rfl⟩, s, hs, rfl⟩

theorem nil_not_mem_restAfter (f : Form) (g : Glyph) : [] ∉ f.restAfter g := by
  rw [Form.restAfter, g.texts_eq]
  exact nil_not_mem_oneOf_mul _ _

theorem cons_mem_restAfter (f : Form) (g : Glyph) (c : Char) (s : List Char) :
    c :: s ∈ f.restAfter g ↔ glyph? c = some g ∧ ∃ f', f.next? g = some f' ∧ s ∈ f'.rest := by
  rw [Form.restAfter, g.texts_eq, cons_mem_oneOf_mul, glyph?_eq_some_iff]
  cases f.next? g <;> simp [Language.notMem_zero]

theorem nil_mem_rest (f : Form) : [] ∈ f.rest ↔ f.isComplete = true := by
  rw [f.rest_eq]
  simp only [Language.mem_add, nil_not_mem_restAfter, or_false]
  cases f.isComplete <;> simp [Language.notMem_zero]

theorem cons_mem_rest (f : Form) (c : Char) (s : List Char) :
    c :: s ∈ f.rest ↔ ∃ f', (glyph? c).bind f.next? = some f' ∧ s ∈ f'.rest := by
  have hnone : c :: s ∉ (if f.isComplete then 1 else 0 : Language Char) := by
    cases f.isComplete <;> simp [Language.notMem_zero]
  rw [f.rest_eq]
  simp only [Language.mem_add, cons_mem_restAfter, hnone, false_or]
  cases glyph? c with
  | none => simp
  | some g => cases g <;> simp

/-- From each of its forms the automaton accepts what may follow there. -/
theorem mem_rest_iff (f : Form) (s : List Char) :
    s ∈ f.rest ↔ (f.after? s).any Form.isComplete = true := by
  induction s generalizing f with
  | nil => exact nil_mem_rest f
  | cons c s ih =>
    rw [cons_mem_rest, Form.after?]
    cases (glyph? c).bind f.next? with
    | none => simp
    | some f' => simpa using ih f'

/-- **The automaton decides the form of numerals.** -/
theorem isNumeral_iff (s : List Char) : isNumeral s = true ↔ s ∈ numerals :=
  (mem_rest_iff .start s).symm

/-! ### The characters of numerals -/

theorem exists_zero_of_isDigit {c : Char} (h : Text.isDigit c = true) :
    ∃ z ∈ Text.digitZeros ++ Text.laterDigitZeros, z ≤ c.toNat ∧ c.toNat < z + 10 := by
  simp only [Text.isDigit, Bool.or_eq_true, List.any_eq_true, Text.inBlock, Bool.and_eq_true,
    decide_eq_true_eq] at h
  rcases h with ⟨z, hz, hc⟩ | ⟨z, hz, hc⟩
  · exact ⟨z, List.mem_append_left _ hz, hc⟩
  · exact ⟨z, List.mem_append_right _ hz, hc⟩

/-- No block of digits has a blank or a parenthesis in it. -/
theorem isWordChar_of_isDigit {c : Char} (h : Text.isDigit c = true) :
    Lexeme.isWordChar c = true := by
  have hblanks : ∀ z ∈ Text.digitZeros ++ Text.laterDigitZeros, ∀ r ∈ Text.blankRanges,
      z + 10 ≤ r.1 ∨ r.2 < z := by decide
  have hparens : ∀ z ∈ Text.digitZeros ++ Text.laterDigitZeros, ')'.toNat < z := by decide
  obtain ⟨z, hz, hlow, hhigh⟩ := exists_zero_of_isDigit h
  have hblank : Text.isBlank c = false := by
    rw [Text.isBlank, List.any_eq_false]
    intro r hr
    have := hblanks z hz r hr
    simp only [Bool.and_eq_true, decide_eq_true_eq]
    omega
  have hparen : Lexeme.isParenthesis c = false := by
    have hlast : ')'.toNat < c.toNat := Nat.lt_of_lt_of_le (hparens z hz) hlow
    have hfirst : '('.toNat < ')'.toNat := by decide
    have hopen : c ≠ '(' := by
      rintro rfl
      omega
    have hclose : c ≠ ')' := by
      rintro rfl
      omega
    simp [Lexeme.isParenthesis, hopen, hclose]
  simp [Lexeme.isWordChar, hblank, hparen]

theorem isWordChar_of_glyph? {c : Char} {g : Glyph} (h : glyph? c = some g) :
    Lexeme.isWordChar c = true := by
  rw [glyph?_eq_some_iff] at h
  cases g with
  | digit => exact isWordChar_of_isDigit h
  | separator | point =>
    obtain rfl := h
    decide
  | exponent | sign => rcases h with rfl | rfl <;> decide

theorem isWordChar_of_mem_rest {f : Form} {s : List Char} (h : s ∈ f.rest) :
    ∀ c ∈ s, Lexeme.isWordChar c = true := by
  induction s generalizing f with
  | nil => nofun
  | cons c s ih =>
    obtain ⟨f', hf, hs⟩ := (cons_mem_rest f c s).mp h
    obtain ⟨g, hg, _⟩ := Option.bind_eq_some_iff.mp hf
    exact List.forall_mem_cons.mpr ⟨isWordChar_of_glyph? hg, ih hs⟩

/-- Numerals are made of word characters. -/
theorem isWordChar_of_mem_numerals {s : List Char} (h : s ∈ numerals) :
    ∀ c ∈ s, Lexeme.isWordChar c = true :=
  isWordChar_of_mem_rest (f := .start) h

end Rpn.Numeral
