import Rpn.Proofs.Lexemes

/-! The expression of lexemes, matched with backtracking.

`Pattern` has the operators that the expression of a lexeme is written with, and
`Pattern.rests` is what a backtracking matcher makes of them: all that a match may leave
of a text, in the order in which the matcher tries. Alternatives are tried from left to
right, repetitions take as much as they can, and a look ahead takes nothing. The match
that is made is the first one.

Whatever the order, a pattern without a look ahead reads a language (`Reads`). The order
matters twice: a run is taken to its end because repetitions are greedy, and a numeral is
a number because numbers come before words. No number is found at the front of a longer
word, however the matcher backtracks, because what follows a number is looked at
(`mem_rests_number`). -/
namespace Rpn
open Computability

inductive Pattern where
  /-- One character of a class. -/
  | char (p : Char → Bool)
  | seq (p q : Pattern)
  /-- The first, or else the second. -/
  | either (p q : Pattern)
  /-- Once if possible. -/
  | maybe (p : Pattern)
  /-- As often as possible. -/
  | many (p : Pattern)
  /-- Nothing, where the pattern matches. -/
  | ahead (p : Pattern)
  /-- Nothing, at the end of the text or before a line feed that ends it. -/
  | finish

namespace Pattern

/-! ### Matching -/

/-- What repetitions of a match leave. One that takes nothing is not repeated. -/
def repeated (f : List Char → List (List Char)) (s : List Char) : List (List Char) :=
  ((f s).flatMap fun r => if r.length < s.length then repeated f r else []) ++ [s]
termination_by s.length

/-- What matches leave of a text, in the order in which they are tried. -/
def rests : Pattern → List Char → List (List Char)
  | char _, [] => []
  | char p, c :: s => if p c then [s] else []
  | seq p q, s => (p.rests s).flatMap q.rests
  | either p q, s => p.rests s ++ q.rests s
  | maybe p, s => p.rests s ++ [s]
  | many p, s => repeated p.rests s
  | ahead p, s => if p.rests s = [] then [] else [s]
  | finish, s => if s = [] ∨ s = ['\n'] then [s] else []

/-- What the match leaves, if there is one. -/
def rest? (p : Pattern) (s : List Char) : Option (List Char) := (p.rests s).head?

def oneOrMore (p : Pattern) : Pattern := p.seq p.many

/-! ### The expression of lexemes -/

def digits : Pattern := oneOrMore (char Text.isDigit)

def sign : Pattern := char fun c => c = '+' || c = '-'

def point : Pattern := char (· = '.')

/-- Digits, with single separators between digits. -/
def integral : Pattern := digits.seq (many ((char (· = '_')).seq digits))

def unsigned : Pattern :=
  either (integral.seq (maybe (point.seq (maybe integral)))) (point.seq integral)

def exponent : Pattern := ((char fun c => c = 'e' || c = 'E').seq (maybe sign)).seq integral

def numeral : Pattern := ((maybe sign).seq unsigned).seq (maybe exponent)

/-- A blank, a parenthesis or the end of the line, not taken. -/
def boundary : Pattern :=
  ahead (either (char fun c => Text.isBlank c || Lexeme.isParenthesis c) finish)

def number : Pattern := numeral.seq boundary

def marker : Pattern := either (char (· = '(')) (char (· = ')'))

def word : Pattern := oneOrMore (char fun c => !(Text.isBlank c || Lexeme.isParenthesis c))

def space : Pattern := oneOrMore (char Text.isBlank)

/-- The groups of a lexeme in the order in which they are tried. -/
def lexeme : List (Lexeme.Group × Pattern) :=
  [(.number, number), (.marker, marker), (.word, word), (.space, space)]

/-- The group of the lexeme that is matched and what it leaves. -/
def matched? (s : List Char) : Option (Lexeme.Group × List Char) :=
  lexeme.findSome? fun (g, p) => (p.rest? s).map (g, ·)

/-- The lexemes that are matched one after the other, each in what the last one left. None
if there is no match, or one that takes nothing and would be made for ever. -/
def lex? (s : List Char) : Option (List Lexeme) :=
  if s = [] then some []
  else
    match matched? s with
    | none => none
    | some (g, r) =>
      if r.length < s.length then
        (lex? r).map (⟨g, String.ofList (s.take (s.length - r.length))⟩ :: ·)
      else none
termination_by s.length

/-! ### Patterns and languages -/

/-- The matches of a pattern are the texts of a language. -/
def Reads (p : Pattern) (L : Language Char) : Prop := ∀ s r, r ∈ p.rests s ↔ ∃ w ∈ L, w ++ r = s

theorem mem_rests_char {p : Char → Bool} {s r : List Char} :
    r ∈ (char p).rests s ↔ ∃ c, p c = true ∧ c :: r = s := by
  cases s with
  | nil => simp [rests]
  | cons c s =>
    simp only [rests, List.cons.injEq]
    constructor
    · intro h
      split at h
      case isTrue hc => exact ⟨c, hc, rfl, List.mem_singleton.mp h⟩
      case isFalse => cases h
    · rintro ⟨_, hc, rfl, rfl⟩
      simp [hc]

theorem reads_char {p : Char → Bool} {q : Char → Prop} (h : ∀ c, p c = true ↔ q c) :
    Reads (char p) (Numeral.oneOf q) := by
  intro s r
  rw [mem_rests_char]
  constructor
  · rintro ⟨c, hc, rfl⟩
    exact ⟨[c], ⟨c, (h c).mp hc, rfl⟩, rfl⟩
  · rintro ⟨_, ⟨c, hc, rfl⟩, rfl⟩
    exact ⟨c, (h c).mpr hc, rfl⟩

theorem mem_repeated {f : List Char → List (List Char)} {s r : List Char} :
    r ∈ repeated f s ↔ (∃ t ∈ f s, t.length < s.length ∧ r ∈ repeated f t) ∨ r = s := by
  rw [repeated]
  simp only [List.mem_append, List.mem_flatMap, List.mem_singleton]
  refine or_congr_left (exists_congr fun t => and_congr_right fun _ => ?_)
  split <;> simp_all

namespace Reads
variable {p q : Pattern} {L M : Language Char}

theorem seq (hp : Reads p L) (hq : Reads q M) : Reads (p.seq q) (L * M) := by
  intro s r
  simp only [rests, List.mem_flatMap, hp s, hq _ r]
  constructor
  · rintro ⟨_, ⟨v, hv, rfl⟩, w, hw, rfl⟩
    exact ⟨v ++ w, Language.append_mem_mul hv hw, List.append_assoc ..⟩
  · rintro ⟨_, ⟨v, hv, w, hw, rfl⟩, rfl⟩
    exact ⟨w ++ r, ⟨v, hv, (List.append_assoc ..).symm⟩, w, hw, rfl⟩

theorem either (hp : Reads p L) (hq : Reads q M) : Reads (p.either q) (L + M) := by
  intro s r
  simp only [rests, List.mem_append, hp s, hq s, Language.mem_add, or_and_right, exists_or]

theorem maybe (hp : Reads p L) : Reads p.maybe (1 + L) := by
  intro s r
  simp only [rests, List.mem_append, List.mem_singleton, hp s, Language.mem_add, Language.mem_one,
    or_and_right, exists_or, exists_eq_left, List.nil_append]
  exact or_comm

/-- Repetitions that take something are all that is needed: the others add nothing. -/
theorem many (hp : Reads p L) : Reads p.many L∗ := by
  intro s r
  show r ∈ repeated p.rests s ↔ _
  constructor
  · intro h
    -- a repetition that is gone on with leaves a shorter text
    induction hn : s.length using Nat.strongRecOn generalizing s with
    | ind n ih =>
      rcases mem_repeated.mp h with ⟨t, ht, hlt, hr⟩ | rfl
      · obtain ⟨v, hv, rfl⟩ := (hp s t).mp ht
        obtain ⟨w, hw, rfl⟩ := ih t.length (hn ▸ hlt) t hr rfl
        have hmem : v ++ w ∈ 1 + L * L∗ := .inr (Language.append_mem_mul hv hw)
        rw [Language.one_add_self_mul_kstar_eq_kstar] at hmem
        exact ⟨v ++ w, hmem, List.append_assoc ..⟩
      · exact ⟨[], Language.nil_mem_kstar L, rfl⟩
  · rintro ⟨w, hw, rfl⟩
    obtain ⟨ws, rfl, hws⟩ := Language.mem_kstar_iff_exists_nonempty.mp hw
    clear hw
    induction ws with
    | nil => exact mem_repeated.mpr (.inr rfl)
    | cons v ws ih =>
      rw [List.forall_mem_cons] at hws
      refine mem_repeated.mpr (.inl ⟨ws.flatten ++ r, ?_, ?_, ih hws.2⟩)
      · exact (hp _ _).mpr ⟨v, hws.1.1, by rw [List.flatten_cons, List.append_assoc]⟩
      · have := List.length_pos_iff.mpr hws.1.2
        simp only [List.flatten_cons, List.length_append]
        omega

end Reads

/-- The pattern of numerals reads the numerals. -/
theorem reads_numeral : Reads numeral Numeral.numerals := by
  have hdigits : Reads digits (Numeral.digit * Numeral.digit∗) :=
    have h : Reads (char Text.isDigit) Numeral.digit := reads_char fun _ => Iff.rfl
    h.seq h.many
  have hsign : Reads sign Numeral.sign := reads_char fun _ => by simp
  have hpoint : Reads point Numeral.point := reads_char fun _ => by simp
  have hseparator : Reads (char (· = '_')) Numeral.separator := reads_char fun _ => by simp
  have hmark : Reads (char fun c => c = 'e' || c = 'E') Numeral.mark := reads_char fun _ => by simp
  have hintegral : Reads integral Numeral.integral := hdigits.seq (hseparator.seq hdigits).many
  have hunsigned : Reads unsigned Numeral.unsigned :=
    (hintegral.seq (hpoint.seq hintegral.maybe).maybe).either (hpoint.seq hintegral)
  have hexponent : Reads exponent Numeral.exponent := (hmark.seq hsign.maybe).seq hintegral
  exact (hsign.maybe.seq hunsigned).seq hexponent.maybe

/-! ### What is matched first -/

/-- The look ahead asks that no word character follows. -/
theorem mem_rests_boundary {s r : List Char} :
    r ∈ boundary.rests s ↔ (∀ c, s.head? = some c → Lexeme.isWordChar c = false) ∧ r = s := by
  have hahead : ∀ p : Pattern, r ∈ (ahead p).rests s ↔ p.rests s ≠ [] ∧ r = s := by
    intro p
    simp only [rests]
    split <;> simp_all
  rw [boundary, hahead, and_congr_left_iff]
  rintro rfl
  cases r with
  | nil => simp [rests]
  | cons c r =>
    have hfeed : Lexeme.isWordChar '\n' = false := by decide
    by_cases hc : Lexeme.isWordChar c = true
    · have hne : c :: r ≠ ['\n'] := by
        intro h
        rw [(List.cons.inj h).1, hfeed] at hc
        cases hc
      simp_all [rests, Lexeme.isWordChar]
    · simp_all [rests, Lexeme.isWordChar]

/-- A number is a whole run of word characters: the matcher may stop at no other place. -/
theorem mem_rests_number {s r : List Char} :
    r ∈ number.rests s ↔
      s.takeWhile Lexeme.isWordChar ∈ Numeral.numerals ∧ r = s.dropWhile Lexeme.isWordChar := by
  simp only [number, rests, List.mem_flatMap, reads_numeral s, mem_rests_boundary]
  constructor
  · rintro ⟨_, ⟨w, hw, rfl⟩, hend, rfl⟩
    obtain ⟨htake, hdrop⟩ := Lexeme.span_run (Numeral.isWordChar_of_mem_numerals hw) hend
    rw [htake, hdrop]
    exact ⟨hw, rfl⟩
  · rintro ⟨hnum, rfl⟩
    exact ⟨_, ⟨_, hnum, List.takeWhile_append_dropWhile⟩, Lexeme.not_head?_dropWhile _ s, rfl⟩

theorem rest?_number (s : List Char) :
    number.rest? s =
      if Numeral.isNumeral (s.takeWhile Lexeme.isWordChar) then
        some (s.dropWhile Lexeme.isWordChar)
      else none := by
  have hmem := fun r => mem_rests_number (s := s) (r := r)
  unfold rest?
  split
  case isTrue hnum =>
    rw [Numeral.isNumeral_iff] at hnum
    have hfound := (hmem _).mpr ⟨hnum, rfl⟩
    obtain ⟨r, rs, hrs⟩ := List.exists_cons_of_ne_nil (List.ne_nil_of_mem hfound)
    rw [hrs, List.head?_cons, ((hmem r).mp (by simp [hrs])).2]
  case isFalse hnum =>
    rw [Numeral.isNumeral_iff] at hnum
    rw [List.head?_eq_none_iff, List.eq_nil_iff_forall_not_mem]
    exact fun r hr => hnum ((hmem r).mp hr).1

/-- Repetition of a character takes the whole run. -/
theorem rest?_many_char (p : Char → Bool) (s : List Char) :
    (many (char p)).rest? s = some (s.dropWhile p) := by
  unfold rest?
  induction s with
  | nil => simp [rests, repeated]
  | cons c s ih =>
    rw [rests] at ih ⊢
    rw [repeated]
    by_cases hc : p c = true
    · simp [rests, hc, ih]
    · simp [rests, hc]

theorem rest?_oneOrMore_char (p : Char → Bool) (c : Char) (s : List Char) :
    (oneOrMore (char p)).rest? (c :: s) = if p c then some (s.dropWhile p) else none := by
  have hmany := rest?_many_char p s
  unfold rest? at hmany ⊢
  by_cases hc : p c = true
  · simp [oneOrMore, rests, hc] at hmany ⊢
    exact hmany
  · simp [oneOrMore, rests, hc]

theorem rest?_marker (c : Char) (s : List Char) :
    marker.rest? (c :: s) = if Lexeme.isParenthesis c then some s else none := by
  by_cases hopen : c = '('
  · simp [marker, rest?, rests, hopen, Lexeme.isParenthesis]
  · by_cases hclose : c = ')' <;> simp [marker, rest?, rests, hopen, hclose, Lexeme.isParenthesis]

/-- Which group is matched, by the first character. -/
theorem matched?_cons (c : Char) (s : List Char) :
    matched? (c :: s) =
      if Text.isBlank c then some (.space, s.dropWhile Text.isBlank)
      else if Lexeme.isParenthesis c then some (.marker, s)
      else if Numeral.isNumeral ((c :: s).takeWhile Lexeme.isWordChar) then
        some (.number, s.dropWhile Lexeme.isWordChar)
      else some (.word, s.dropWhile Lexeme.isWordChar) := by
  have hword : (fun c => !(Text.isBlank c || Lexeme.isParenthesis c)) = Lexeme.isWordChar := by
    funext c
    simp [Lexeme.isWordChar]
  have hempty : Numeral.isNumeral [] = false := rfl
  simp only [matched?, lexeme, List.findSome?, rest?_number, rest?_marker, word, space,
    rest?_oneOrMore_char, hword]
  by_cases hblank : Text.isBlank c = true
  · have hparen := Lexeme.not_isParenthesis_of_isBlank hblank
    simp [hblank, hparen, Lexeme.isWordChar, hempty]
  by_cases hparen : Lexeme.isParenthesis c = true
  · simp [hblank, hparen, Lexeme.isWordChar, hempty]
  · have hc : Lexeme.isWordChar c = true := by simp [Lexeme.isWordChar, hblank, hparen]
    rw [List.dropWhile_cons_of_pos hc]
    cases Numeral.isNumeral ((c :: s).takeWhile Lexeme.isWordChar) <;> simp [hblank, hparen, hc]

theorem matched?_run {run after : List Char}
    (h : Lexeme.MaximalRun Lexeme.isWordChar [] run after) :
    matched? (run ++ after) = some ((Lexeme.ofRun run).group, after) := by
  obtain ⟨c, r, rfl⟩ := List.exists_cons_of_ne_nil h.nonempty
  have hchars := List.forall_mem_cons.mp h.chars
  have hc : Text.isBlank c = false ∧ Lexeme.isParenthesis c = false := by
    simpa [Lexeme.isWordChar] using hchars.1
  have htake := (Lexeme.span_run h.chars h.right).1
  have hdrop := (Lexeme.span_run hchars.2 h.right).2
  rw [List.cons_append] at htake ⊢
  rw [matched?_cons, hc.1, hc.2, htake, hdrop, Lexeme.ofRun]
  cases Numeral.isNumeral (c :: r) <;> rfl

/-- The lexeme that leads a text is matched. -/
theorem matched?_of_fits {l : Lexeme} {after : List Char} (h : l.Fits [] after) :
    matched? (l.chars ++ after) = some (l.group, after) := by
  unfold Lexeme.Fits at h
  cases hg : l.group <;> simp only [hg] at h
  case number =>
    rw [matched?_run h.1, Lexeme.ofRun, if_pos ((Numeral.isNumeral_iff _).mpr h.2)]
  case marker => rcases h with h | h <;> rw [h, List.singleton_append, matched?_cons] <;> rfl
  case word =>
    rw [matched?_run h.1, Lexeme.ofRun, if_neg (fun hn => h.2 ((Numeral.isNumeral_iff _).mp hn))]
  case space =>
    obtain ⟨c, r, hl⟩ := List.exists_cons_of_ne_nil h.nonempty
    rw [hl] at h ⊢
    have hchars := List.forall_mem_cons.mp h.chars
    rw [List.cons_append, matched?_cons, if_pos hchars.1, (Lexeme.span_run hchars.2 h.right).2]

theorem lex?_of_fits {l : Lexeme} {after : List Char} (h : l.Fits [] after) :
    lex? (l.chars ++ after) = (lex? after).map (l :: ·) := by
  have hpos := List.length_pos_iff.mpr h.nonempty
  have hshorter : after.length < (l.chars ++ after).length := by
    rw [List.length_append]
    omega
  rw [lex?, if_neg (List.append_ne_nil_of_left_ne_nil h.nonempty _), matched?_of_fits h]
  simp only [if_pos hshorter]
  rw [List.length_append, Nat.add_sub_cancel, List.take_left, l.mk_chars]

/-- Matching again and again goes on to the end of the line and cuts it. -/
theorem lex?_eq (s : List Char) : lex? s = some (Lexeme.cut s) := by
  induction s using Lexeme.text_induction with
  | nil =>
    rw [lex?, Lexeme.cut]
    rfl
  | lead l after hl ih => rw [lex?_of_fits hl, ih, Lexeme.cut_of_fits hl, Option.map_some]

end Pattern

namespace Lexeme

/-- **The lexemes of a line are its maximal runs.** For every line:

* the expression of lexemes, matched again and again in what is left, matches something
  each time until the line is used up, each time in one group, and gives the lexemes;
* the lexemes make up the line; spaces are maximal runs of blanks, markers are single
  parentheses, numbers and words are maximal runs of the other characters, and a run is a
  number if it is a numeral from end to end;
* no other lexemes do, so the tokens are these runs and parentheses in order;
* the tokens of two texts with blanks between them are those of the one and the other. -/
theorem lexemes_maximal_munch :
    (∀ line : String, Pattern.lex? line.toList = some (ofLine line)) ∧
    (∀ line : String, Munches line.toList (ofLine line)) ∧
    (∀ (line : String) (ls : List Lexeme), Munches line.toList ls →
      ls = ofLine line ∧ tokens line = (ls.filter (·.group ≠ .space)).map text) ∧
    ∀ a w b : String, w ≠ "" → (∀ c ∈ w.toList, Text.isBlank c = true) →
      tokens (a ++ w ++ b) = tokens a ++ tokens b := by
  refine ⟨fun line => Pattern.lex?_eq line.toList, fun line => munches_cut line.toList,
    fun line ls h => ?_, fun a w b hne hw => tokens_append_blank hne hw a b⟩
  obtain rfl := munches_iff.mp h
  exact ⟨rfl, rfl⟩

/-- Glued parentheses come off, a digit or a half exponent in front of more makes no number,
and a no-break space separates. -/
theorem lexemes_maximal_munch_of_glued :
    let ls : List Lexeme := [⟨.word, "2x"⟩, ⟨.marker, "("⟩, ⟨.number, "+1_0.e5"⟩, ⟨.space, "\t "⟩,
      ⟨.word, "1__2"⟩, ⟨.marker, ")"⟩]
    Munches "2x(+1_0.e5\t 1__2)".toList ls ∧
      tokens "2x(+1_0.e5\t 1__2)" = ["2x", "(", "+1_0.e5", "1__2", ")"] ∧
      tokens ("1e" ++ "\u00a0" ++ "5") = tokens "1e" ++ tokens "5" := by
  intro ls
  have hcut : ofLine "2x(+1_0.e5\t 1__2)" = ls := by decide +kernel
  obtain ⟨_, hmunches, hunique, hblank⟩ := lexemes_maximal_munch
  have hls : Munches "2x(+1_0.e5\t 1__2)".toList ls := hcut ▸ hmunches "2x(+1_0.e5\t 1__2)"
  exact ⟨hls, (hunique _ ls hls).2.trans (by decide), hblank "1e" "\u00a0" "5" (by decide)
    (List.all_eq_true.mp rfl)⟩

end Lexeme

end Rpn
