import Mathlib.Data.Bool.AllAny
import Rpn.Proofs.Lexemes
import Rpn.Stack

/-! The numbers of the lexer are the numbers of the engine.

Two readers decide what a number is. The automaton of the lexer takes one character at a
time. The reader of tokens takes a sign, a run of digits, a point and another run, and
an exponent, each as long as it goes on. They agree because a run that is taken at once
is a walk of the automaton (`TakesDigits.mem_rest_iff`), and where a run ends, the
automaton has no way on but the one that the reader tries next (`EndsRun`).

What separates the two is blanks around a number, digits of the later edition, and the
words for infinities and NaN, which the lexer has no numerals for. -/
namespace Rpn.Numeral

/-! ### Runs of digits -/

/-- Every digit of the lexer in the text is one of the reader. -/
def Alike (s : List Char) : Prop :=
  ∀ c ∈ s, Text.isDigit c = true → (Text.decimalDigit? c).isSome

/-- No digit is next. -/
def NoDigit (s : List Char) : Prop := ∀ c r, s = c :: r → Text.decimalDigit? c = none

/-- A run of digits cannot go on here, neither with a digit nor with a separator and a digit. -/
structure EndsRun (s : List Char) : Prop where
  noDigit : NoDigit s
  separator : ∀ r, s = '_' :: r → NoDigit r

/-- The longest run of digits in front of a text and what is after it, as a relation. -/
inductive TakesDigits : List Char → List Nat → List Char → Prop
  | stop {s : List Char} (none : NoDigit s) : TakesDigits s [] s
  | take {c : Char} {s rest : List Char} {d : Nat} {ds : List Nat}
    (digit : Text.decimalDigit? c = some d)
    (more : TakesDigits (skipSeparator Text.decimalDigit? s) ds rest) :
    TakesDigits (c :: s) (d :: ds) rest

theorem takesDigits_digitRun (s : List Char) :
    TakesDigits s (digitRun Text.decimalDigit? s).1 (digitRun Text.decimalDigit? s).2 := by
  fun_induction digitRun Text.decimalDigit? s with
  | case1 => exact .stop nofun
  | case2 c s hc =>
    refine .stop fun c' r h => ?_
    obtain ⟨rfl, rfl⟩ := List.cons.inj h
    exact hc
  | case3 c s d hd ds rest hrun ih =>
    rw [hrun] at ih
    exact .take hd ih

/-- A separator is skipped if a digit follows it. -/
theorem skipSeparator_cases (s : List Char) :
    (∃ c r, s = '_' :: c :: r ∧ (Text.decimalDigit? c).isSome ∧
      skipSeparator Text.decimalDigit? s = c :: r) ∨
    skipSeparator Text.decimalDigit? s = s ∧ ∀ r, s = '_' :: r → NoDigit r := by
  unfold skipSeparator
  split
  case h_1 c r =>
    by_cases hc : (Text.decimalDigit? c).isSome
    · exact .inl ⟨c, r, rfl, hc, if_pos hc⟩
    · refine .inr ⟨if_neg hc, ?_⟩
      rintro _ ⟨⟩ c' r' ⟨⟩
      simpa using hc
  case h_2 hnone =>
    refine .inr ⟨rfl, ?_⟩
    rintro r rfl c r' rfl
    exact absurd rfl (hnone c r')

namespace TakesDigits
variable {s rest : List Char} {ds : List Nat}

theorem suffix (h : TakesDigits s ds rest) : rest <:+ s := by
  induction h with
  | stop => exact List.suffix_refl _
  | @take c s rest d ds hd _ ih =>
    rcases skipSeparator_cases s with ⟨c', r, rfl, _, hskip⟩ | ⟨hskip, _⟩ <;> rw [hskip] at ih
    · exact ih.trans ((List.suffix_cons '_' _).trans (List.suffix_cons c _))
    · exact ih.trans (List.suffix_cons c s)

/-- Nothing is taken only where no digit is. -/
theorem nil (h : TakesDigits s [] rest) : rest = s ∧ NoDigit s := by
  cases h with
  | stop hnone => exact ⟨rfl, hnone⟩

theorem ends (h : TakesDigits s ds rest) (hds : ds ≠ []) : EndsRun rest := by
  induction h with
  | stop => exact absurd rfl hds
  | @take c s rest d ds hd hmore ih =>
    cases ds with
    | nil =>
      obtain ⟨rfl, hnone⟩ := hmore.nil
      rcases skipSeparator_cases s with ⟨c', r, rfl, hc', hskip⟩ | ⟨hskip, hseparator⟩
      · rw [hnone c' r hskip] at hc'
        cases hc'
      · rw [hskip] at hnone ⊢
        exact ⟨hnone, hseparator⟩
    | cons d' ds => exact ih (List.cons_ne_nil _ _)

end TakesDigits

theorem Alike.of_suffix {s rest : List Char} (h : Alike s) (hrest : rest <:+ s) : Alike rest :=
  fun c hc => h c (hrest.subset hc)

theorem Alike.tail {c : Char} {s : List Char} (h : Alike (c :: s)) : Alike s :=
  h.of_suffix (List.suffix_cons c s)

/-! ### Runs of digits in the automaton -/

theorem mem_rest_of_glyph? {c : Char} {g : Glyph} (h : glyph? c = some g) (f : Form)
    (s : List Char) : c :: s ∈ f.rest ↔ ∃ f', f.next? g = some f' ∧ s ∈ f'.rest := by
  rw [cons_mem_rest, h]
  rfl

theorem glyph?_of_decimalDigit? {c : Char} (h : (Text.decimalDigit? c).isSome) :
    glyph? c = some .digit :=
  (glyph?_eq_some_iff c .digit).mpr (Text.isDigit_of_decimalDigit? h)

/-- Where no digit is, the automaton goes on only with another glyph. -/
theorem exists_glyph {f : Form} {c : Char} {s : List Char} (hs : Alike (c :: s))
    (hnone : NoDigit (c :: s)) (h : c :: s ∈ f.rest) :
    ∃ g f', glyph? c = some g ∧ g ≠ .digit ∧ f.next? g = some f' ∧ s ∈ f'.rest := by
  obtain ⟨f', hf', hrest⟩ := (cons_mem_rest f c s).mp h
  obtain ⟨g, hg, hnext⟩ := Option.bind_eq_some_iff.mp hf'
  refine ⟨g, f', hg, ?_, hnext, hrest⟩
  rintro rfl
  have hdigit := hs c (List.mem_cons_self ..) ((glyph?_eq_some_iff c .digit).mp hg)
  rw [hnone c s rfl] at hdigit
  cases hdigit

/-- A form that only a digit can follow. -/
structure Form.WantsDigit (f : Form) : Prop where
  incomplete : f.isComplete = false
  only : ∀ g, g ≠ .digit → f.next? g = none

theorem Form.wantsDigit {f : Form}
    (h : f ∈ [wholeSeparator, barePoint, fractionSeparator, markSigned, exponentSeparator]) :
    f.WantsDigit := by
  simp only [List.mem_cons, List.not_mem_nil, or_false] at h
  constructor
  · rcases h with rfl | rfl | rfl | rfl | rfl <;> rfl
  · intro g hg
    cases g with
    | digit => exact absurd rfl hg
    | _ => rcases h with rfl | rfl | rfl | rfl | rfl <;> rfl

/-- Where a digit has to follow and none does, the automaton leads nowhere. -/
theorem Form.WantsDigit.not_mem_rest {f : Form} (hf : f.WantsDigit) {s : List Char} (hs : Alike s)
    (hnone : NoDigit s) : s ∉ f.rest := by
  intro h
  cases s with
  | nil =>
    rw [nil_mem_rest, hf.incomplete] at h
    cases h
  | cons c s =>
    obtain ⟨g, f', _, hg, hnext, _⟩ := exists_glyph hs hnone h
    rw [hf.only g hg] at hnext
    cases hnext

/-- A form inside digits, with the form after a separator. -/
structure Form.Loops (f between : Form) : Prop where
  digit : f.next? .digit = some f
  separator : f.next? .separator = some between
  back : between.next? .digit = some f
  wants : between.WantsDigit

theorem Form.loops_whole : Form.whole.Loops .wholeSeparator :=
  ⟨rfl, rfl, rfl, wantsDigit (by decide)⟩

theorem Form.loops_fraction : Form.fraction.Loops .fractionSeparator :=
  ⟨rfl, rfl, rfl, wantsDigit (by decide)⟩

theorem Form.loops_exponent : Form.exponent.Loops .exponentSeparator :=
  ⟨rfl, rfl, rfl, wantsDigit (by decide)⟩

theorem digit_mem_rest_iff {f f' : Form} (h : f.next? .digit = some f') {c : Char}
    (hc : (Text.decimalDigit? c).isSome) (s : List Char) : c :: s ∈ f.rest ↔ s ∈ f'.rest := by
  rw [mem_rest_of_glyph? (glyph?_of_decimalDigit? hc), h]
  simp

section Loops
variable {f between : Form} (hf : f.Loops between)
include hf

theorem separator_mem_rest_iff (s : List Char) : '_' :: s ∈ f.rest ↔ s ∈ between.rest := by
  rw [mem_rest_of_glyph? (g := .separator) rfl, hf.separator]
  simp

theorem skipSeparator_mem_rest_iff (s : List Char) :
    skipSeparator Text.decimalDigit? s ∈ f.rest ↔ s ∈ f.rest := by
  rcases skipSeparator_cases s with ⟨c, r, rfl, hc, hskip⟩ | ⟨hskip, _⟩
  · rw [hskip, separator_mem_rest_iff hf, digit_mem_rest_iff hf.digit hc,
      digit_mem_rest_iff hf.back hc]
  · rw [hskip]

/-- A run of digits takes the automaton to where the run ends. -/
theorem TakesDigits.mem_rest_iff {s rest : List Char} {ds : List Nat} (h : TakesDigits s ds rest)
    (hds : ds ≠ []) {f₀ : Form} (h₀ : f₀.next? .digit = some f) :
    s ∈ f₀.rest ↔ rest ∈ f.rest := by
  induction h generalizing f₀ with
  | stop => exact absurd rfl hds
  | @take c s rest d ds hd hmore ih =>
    rw [digit_mem_rest_iff h₀ (by rw [hd]; rfl), ← skipSeparator_mem_rest_iff hf]
    cases ds with
    | nil => rw [hmore.nil.1]
    | cons d' ds => exact ih (List.cons_ne_nil _ _) hf.digit

/-- After a run of digits a separator leads nowhere. -/
theorem EndsRun.separator_not_mem_rest {s : List Char} (hends : EndsRun s) (hs : Alike s) :
    ∀ r, s = '_' :: r → s ∉ f.rest := by
  rintro r rfl
  rw [separator_mem_rest_iff hf]
  exact hf.wants.not_mem_rest hs.tail (hends.separator r rfl)

end Loops

/-! ### Signs -/

/-- A sign is taken if there is one. -/
theorem takeSign_cases (s : List Char) :
    (∃ c r, s = c :: r ∧ glyph? c = some .sign ∧ (takeSign s).2 = r) ∨
    (takeSign s).2 = s ∧ ∀ c r, s = c :: r → glyph? c ≠ some .sign := by
  unfold takeSign
  split
  case h_1 r => exact .inl ⟨'-', r, rfl, rfl, rfl⟩
  case h_2 r => exact .inl ⟨'+', r, rfl, rfl, rfl⟩
  case h_3 hminus hplus =>
    refine .inr ⟨rfl, ?_⟩
    rintro c r rfl hc
    rcases (glyph?_eq_some_iff c .sign).mp hc with rfl | rfl
    · exact hplus r rfl
    · exact hminus r rfl

theorem takeSign_suffix (s : List Char) : (takeSign s).2 <:+ s := by
  rcases takeSign_cases s with ⟨c, r, rfl, _, hr⟩ | ⟨hs, _⟩
  · rw [hr]
    exact List.suffix_cons c r
  · rw [hs]

/-- A form with a place for a sign, and the form after the sign. -/
structure Form.Signs (f f' : Form) : Prop where
  sign : f.next? .sign = some f'
  other : ∀ g, g ≠ .sign → f.next? g = f'.next? g
  complete : f.isComplete = f'.isComplete

theorem Form.signs_start : Form.start.Signs .signed :=
  ⟨rfl, fun g hg => by cases g <;> first | rfl | exact absurd rfl hg, rfl⟩

theorem Form.signs_mark : Form.mark.Signs .markSigned :=
  ⟨rfl, fun g hg => by cases g <;> first | rfl | exact absurd rfl hg, rfl⟩

/-- To take a sign is the step of the automaton at a sign. -/
theorem takeSign_mem_rest_iff {f f' : Form} (hf : f.Signs f') (s : List Char) :
    (takeSign s).2 ∈ f'.rest ↔ s ∈ f.rest := by
  rcases takeSign_cases s with ⟨c, r, rfl, hc, hr⟩ | ⟨hs, hother⟩
  · rw [hr, mem_rest_of_glyph? hc, hf.sign]
    simp
  · rw [hs]
    cases s with
    | nil => rw [nil_mem_rest, nil_mem_rest, hf.complete]
    | cons c s =>
      have hnext : (glyph? c).bind f.next? = (glyph? c).bind f'.next? := by
        refine Option.bind_congr fun g hg => hf.other g ?_
        rintro rfl
        exact hother c s rfl hg
      rw [cons_mem_rest, cons_mem_rest, hnext]

theorem isNumeral_iff_takeSign (s : List Char) :
    isNumeral s = true ↔ (takeSign s).2 ∈ Form.signed.rest := by
  rw [takeSign_mem_rest_iff Form.signs_start]
  exact isNumeral_iff s

/-! ### Exponents -/

/-- Only digits go on in an exponent. -/
theorem mem_exponent_rest_iff {s : List Char} (hs : Alike s) (hends : EndsRun s) :
    s ∈ Form.exponent.rest ↔ s = [] := by
  cases s with
  | nil => simp [nil_mem_rest, Form.isComplete]
  | cons c s =>
    refine iff_of_false (fun h => ?_) (List.cons_ne_nil _ _)
    obtain ⟨g, f', hglyph, hg, hnext, _⟩ := exists_glyph hs hends.noDigit h
    cases g with
    | digit => exact hg rfl
    | separator =>
      obtain rfl := (glyph?_eq_some_iff c .separator).mp hglyph
      exact hends.separator_not_mem_rest Form.loops_exponent hs s rfl h
    | _ => cases hnext

/-- The digits of an exponent are one run. -/
theorem mem_markSigned_rest_iff {s rest : List Char} {ds : List Nat} (hs : Alike s)
    (h : TakesDigits s ds rest) : s ∈ Form.markSigned.rest ↔ ds ≠ [] ∧ rest = [] := by
  cases ds with
  | nil =>
    obtain ⟨rfl, hnone⟩ := h.nil
    have hwants : Form.markSigned.WantsDigit := Form.wantsDigit (by decide)
    exact iff_of_false (hwants.not_mem_rest hs hnone) (fun hds => hds.1 rfl)
  | cons d ds =>
    have hds : d :: ds ≠ [] := List.cons_ne_nil _ _
    rw [h.mem_rest_iff Form.loops_exponent hds rfl,
      mem_exponent_rest_iff (hs.of_suffix h.suffix) (h.ends hds)]
    simp

theorem exponent?_isSome_iff (c : Char) (s : List Char) :
    (Decimal.exponent? (c :: s)).isSome ↔ (c = 'e' ∨ c = 'E') ∧
      (digitRun Text.decimalDigit? (takeSign s).2).1 ≠ [] ∧
      (digitRun Text.decimalDigit? (takeSign s).2).2 = [] := by
  unfold Decimal.exponent?
  by_cases hc : c = 'e' ∨ c = 'E'
  · simp only [hc, if_true, true_and]
    obtain ⟨ds, rest⟩ := digitRun Text.decimalDigit? (takeSign s).2
    cases ds <;> cases rest <;> simp
  · simp [hc]

/-- Where a numeral may end or have an exponent, and nothing else goes on, the automaton and
the reader want the same. -/
theorem mem_rest_iff_exponent? {f : Form} (hcomplete : f.isComplete = true)
    (hmark : f.next? .exponent = some .mark) (hsign : f.next? .sign = none) {s : List Char}
    (hs : Alike s) (hnone : NoDigit s) (hseparator : ∀ r, s = '_' :: r → s ∉ f.rest)
    (hpoint : ∀ r, s = '.' :: r → s ∉ f.rest) :
    s ∈ f.rest ↔ (Decimal.exponent? s).isSome := by
  cases s with
  | nil => simp [nil_mem_rest, hcomplete, Decimal.exponent?]
  | cons c s =>
    rw [exponent?_isSome_iff]
    by_cases hc : c = 'e' ∨ c = 'E'
    · have hglyph : glyph? c = some .exponent := (glyph?_eq_some_iff c .exponent).mpr hc
      have hsuffix := takeSign_suffix s
      rw [mem_rest_of_glyph? hglyph, hmark, ← mem_markSigned_rest_iff
        (hs.tail.of_suffix hsuffix) (takesDigits_digitRun _), takeSign_mem_rest_iff Form.signs_mark]
      simp [hc]
    · refine iff_of_false (fun h => ?_) (fun h => hc h.1)
      obtain ⟨g, f', hglyph, hg, hnext, _⟩ := exists_glyph hs hnone h
      rw [glyph?_eq_some_iff] at hglyph
      cases g with
      | digit => exact hg rfl
      | separator =>
        obtain rfl := hglyph
        exact hseparator s rfl h
      | point =>
        obtain rfl := hglyph
        exact hpoint s rfl h
      | exponent => exact hc hglyph
      | sign =>
        rw [hsign] at hnext
        cases hnext

/-! ### Decimals -/

theorem point_mem_rest_iff (f : Form) (s : List Char) :
    '.' :: s ∈ f.rest ↔ ∃ f', f.next? .point = some f' ∧ s ∈ f'.rest :=
  mem_rest_of_glyph? rfl f s

theorem fraction_cases (s : List Char) :
    (∃ r, s = '.' :: r ∧ Decimal.fraction s = digitRun Text.decimalDigit? r) ∨
    (∀ r, s ≠ '.' :: r) ∧ Decimal.fraction s = ([], s) := by
  unfold Decimal.fraction
  split
  case h_1 r => exact .inl ⟨r, rfl, rfl⟩
  case h_2 hpoint => exact .inr ⟨hpoint, rfl⟩

theorem decimal_isSome_iff (neg : Bool) (s : List Char) :
    (Decimal.parse? neg s).isSome ↔
      let run := digitRun Text.decimalDigit? s
      let part := Decimal.fraction run.2
      ¬(run.1 = [] ∧ part.1 = []) ∧ (Decimal.exponent? part.2).isSome := by
  unfold Decimal.parse?
  obtain ⟨whole, rest⟩ := digitRun Text.decimalDigit? s
  obtain ⟨part, rest'⟩ := Decimal.fraction rest
  simp only
  split_ifs with h <;> simp [h]

/-- What comes after the digits that follow a point. -/
theorem mem_fraction_rest_iff {s rest : List Char} {d : Nat} {ds : List Nat} (hs : Alike s)
    (h : TakesDigits s (d :: ds) rest) {f₀ : Form} (h₀ : f₀.next? .digit = some .fraction) :
    s ∈ f₀.rest ↔ (Decimal.exponent? rest).isSome := by
  have hds : d :: ds ≠ [] := List.cons_ne_nil _ _
  have hrest : Alike rest := hs.of_suffix h.suffix
  have hends : EndsRun rest := h.ends hds
  rw [h.mem_rest_iff Form.loops_fraction hds h₀]
  refine mem_rest_iff_exponent? rfl rfl rfl hrest hends.noDigit
    (hends.separator_not_mem_rest Form.loops_fraction hrest) ?_
  rintro r rfl
  simp [point_mem_rest_iff, Form.next?]

/-- What comes after the digits before a point. -/
theorem mem_whole_rest_iff {s : List Char} (hs : Alike s) (hends : EndsRun s) :
    s ∈ Form.whole.rest ↔ (Decimal.exponent? (Decimal.fraction s).2).isSome := by
  rcases fraction_cases s with ⟨r, rfl, hfraction⟩ | ⟨hpoint, hfraction⟩
  · have h := takesDigits_digitRun r
    rw [hfraction]
    generalize digitRun Text.decimalDigit? r = run at h ⊢
    obtain ⟨part, rest⟩ := run
    have hstep : '.' :: r ∈ Form.whole.rest ↔ r ∈ Form.point.rest := by
      simp [point_mem_rest_iff, Form.next?]
    rw [hstep]
    cases part with
    | nil =>
      -- the numeral may end with its point, and a separator cannot follow one
      obtain ⟨rfl, hnone⟩ := h.nil
      refine mem_rest_iff_exponent? rfl rfl rfl hs.tail hnone ?_ ?_
      · rintro r rfl
        simp [mem_rest_of_glyph? (c := '_') (g := .separator) rfl, Form.next?]
      · rintro r rfl
        simp [point_mem_rest_iff, Form.next?]
    | cons d ds => exact mem_fraction_rest_iff hs.tail h rfl
  · rw [hfraction]
    exact mem_rest_iff_exponent? rfl rfl rfl hs hends.noDigit
      (hends.separator_not_mem_rest Form.loops_whole hs) (fun r h => absurd h (hpoint r))

/-- Without digits before the point there are some after it. -/
theorem mem_signed_rest_of_noDigit {s : List Char} (hs : Alike s) (hnone : NoDigit s) :
    s ∈ Form.signed.rest ↔ (Decimal.fraction s).1 ≠ [] ∧
      (Decimal.exponent? (Decimal.fraction s).2).isSome := by
  rcases fraction_cases s with ⟨r, rfl, hfraction⟩ | ⟨hpoint, hfraction⟩
  · have h := takesDigits_digitRun r
    rw [hfraction]
    generalize digitRun Text.decimalDigit? r = run at h ⊢
    obtain ⟨part, rest⟩ := run
    have hstep : '.' :: r ∈ Form.signed.rest ↔ r ∈ Form.barePoint.rest := by
      simp [point_mem_rest_iff, Form.next?]
    rw [hstep]
    cases part with
    | nil =>
      have hwants : Form.barePoint.WantsDigit := Form.wantsDigit (by decide)
      exact iff_of_false (hwants.not_mem_rest hs.tail h.nil.2) (fun hr => hr.1 rfl)
    | cons d ds =>
      have hpart : r ∈ Form.barePoint.rest ↔ (Decimal.exponent? rest).isSome :=
        mem_fraction_rest_iff hs.tail h rfl
      simp [hpart]
  · rw [hfraction]
    refine iff_of_false (fun h => ?_) (fun hr => hr.1 rfl)
    cases s with
    | nil => simp [nil_mem_rest, Form.isComplete] at h
    | cons c s =>
      obtain ⟨g, f', hglyph, hg, hnext, _⟩ := exists_glyph hs hnone h
      cases g with
      | digit => exact hg rfl
      | point =>
        obtain rfl := (glyph?_eq_some_iff c .point).mp hglyph
        exact hpoint s rfl
      | _ => cases hnext

/-- After the sign, the automaton accepts what the reader takes for a decimal. -/
theorem mem_signed_rest_iff (neg : Bool) {s : List Char} (hs : Alike s) :
    s ∈ Form.signed.rest ↔ (Decimal.parse? neg s).isSome := by
  have h := takesDigits_digitRun s
  rw [decimal_isSome_iff]
  generalize digitRun Text.decimalDigit? s = run at h ⊢
  obtain ⟨whole, rest⟩ := run
  cases whole with
  | nil =>
    obtain ⟨rfl, hnone⟩ := h.nil
    simp [mem_signed_rest_of_noDigit hs hnone]
  | cons d ds =>
    have hds : d :: ds ≠ [] := List.cons_ne_nil _ _
    rw [h.mem_rest_iff Form.loops_whole hds rfl,
      mem_whole_rest_iff (hs.of_suffix h.suffix) (h.ends hds)]
    simp

/-- A text that has only digits of the reader has the form of a numeral if the reader takes it
for a decimal. -/
theorem isNumeral_iff_parse? {s : List Char} (hs : Alike s) :
    isNumeral s = true ↔ (Decimal.parse? (takeSign s).1 (takeSign s).2).isSome := by
  rw [← mem_signed_rest_iff _ (hs.of_suffix (takeSign_suffix s)), isNumeral_iff_takeSign]

/-! ### Infinities and NaN -/

/-- The words for numbers that have no numerals, in lower case. -/
def specials : List (List Char) :=
  [['i', 'n', 'f'], ['i', 'n', 'f', 'i', 'n', 'i', 't', 'y'], ['n', 'a', 'n']]

/-- A word for an infinity or NaN, in any case of letters, with or without a sign. -/
def SpellsSpecial (s : List Char) : Prop :=
  ∃ sign word, s = sign ++ word ∧ sign ∈ [[], ['+'], ['-']] ∧ word.map Char.toLower ∈ specials

/-- The case of a letter makes no difference to its glyph. -/
theorem glyph?_toLower (c : Char) : glyph? c.toLower = glyph? c := by
  have hupper : ∀ i < 26, glyph? (Char.ofNat (65 + i)).toLower = glyph? (Char.ofNat (65 + i)) := by
    decide +kernel
  by_cases hc : 65 ≤ c.toNat ∧ c.toNat ≤ 90
  · have hletter := hupper (c.toNat - 65) (by omega)
    rwa [Nat.add_sub_cancel' hc.1, Char.ofNat_toNat] at hletter
  · have hlower : c.toLower = c := by
      unfold Char.toLower
      exact dif_neg fun h => hc h
    rw [hlower]

theorem specials_head {word : List Char} (h : word.map Char.toLower ∈ specials) :
    ∃ c r, word = c :: r ∧ glyph? c = none := by
  cases word with
  | nil => exact absurd h (by decide)
  | cons c r =>
    refine ⟨c, r, rfl, ?_⟩
    rw [← glyph?_toLower]
    simp only [specials, List.map_cons, List.mem_cons, List.cons.injEq, List.not_mem_nil,
      or_false] at h
    rcases h with ⟨hc, _⟩ | ⟨hc, _⟩ | ⟨hc, _⟩ <;> rw [hc] <;> decide

/-- No such word has the form of a numeral. -/
theorem not_mem_rest_of_specials {word : List Char} (h : word.map Char.toLower ∈ specials)
    (f : Form) : word ∉ f.rest := by
  obtain ⟨c, r, rfl, hc⟩ := specials_head h
  simp [cons_mem_rest, hc]

theorem special?_isSome_iff (neg : Bool) (s : List Char) :
    (Binary64.special? neg s).isSome ↔ s.map Char.toLower ∈ specials := by
  simp only [Binary64.special?, specials, List.mem_cons, List.not_mem_nil, or_false, ← or_assoc]
  split_ifs <;> simp_all

theorem spellsSpecial_iff (s : List Char) :
    SpellsSpecial s ↔ (takeSign s).2.map Char.toLower ∈ specials := by
  constructor
  · rintro ⟨sign, word, rfl, hsign, hword⟩
    simp only [List.mem_cons, List.not_mem_nil, or_false] at hsign
    rcases hsign with rfl | rfl | rfl
    · -- without a sign none is taken off the word
      obtain ⟨c, r, rfl, hc⟩ := specials_head hword
      rcases takeSign_cases (c :: r) with ⟨c', r', h, hc', _⟩ | ⟨h, _⟩
      · obtain ⟨rfl, rfl⟩ := List.cons.inj h
        rw [hc] at hc'
        cases hc'
      · rwa [List.nil_append, h]
    · exact hword
    · exact hword
  · intro h
    rcases takeSign_cases s with ⟨c, r, rfl, hc, hr⟩ | ⟨hs, _⟩
    · rw [hr] at h
      refine ⟨[c], r, rfl, ?_, h⟩
      rcases (glyph?_eq_some_iff c .sign).mp hc with rfl | rfl <;> decide
    · rw [hs] at h
      exact ⟨[], s, rfl, by decide, h⟩

theorem not_spellsSpecial_of_isNumeral {s : List Char} (h : isNumeral s = true) :
    ¬ SpellsSpecial s := by
  rw [isNumeral_iff_takeSign] at h
  rw [spellsSpecial_iff]
  exact fun hword => not_mem_rest_of_specials hword .signed h

end Rpn.Numeral

namespace Rpn.Lexeme

/-! ### Tokens without blanks -/

theorem trim_of_not_isBlank {s : List Char} (h : ∀ c ∈ s, Text.isBlank c = false) :
    Text.trim s = s := by
  have hdrop {s : List Char} (h : ∀ c ∈ s, Text.isBlank c = false) :
      s.dropWhile Text.isBlank = s := by
    cases s with
    | nil => rfl
    | cons c s => rw [List.dropWhile_cons_of_neg (by simp [h])]
  rw [Text.trim, hdrop h, hdrop (fun c hc => h c (List.mem_reverse.mp hc)), List.reverse_reverse]

theorem number_isOk_iff (t : String) :
    (∃ x, Stack.number t = .ok x) ↔ (Binary64.parse? t).isSome := by
  unfold Stack.number
  cases Binary64.parse? t <;> simp

theorem parse?_isSome_iff {t : String} (h : ∀ c ∈ t.toList, Text.isBlank c = false) :
    (Binary64.parse? t).isSome ↔ Numeral.SpellsSpecial t.toList ∨
      (Decimal.parse? (Numeral.takeSign t.toList).1 (Numeral.takeSign t.toList).2).isSome := by
  rw [Numeral.spellsSpecial_iff, ← Numeral.special?_isSome_iff (Numeral.takeSign t.toList).1]
  simp only [Binary64.parse?, trim_of_not_isBlank h]
  cases Binary64.special? _ _ <;> simp

/-- **The numbers of the lexer are the numbers of the engine.** A text without blanks and
parentheses, in which the digits of the lexer are those of the engine, is one lexeme. It
is a number if the engine reads a number from it that is not a word for an infinity or
NaN, and only then. Otherwise it is a word. -/
theorem lexer_numbers_are_engine_numbers (t : String) (hne : t ≠ "")
    (hchars : ∀ c ∈ t.toList, Text.isBlank c = false ∧ isParenthesis c = false)
    (hdigits : ∀ c ∈ t.toList, Text.isDigit c = true ↔ (Text.decimalDigit? c).isSome) :
    ∃ g, ofLine t = [⟨g, t⟩] ∧
      (g = .number ↔ (∃ x, Stack.number t = .ok x) ∧ ¬ Numeral.SpellsSpecial t.toList) ∧
      (g ≠ .number → g = .word) := by
  have hrun : MaximalRun isWordChar [] t.toList [] := by
    refine ⟨fun h => hne (String.toList_eq_nil_iff.mp h), fun c hc => ?_, nofun, nofun⟩
    simp [isWordChar, hchars c hc]
  have hcut := cut_of_run hrun
  rw [List.append_nil, cut] at hcut
  have halike : Numeral.Alike t.toList := fun c hc => (hdigits c hc).mp
  have hnumeral : Numeral.isNumeral t.toList = true ↔
      (∃ x, Stack.number t = .ok x) ∧ ¬ Numeral.SpellsSpecial t.toList := by
    rw [number_isOk_iff, parse?_isSome_iff fun c hc => (hchars c hc).1,
      ← Numeral.isNumeral_iff_parse? halike]
    have hspecial := @Numeral.not_spellsSpecial_of_isNumeral t.toList
    tauto
  rw [← hnumeral]
  refine ⟨(ofRun t.toList).group, ?_, ?_, ?_⟩
  · rw [ofLine, hcut, ofRun, String.ofList_toList]
  · unfold ofRun
    split <;> simp_all
  · unfold ofRun
    split <;> simp

/-- A numeral, and a word for an infinity, which is a number to the engine alone. -/
theorem lexer_numbers_are_engine_numbers_of_texts :
    ofLine "+1_0.e-5" = [⟨.number, "+1_0.e-5"⟩] ∧
      (∃ x, Stack.number "-Infinity" = .ok x) ∧ ofLine "-Infinity" = [⟨.word, "-Infinity"⟩] := by
  obtain ⟨g, hline, hnumber, _⟩ := lexer_numbers_are_engine_numbers "+1_0.e-5" (by decide)
    (List.all_iff_forall_prop.mp (by decide)) (List.all_iff_forall_prop.mp (by decide))
  obtain ⟨g', hline', hnumber', hword'⟩ := lexer_numbers_are_engine_numbers "-Infinity"
    (by decide) (List.all_iff_forall_prop.mp (by decide)) (List.all_iff_forall_prop.mp (by decide))
  have hread : ∃ x, Stack.number "+1_0.e-5" = .ok x := (number_isOk_iff _).mpr (by decide +kernel)
  have hread' : ∃ x, Stack.number "-Infinity" = .ok x := (number_isOk_iff _).mpr (by decide +kernel)
  have hplain : ¬ Numeral.SpellsSpecial "+1_0.e-5".toList := by
    rw [Numeral.spellsSpecial_iff]
    decide
  have hspecial : Numeral.SpellsSpecial "-Infinity".toList := by
    rw [Numeral.spellsSpecial_iff]
    decide
  obtain rfl := hnumber.mpr ⟨hread, hplain⟩
  obtain rfl := hword' fun h => (hnumber'.mp h).2 hspecial
  exact ⟨hline, hread', hline'⟩

end Rpn.Lexeme
