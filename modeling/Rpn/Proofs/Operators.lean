import Rpn.Builtin
import Rpn.Lexeme

/-! What operators leave on the stack, and how they fail.

An operator moves tokens about, drops them, and writes numbers. So whatever is on the
stack after one was there before or is the text of a number: of a binary64 number, or of
an integer, which has at most 309 digits unless a token spelled it in another base. Such
a text is a word: it is not empty and has neither blanks nor parentheses in it. If an
operator fails, it is for its operands: there are too few, they are no numbers, or it
has no result for them. Both are one statement about the catalogue, `catalogue_writes`,
and each part of an operator has its own (`Yields`). What is left out is `gcd` on NaN,
which does not come to an end. -/
namespace Rpn

/-- The characters of a word or a number, as the lexemes of a line are cut. -/
structure Lexeme.IsRun (s : List Char) : Prop where
  nonempty : s ≠ []
  chars : ∀ c ∈ s, Lexeme.isWordChar c = true

/-- A token that is a single lexeme other than a parenthesis. -/
def IsWord (t : String) : Prop := Lexeme.IsRun t.toList

/-! ### Texts of numbers -/

namespace Numeral

/-- The characters of the texts of numbers: digits up to base 16, the marks of a decimal,
and the letters of the infinities and NaN. -/
def alphabet : List Char :=
  ['0', '1', '2', '3', '4', '5', '6', '7', '8', '9', 'a', 'b', 'c', 'd', 'e', 'f', '.', '+', '-',
    'i', 'n']

/-- A text in the characters of numbers. -/
structure IsText (s : List Char) : Prop where
  nonempty : s ≠ []
  chars : ∀ c ∈ s, c ∈ alphabet

theorem isText_of_subset {s : List Char} (hs : s ≠ []) (h : s ⊆ alphabet) : IsText s :=
  ⟨hs, fun _ hc => h hc⟩

theorem digitChar_mem_alphabet : ∀ d < 16, digitChar d ∈ alphabet := by decide

theorem isText_digits {base : Nat} (hlow : 2 ≤ base) (hhigh : base ≤ 16) (n : Nat) :
    IsText (digits base n) := by
  induction n using Nat.strongRecOn with
  | ind n ih =>
    by_cases h : n < base ∨ base < 2
    · rw [digits_of_lt h]
      refine ⟨by simp, fun c hc => ?_⟩
      rw [List.mem_singleton.mp hc]
      exact digitChar_mem_alphabet n (by omega)
    · rw [digits_eq h]
      have hrest := ih (n / base) (Nat.div_lt_self (by omega) (by omega))
      refine ⟨by simp, fun c hc => ?_⟩
      rcases List.mem_append.mp hc with hc | hc
      · exact hrest.chars c hc
      · rw [List.mem_singleton.mp hc]
        have := Nat.mod_lt n (show 0 < base by omega)
        exact digitChar_mem_alphabet _ (by omega)

/-- A sign may stand in front. -/
theorem IsText.neg {s : List Char} (h : IsText s) : IsText ('-' :: s) := by
  refine ⟨by simp, fun c hc => ?_⟩
  rcases List.mem_cons.mp hc with rfl | hc
  · decide
  · exact h.chars c hc

theorem isText_intDigits {base : Nat} (hlow : 2 ≤ base) (hhigh : base ≤ 16) (n : Int) :
    IsText (intDigits base n) := by
  have htext := isText_digits hlow hhigh n.natAbs
  unfold intDigits
  split
  · exact htext.neg
  · exact htext

end Numeral

/-- A token in the characters of numbers. -/
def IsNumeric (t : String) : Prop := Numeral.IsText t.toList

theorem isNumeric_ofList {s : List Char} (h : Numeral.IsText s) :
    IsNumeric (String.ofList s) := by
  unfold IsNumeric
  rwa [String.toList_ofList]

theorem IsNumeric.isWord {t : String} (h : IsNumeric t) : IsWord t := by
  have halphabet : ∀ c ∈ Numeral.alphabet, Lexeme.isWordChar c = true :=
    List.all_eq_true.mp (by decide)
  exact ⟨h.nonempty, fun c hc => halphabet c (h.chars c hc)⟩

theorem Numeral.isNumeric_intText (n : Int) : IsNumeric (intText n) :=
  isNumeric_ofList (isText_intDigits (by decide) (by decide) n)

theorem Radix.isNumeric_spell (r : Radix) (n : Int) : IsNumeric (r.spell n) := by
  apply isNumeric_ofList
  apply Numeral.isText_intDigits <;> cases r <;> decide

namespace Layout

/-- What stands in the text of a decimal besides its digits. -/
def marks : List Char := ['.', '0', 'e', '+', '-']

theorem mem_positional {ds : List Char} {e : Int} {c : Char} (h : c ∈ positional ds e) :
    c ∈ ds ∨ c ∈ marks := by
  unfold positional at h
  grind [zeros, marks, List.mem_of_mem_take, List.mem_of_mem_drop]

theorem positional_ne_nil (ds : List Char) (e : Int) : positional ds e ≠ [] := by
  simp only [positional]
  split
  · simp
  · split <;> simp

theorem mem_scientific {width : Nat} {ds : List Char} {lead : Int} {c : Char}
    (h : c ∈ scientific width ds lead) :
    c ∈ ds ∨ c ∈ Numeral.digits 10 lead.natAbs ∨ c ∈ marks := by
  unfold scientific at h
  grind [zeros, marks]

theorem isText_magnitude (l : Layout) (d : Decimal) : Numeral.IsText (l.magnitude d) := by
  have hdigits := @Numeral.isText_digits 10 (by decide) (by decide)
  have hmarks : marks ⊆ Numeral.alphabet := by decide
  simp only [magnitude]
  split
  · refine ⟨positional_ne_nil _ _, fun c hc => ?_⟩
    rcases mem_positional hc with hc | hc
    · exact (hdigits _).chars c hc
    · exact hmarks hc
  · refine ⟨by simp [scientific], fun c hc => ?_⟩
    rcases mem_scientific hc with hc | hc | hc
    · exact (hdigits _).chars c hc
    · exact (hdigits _).chars c hc
    · exact hmarks hc

end Layout

theorem Binary64.isNumeric_text (x : Binary64) : IsNumeric x.text := by
  cases x with
  | nan => exact Numeral.isText_of_subset (by decide) (by decide)
  | inf neg => cases neg <;> exact Numeral.isText_of_subset (by decide) (by decide)
  | finite neg n h =>
    have htext := Layout.isText_magnitude .standard (Decimal.shortest n h)
    apply isNumeric_ofList
    cases neg with
    | false => exact htext
    | true => exact htext.neg

/-! ### Short integers -/

/-- At most 309 decimal digits, as the integer part of a binary64 number has. -/
def Numeral.IsShort (n : Int) : Prop := n.natAbs < Nat.pow 10 309

theorem Numeral.isShort_of_le_maxRange {n : Int} (h : n.natAbs ≤ Operator.maxRange) : IsShort n :=
  Nat.lt_of_le_of_lt h (by decide +kernel)

namespace Binary64

/-- Numbers are below 2^1024, and that has 309 digits. -/
theorem isShort_of_natAbs_le {n : Int} (h : n.natAbs ≤ Nat.pow 2 rangeExponent) :
    Numeral.IsShort n := by
  have hrange : Nat.pow 2 rangeExponent < Nat.pow 10 309 := by
    unfold rangeExponent
    decide +kernel
  exact Nat.lt_of_le_of_lt h hrange

theorem natAbs_signed (neg : Bool) (n : Nat) : (signed neg n).natAbs = n := by
  cases neg <;> simp [signed]

theorem isShort_of_toInt? {x : Binary64} {n : Int} (h : x.toInt? = some n) :
    Numeral.IsShort n := by
  cases x with
  | nan => cases h
  | inf neg => cases h
  | finite neg k ok =>
    have hk : k / one < Nat.pow 2 rangeExponent := by
      rw [Nat.div_lt_iff_lt_mul one_pos, ← threshold_eq]
      exact ok.lt_threshold
    simp only [toInt?] at h
    split at h
    · obtain rfl := Option.some.inj h
      apply isShort_of_natAbs_le
      rw [natAbs_signed]
      exact Nat.le_of_lt hk
    · cases h

/-- The quotient of units by the units in one, rounded down. -/
theorem isShort_ediv_one {z : Int} (h : z.natAbs < threshold) : Numeral.IsShort (z / one) := by
  have hone : (0 : Int) < one := Int.ofNat_lt.mpr one_pos
  have hz : z.natAbs < Nat.pow 2 rangeExponent * one := threshold_eq ▸ h
  have hup : z ≤ (Nat.pow 2 rangeExponent : Nat) * (one : Int) := by omega
  have hdown : -(Nat.pow 2 rangeExponent : Nat) * (one : Int) ≤ z := by
    rw [Int.neg_mul]
    omega
  have hle := Int.ediv_le_ediv hone hup
  have hge := Int.ediv_le_ediv hone hdown
  rw [Int.mul_ediv_cancel _ (Int.ne_of_gt hone)] at hle hge
  apply isShort_of_natAbs_le
  omega

end Binary64

namespace Number

/-- Is the number short, if it is an integer? -/
def IsShort : Number → Prop
  | int n => Numeral.IsShort n
  | real _ => True

end Number

/-- The text of a short integer or of a binary64 number. -/
def IsDecimal (t : String) : Prop :=
  (∃ n, Numeral.IsShort n ∧ t = Numeral.intText n) ∨ ∃ x : Binary64, t = x.text

theorem IsDecimal.isNumeric {t : String} (h : IsDecimal t) : IsNumeric t := by
  rcases h with ⟨n, _, rfl⟩ | ⟨x, rfl⟩
  · exact Numeral.isNumeric_intText n
  · exact x.isNumeric_text

/-- Binary64 numbers are written as integers only if they are short. -/
theorem Number.isDecimal_token {n : Number} (h : n.IsShort) : IsDecimal n.token := by
  cases n with
  | int n => exact .inl ⟨n, h, rfl⟩
  | real x =>
    simp only [token]
    cases hx : x.toInt? with
    | none => exact .inr ⟨x, rfl⟩
    | some n =>
      simp only
      split
      · exact .inl ⟨n, Binary64.isShort_of_toInt? hx, rfl⟩
      · exact .inr ⟨x, rfl⟩

namespace Operator

theorem isShort_floor {a : Binary64} {r : Number} (h : floor a = some r) : r.IsShort := by
  obtain ⟨n, hn, rfl⟩ := Option.map_eq_some_iff.mp h
  cases a with
  | nan => cases hn
  | inf neg => cases hn
  | finite neg k ok =>
    obtain rfl := Option.some.inj hn
    apply Binary64.isShort_ediv_one
    rw [Binary64.natAbs_signed]
    exact ok.lt_threshold

theorem isShort_ceil {a : Binary64} {r : Number} (h : ceil a = some r) : r.IsShort := by
  obtain ⟨n, hn, rfl⟩ := Option.map_eq_some_iff.mp h
  cases a with
  | nan => cases hn
  | inf neg => cases hn
  | finite neg k ok =>
    obtain rfl := Option.some.inj hn
    have hdown : Numeral.IsShort (-Binary64.signed neg k / Binary64.one) := by
      apply Binary64.isShort_ediv_one
      rw [Int.natAbs_neg, Binary64.natAbs_signed]
      exact ok.lt_threshold
    show (-(-Binary64.signed neg k / Binary64.one)).natAbs < _
    rwa [Int.natAbs_neg]

theorem factorialNat_mono {m n : Nat} (h : m ≤ n) : factorialNat m ≤ factorialNat n := by
  induction h with
  | refl => exact Nat.le_refl _
  | @step n _ ih => exact Nat.le_trans ih (Nat.le_mul_of_pos_left _ (Nat.succ_pos n))

/-- 170! has 307 digits. -/
theorem isShort_factorial {a : Binary64} {r : Number} (h : factorial a = some r) : r.IsShort := by
  unfold factorial at h
  split at h
  · obtain rfl := Option.some.inj h
    split
    · trivial
    case isFalse hn =>
      have hlast : factorialNat 170 < Nat.pow 10 309 := by decide +kernel
      exact Nat.lt_of_le_of_lt (factorialNat_mono (Nat.le_of_not_lt hn)) hlast
  · cases h

theorem isShort_sign {a : Binary64} {r : Number} (h : sign a = some r) : r.IsShort := by
  unfold sign at h
  split at h
  · obtain rfl := Option.some.inj h
    trivial
  · split at h
    · obtain rfl := Option.some.inj h
      exact Numeral.isShort_of_le_maxRange (by decide)
    · split at h <;> obtain rfl := Option.some.inj h <;>
        exact Numeral.isShort_of_le_maxRange (by decide)

end Operator

/-! ### Attempts -/

namespace Fault

/-- Is the fault one of operands? -/
def isOperand (f : Fault) : Bool :=
  match f.kind with
  | .stackUnderflow | .notANumber | .domain => true
  | _ => false

/-- The integers in the wording of a fault are short. -/
def IsShort : Fault → Prop
  | underflow n | nestedDeeper n => Numeral.IsShort n
  | rangeTooLong n => Numeral.IsShort n
  | notInBase r _ => Numeral.IsShort r.base
  | notACount t => IsDecimal t
  | _ => True

/-- The fault stands for an operation that never ends, and NaN is among its operands. -/
def IsEndless (f : Fault) : Prop := ∃ xs, f = endless xs ∧ ∃ x ∈ xs, x.isNaN = true

/-- A fault that operands can cause. -/
structure OfOperands (f : Fault) : Prop where
  isOperand : f.isOperand = true
  isShort : f.IsShort

theorem ofOperands_underflow {n : Int} (h : Numeral.IsShort n) : OfOperands (underflow n) :=
  ⟨rfl, h⟩

theorem ofOperands_notInBase (r : Radix) (t : String) : OfOperands (notInBase r t) := by
  refine ⟨rfl, Numeral.isShort_of_le_maxRange ?_⟩
  cases r <;> decide

end Fault

/-- An attempt that gives a result with `P` or fails for its operands. -/
def Yields {α : Type} (P : α → Prop) : Except Fault α → Prop
  | .ok a => P a
  | .error f => f.OfOperands

theorem Yields.bind {α β : Type} {P : α → Prop} {Q : β → Prop} {x : Except Fault α}
    {f : α → Except Fault β} (hx : Yields P x) (hf : ∀ a, P a → Yields Q (f a)) :
    Yields Q (x >>= f) := by
  cases x with
  | ok a => exact hf a hx
  | error e => exact hx

theorem Yields.mono {α : Type} {P Q : α → Prop} {x : Except Fault α} (hx : Yields P x)
    (h : ∀ a, P a → Q a) : Yields Q x := by
  cases x with
  | ok a => exact h a hx
  | error e => exact hx

theorem yields_mapM {α β : Type} {f : α → Except Fault β} (hf : ∀ a, Yields (fun _ => True) (f a))
    (as : List α) : Yields (fun _ => True) (as.mapM f) := by
  induction as with
  | nil => trivial
  | cons a as ih =>
    rw [List.mapM_cons]
    exact (hf a).bind fun _ _ => ih.bind fun _ _ => trivial

theorem yields_foldlM {α β : Type} {f : β → α → Except Fault β}
    (hf : ∀ b a, Yields (fun _ => True) (f b a)) (as : List α) (b : β) :
    Yields (fun _ => True) (as.foldlM f b) := by
  induction as generalizing b with
  | nil => trivial
  | cons a as ih =>
    rw [List.foldlM_cons]
    exact (hf b a).bind fun b' _ => ih b'

/-- A refusal names its operands. -/
theorem yields_guarded {α : Type} (w : Template) (xs : List Binary64) (r : Option α) :
    Yields (fun a => r = some a) (guarded (.refused w xs) (.ok r)) := by
  cases r with
  | some a => rfl
  | none => exact ⟨rfl, trivial⟩

/-! ### Parts of the stack -/

namespace Stack

theorem require_yields (s : Stack) {n : Int} (hn : Numeral.IsShort n) :
    Yields (fun _ => True) (s.require n) := by
  unfold require
  split
  · exact Fault.ofOperands_underflow hn
  · trivial

theorem bottom_yields (s : Stack) {n : Int} (hn : Numeral.IsShort n) :
    Yields (· ⊆ s) (s.bottom n) :=
  (s.require_yields hn).bind fun _ _ => List.take_subset _ _

theorem dropBottom_yields (s : Stack) {n : Int} (hn : Numeral.IsShort n) :
    Yields (· ⊆ s) (s.dropBottom n) :=
  (s.require_yields hn).bind fun _ _ => List.drop_subset _ _

theorem top_yields (s : Stack) {n : Int} (hn : Numeral.IsShort n) : Yields (· ⊆ s) (s.top n) :=
  (s.require_yields hn).bind fun _ _ => List.drop_subset _ _

theorem dropTop_yields (s : Stack) {n : Int} (hn : Numeral.IsShort n) :
    Yields (· ⊆ s) (s.dropTop n) :=
  (s.require_yields hn).bind fun _ _ => List.take_subset _ _

theorem popToken_yields (s : Stack) : Yields (fun p => s = p.1 ++ [p.2]) s.popToken := by
  unfold popToken
  cases h : s.getLast? with
  | none => exact Fault.ofOperands_underflow (Numeral.isShort_of_le_maxRange (by decide))
  | some t =>
    obtain ⟨rest, rfl⟩ := List.getLast?_eq_some_iff.mp h
    show rest ++ [t] = (rest ++ [t]).dropLast ++ [t]
    rw [List.dropLast_concat]

theorem number_yields (t : String) : Yields (fun _ => True) (number t) := by
  unfold number
  split
  · trivial
  · exact ⟨rfl, trivial⟩

theorem popNumber_yields (s : Stack) : Yields (fun p => p.1 ⊆ s) s.popNumber := by
  refine s.popToken_yields.bind fun p hp => (number_yields p.2).bind fun x _ => ?_
  show p.1 ⊆ s
  rw [hp]
  exact List.subset_append_left _ _

theorem popNumbers_yields (s : Stack) {n : Int} (hn : Numeral.IsShort n) :
    Yields (fun p => p.1 ⊆ s) (s.popNumbers n) :=
  (s.dropTop_yields hn).bind fun _ hrest => (s.top_yields hn).bind fun ts _ =>
    (yields_mapM number_yields ts).bind fun _ _ => hrest

theorem popCount_yields (s : Stack) :
    Yields (fun p => p.1 ⊆ s ∧ Numeral.IsShort p.2) s.popCount := by
  refine s.popNumber_yields.bind fun p hp => ?_
  simp only
  split
  case h_1 n hx => exact ⟨hp, Binary64.isShort_of_toInt? hx⟩
  case h_2 => exact ⟨rfl, Number.isDecimal_token trivial⟩

/-! ### Operators -/

/-- After the operator each token was on the stack before or has `P`, and the operator
fails only for its operands. -/
abbrev WorksOn (P : String → Prop) (f : Stack → Except Fault Stack) (s : Stack) : Prop :=
  Yields (fun s' => ∀ t ∈ s', t ∈ s ∨ P t) (f s)

@[inherit_doc WorksOn] def Works (P : String → Prop) (f : Stack → Except Fault Stack) : Prop :=
  ∀ s, WorksOn P f s

theorem works_of_subset {P : String → Prop} {f : Stack → Except Fault Stack}
    (h : ∀ s, Yields (· ⊆ s) (f s)) : Works P f :=
  fun s => (h s).mono fun _ hs _ ht => .inl (hs ht)

/-- Tokens that were on the stack, and others with `P` after them. -/
theorem kept_append {P : String → Prop} {s rest new : Stack} (hrest : rest ⊆ s)
    (hnew : ∀ t ∈ new, P t) : ∀ t ∈ rest ++ new, t ∈ s ∨ P t := by
  intro t ht
  rcases List.mem_append.mp ht with ht | ht
  · exact .inl (hrest ht)
  · exact .inr (hnew t ht)

theorem kept_push {P : String → Prop} {s rest : Stack} {t : String} (hrest : rest ⊆ s)
    (ht : P t) : ∀ u ∈ rest ++ [t], u ∈ s ∨ P u :=
  kept_append hrest fun _ hu => List.mem_singleton.mp hu ▸ ht

section Rearrangements
variable {P : String → Prop}

theorem clear_works : Works P clear := works_of_subset fun s => List.nil_subset s

theorem discard_works : Works P discard :=
  works_of_subset fun s => s.dropTop_yields (Numeral.isShort_of_le_maxRange (by decide))

theorem discardCounted_works : Works P discardCounted := by
  apply works_of_subset
  intro s
  refine s.popCount_yields.bind fun p hp => ?_
  exact (dropTop_yields p.1 hp.2).mono fun _ h => List.Subset.trans h hp.1

theorem duplicate_works : Works P duplicate := by
  apply works_of_subset
  intro s
  have htop := s.top_yields (n := 1) (Numeral.isShort_of_le_maxRange (by decide))
  exact htop.bind fun _ h => List.append_subset.mpr ⟨List.Subset.refl s, h⟩

/-- Two parts of the stack, one after the other. -/
theorem parts_yields {s : Stack} {x y : Except Fault Stack} (hx : Yields (· ⊆ s) x)
    (hy : Yields (· ⊆ s) y) : Yields (· ⊆ s) (do return (← x) ++ (← y)) :=
  hx.bind fun _ ha => hy.bind fun _ hb => List.append_subset.mpr ⟨ha, hb⟩

theorem roll_works : Works P roll := by
  apply works_of_subset
  intro s
  have hone : Numeral.IsShort 1 := Numeral.isShort_of_le_maxRange (by decide)
  exact parts_yields (s.top_yields hone) (s.dropTop_yields hone)

theorem rollCounted_works : Works P rollCounted := by
  apply works_of_subset
  intro s
  refine s.popCount_yields.bind fun p hp => ?_
  exact (parts_yields (top_yields p.1 hp.2) (dropTop_yields p.1 hp.2)).mono
    fun _ h => List.Subset.trans h hp.1

theorem rotate_works : Works P rotate := by
  apply works_of_subset
  intro s
  have hone : Numeral.IsShort 1 := Numeral.isShort_of_le_maxRange (by decide)
  exact parts_yields (s.dropBottom_yields hone) (s.bottom_yields hone)

theorem rotateCounted_works : Works P rotateCounted := by
  apply works_of_subset
  intro s
  refine s.popCount_yields.bind fun p hp => ?_
  exact (parts_yields (dropBottom_yields p.1 hp.2) (bottom_yields p.1 hp.2)).mono
    fun _ h => List.Subset.trans h hp.1

theorem exchange_works : Works P exchange := by
  apply works_of_subset
  intro s
  have htwo : Numeral.IsShort 2 := Numeral.isShort_of_le_maxRange (by decide)
  refine (s.dropTop_yields htwo).bind fun _ ha => (s.top_yields htwo).bind fun _ hb => ?_
  exact List.append_subset.mpr ⟨ha, fun _ ht => hb (List.mem_reverse.mp ht)⟩

end Rearrangements

theorem combine_works (f : Binary64 → Binary64 → Binary64) (x : Binary64) :
    Works IsDecimal (combine f x) := by
  intro s
  have hfold := yields_foldlM (fun acc t => (number_yields t).bind
    (f := fun y => pure (f acc y)) fun _ _ => trivial) s x
  exact hfold.bind fun _ _ => kept_push (List.nil_subset s) (Number.isDecimal_token trivial)

theorem iota_works : Works IsDecimal iota := by
  intro s
  refine s.popCount_yields.bind fun p hp => ?_
  simp only
  split
  · exact ⟨rfl, Numeral.isShort_of_le_maxRange (Nat.le_refl _)⟩
  case isFalse hn =>
    refine kept_append hp.1 fun t ht => ?_
    obtain ⟨i, hi, rfl⟩ := List.mem_map.mp ht
    have hle : i + 1 ≤ Operator.maxRange :=
      Nat.le_trans (List.mem_range.mp hi) (Nat.le_of_not_lt hn)
    exact .inl ⟨(i + 1 : Nat), Numeral.isShort_of_le_maxRange hle, rfl⟩

end Stack

namespace Builtin

/-- The texts that an operator may write. An integer read from another base may be long,
but not too long to be written. -/
def Writes : Builtin → String → Prop
  | spell r, t => ∃ n, t = r.spell n
  | unspell _, t => ∃ n : Int, n.natAbs < Nat.pow 10 maxDecimalDigits ∧ t = Numeral.intText n
  | _, t => IsDecimal t

theorem Writes.isNumeric {b : Builtin} {t : String} (h : b.Writes t) : IsNumeric t := by
  cases b with
  | spell r =>
    obtain ⟨n, rfl⟩ := h
    exact r.isNumeric_spell n
  | unspell r =>
    obtain ⟨n, _, rfl⟩ := h
    exact Numeral.isNumeric_intText n
  | _ => exact IsDecimal.isNumeric h

/-- The integers among the results of an operator are short, and only NaN keeps it from
coming to an end. -/
def HasShortResults : Builtin → Prop
  | unary f => ∀ a r, f a = some r → r.IsShort
  | binary f => ∀ a b r, f a b = some r → r.IsShort
  | looping ends f => (∀ a b r, f a b = some r → r.IsShort) ∧
    ∀ a b, ends a b = false → a.isNaN = true ∨ b.isNaN = true
  | ternary f => ∀ a b c rs, f a b c = some rs → ∀ r ∈ rs, r.IsShort
  | stack f => Stack.Works IsDecimal f
  | _ => True

theorem unspelled_yields (r : Radix) (t : String) :
    Yields (unspell r).Writes (unspelled r t) := by
  unfold unspelled
  split
  case h_1 n _ =>
    split
    case isTrue hn => exact ⟨n, hn, rfl⟩
    case isFalse => exact Fault.ofOperands_notInBase r t
  · exact Fault.ofOperands_notInBase r t

def isLooping : Builtin → Bool
  | looping .. => true
  | _ => false

/-- Where the repetition ends it is a function of two numbers like any other. -/
theorem looping_cases (ends : Binary64 → Binary64 → Bool) (f : Binary64 → Binary64 → Option Number)
    (s : Stack) :
    (looping ends f).apply s = (binary f).apply s ∨
      ∃ a b, ends a b = false ∧ (looping ends f).apply s = .error (.endless [a, b]) := by
  simp only [apply]
  cases s.popNumbers 2 with
  | error e => exact .inl rfl
  | ok p =>
    obtain ⟨rest, xs⟩ := p
    match xs with
    | [a, b] =>
      cases hends : ends a b with
      | true => exact .inl (by simp [hends, bind, Except.bind, pure, Except.pure])
      | false => exact .inr ⟨a, b, hends, by simp [hends, bind, Except.bind]; rfl⟩
    | [] | [_] | _ :: _ :: _ :: _ => exact .inl rfl

/-- An operator with short results writes what its shape allows. -/
theorem HasShortResults.works {b : Builtin} (h : b.HasShortResults) (hb : b.isLooping = false) :
    Stack.Works b.Writes b.apply := by
  intro s
  have htwo : Numeral.IsShort 2 := Numeral.isShort_of_le_maxRange (by decide)
  have hthree : Numeral.IsShort 3 := Numeral.isShort_of_le_maxRange (by decide)
  cases b with
  | constant x => exact Stack.kept_push (List.Subset.refl s) (Number.isDecimal_token trivial)
  | unary f =>
    refine s.popNumber_yields.bind fun p hp => (yields_guarded _ _ _).bind fun r hr => ?_
    exact Stack.kept_push hp (Number.isDecimal_token (h _ _ hr))
  | binary f =>
    refine (s.popNumbers_yields htwo).bind fun p hp => ?_
    split
    · refine (yields_guarded _ _ _).bind fun r hr => ?_
      exact Stack.kept_push hp (Number.isDecimal_token (h _ _ _ hr))
    · exact Fault.ofOperands_underflow htwo
  | looping ends f => cases hb
  | ternary f =>
    refine (s.popNumbers_yields hthree).bind fun p hp => ?_
    split
    · refine (yields_guarded _ _ _).bind fun rs hrs => Stack.kept_append hp fun t ht => ?_
      obtain ⟨n, hn, rfl⟩ := List.mem_map.mp ht
      exact Number.isDecimal_token (h _ _ _ _ hrs n hn)
    · exact Fault.ofOperands_underflow hthree
  | spell r =>
    refine s.popNumber_yields.bind fun p hp => (yields_guarded _ _ _).bind fun n _ => ?_
    exact Stack.kept_push hp ⟨n, rfl⟩
  | unspell r =>
    refine s.popToken_yields.bind fun p hp => (unspelled_yields r p.2).bind fun t ht => ?_
    refine Stack.kept_push ?_ ht
    rw [hp]
    exact List.subset_append_left _ _
  | stack f => exact h s

/-- So does one that repeats, unless it never ends. -/
theorem HasShortResults.works_or_loops {b : Builtin} (h : b.HasShortResults) (s : Stack) :
    Stack.WorksOn b.Writes b.apply s ∨
      b.isLooping = true ∧ ∃ f, b.apply s = .error f ∧ f.IsEndless := by
  cases b with
  | looping ends f =>
    rcases looping_cases ends f s with hbinary | ⟨x, y, hends, herror⟩
    · have hworks := HasShortResults.works (b := binary f) h.1 rfl s
      refine .inl ?_
      unfold Stack.WorksOn
      rw [hbinary]
      exact hworks
    · refine .inr ⟨rfl, _, herror, [x, y], rfl, ?_⟩
      rcases h.2 x y hends with hx | hy
      · exact ⟨x, by simp, hx⟩
      · exact ⟨y, by simp, hy⟩
  | _ => exact .inl (h.works rfl s)

/-! ### The catalogue -/

section Shapes
open Operator

theorem total_short (f : Binary64 → Binary64) : (unary (total f)).HasShortResults := by
  intro a r h
  obtain rfl := Option.some.inj h
  trivial

theorem real_short (f : Binary64 → Option Binary64) : (unary (real f)).HasShortResults := by
  intro a r h
  obtain ⟨x, _, rfl⟩ := Option.map_eq_some_iff.mp h
  trivial

theorem total₂_short (f : Binary64 → Binary64 → Binary64) :
    (binary (total₂ f)).HasShortResults := by
  intro a b r h
  obtain rfl := Option.some.inj h
  trivial

theorem real₂_short (f : Binary64 → Binary64 → Option Binary64) :
    (binary (real₂ f)).HasShortResults := by
  intro a b r h
  obtain ⟨x, _, rfl⟩ := Option.map_eq_some_iff.mp h
  trivial

theorem gcd_short : (looping Binary64.gcdEnds (real₂ Binary64.gcd?)).HasShortResults := by
  refine ⟨real₂_short Binary64.gcd?, fun a b hends => ?_⟩
  cases ha : a.isNaN <;> cases hb : b.isNaN <;> simp_all [Binary64.gcdEnds]

theorem reals_short (f : Binary64 → Binary64 → Binary64 → Option (List Binary64)) :
    (ternary fun a b c => (f a b c).map (·.map .real)).HasShortResults := by
  intro a b c rs h r hr
  obtain ⟨xs, _, rfl⟩ := Option.map_eq_some_iff.mp h
  obtain ⟨x, _, rfl⟩ := List.mem_map.mp hr
  trivial

theorem catalogue_short : ∀ entry ∈ catalogue, entry.2.HasShortResults := by
  have hfloor : (unary floor).HasShortResults := fun _ _ => isShort_floor
  have hceil : (unary ceil).HasShortResults := fun _ _ => isShort_ceil
  have hround : (unary round).HasShortResults := fun _ _ => isShort_floor
  have hsign : (unary sign).HasShortResults := fun _ _ => isShort_sign
  have hfactorial : (unary factorial).HasShortResults := fun _ _ => isShort_factorial
  have hinverse : (unary inverse).HasShortResults := real_short (Binary64.div? 1)
  have hconstant : ∀ x, (constant x).HasShortResults := fun _ => trivial
  have hspell : ∀ r, (spell r).HasShortResults := fun _ => trivial
  have hunspell : ∀ r, (unspell r).HasShortResults := fun _ => trivial
  have hstack : ∀ f, (stack f).HasShortResults ↔ Stack.Works IsDecimal f := fun _ => Iff.rfl
  simp only [catalogue, List.forall_mem_cons, hconstant, total_short, real_short, total₂_short,
    real₂_short, gcd_short, reals_short, hfloor, hceil, hround, hsign, hfactorial, hinverse,
    hspell, hunspell, hstack, Stack.clear_works, Stack.discard_works, Stack.discardCounted_works,
    Stack.duplicate_works, Stack.roll_works, Stack.rollCounted_works, Stack.rotate_works,
    Stack.rotateCounted_works, Stack.exchange_works, Stack.combine_works, Stack.iota_works,
    List.not_mem_nil, false_implies, implies_true, and_self]

end Shapes

theorem eq_gcd_of_isLooping : ∀ entry ∈ catalogue, entry.2.isLooping = true → entry.1 = "gcd" := by
  simp [catalogue, isLooping]

/-- **Whatever an operator leaves on the stack was there before or is the text of a
number**, and an operator fails only for its operands. Only `gcd` may not come to an end,
and only with NaN. -/
theorem catalogue_writes : ∀ entry ∈ catalogue, ∀ s,
    Stack.WorksOn entry.2.Writes entry.2.apply s ∨
      entry.1 = "gcd" ∧ ∃ f, entry.2.apply s = .error f ∧ f.IsEndless := by
  intro entry h s
  rcases (catalogue_short entry h).works_or_loops s with hworks | ⟨hlooping, hendless⟩
  · exact .inl hworks
  · exact .inr ⟨eq_gcd_of_isLooping entry h hlooping, hendless⟩

section Results
variable {t : String} {b : Builtin} (h : (t, b) ∈ catalogue) {s : Stack}
include h

theorem mem_of_apply {s' : Stack} (hr : b.apply s = .ok s') : ∀ u ∈ s', u ∈ s ∨ b.Writes u := by
  rcases catalogue_writes _ h s with hworks | ⟨-, f, hf, -⟩
  · simp only [Stack.WorksOn, hr] at hworks
    exact hworks
  · rw [hr] at hf
    cases hf

theorem fault_of_apply {f : Fault} (hr : b.apply s = .error f) :
    f.OfOperands ∨ t = "gcd" ∧ f.IsEndless := by
  rcases catalogue_writes _ h s with hworks | ⟨hname, f', hf', hendless⟩
  · simp only [Stack.WorksOn, hr] at hworks
    exact .inl hworks
  · obtain rfl := Except.error.inj (hr.symm.trans hf')
    exact .inr ⟨hname, hendless⟩

end Results

end Builtin

end Rpn
