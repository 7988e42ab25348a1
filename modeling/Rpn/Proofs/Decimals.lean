import Mathlib.Algebra.Order.Field.Rat
import Mathlib.Data.Rat.Cast.Order
import Mathlib.Tactic.NormNum
import Mathlib.Tactic.Ring
import Rpn.Numeral.Layout
import Rpn.Proofs.Digits
import Rpn.Proofs.Rounding

/-! Decimals, by their value.

A decimal is read as the binary64 number nearest to its value, and the value alone
decides (`toBinary64_of_value_eq`): the exponents that are settled without their powers
of ten are settled as the powers would settle them. So a decimal may be written in any
layout (`readsAs_magnitude`), and trailing zeros may be dropped. The shortest decimal of
a number is read as the number (`toBinary64_shortest`), whichever of the candidates it
is. -/
namespace Rpn

namespace Decimal
open Numeral

/-! ### The value -/

/-- The magnitude of a decimal. -/
def value (d : Decimal) : ℚ := d.coefficient * 10 ^ d.exponent

/-- The value in units is a ratio of whole numbers. -/
def numerator (d : Decimal) : Nat := d.coefficient * 10 ^ d.exponent.toNat * Binary64.one

@[inherit_doc numerator] def denominator (d : Decimal) : Nat := 10 ^ (-d.exponent).toNat

theorem denominator_pos (d : Decimal) : 0 < d.denominator := Nat.pow_pos (by decide)

theorem denominator_of_nonneg {d : Decimal} (h : 0 ≤ d.exponent) : d.denominator = 1 := by
  rw [denominator, Int.toNat_of_nonpos (by omega), Nat.pow_zero]

theorem numerator_of_nonpos {d : Decimal} (h : d.exponent ≤ 0) :
    d.numerator = d.coefficient * Binary64.one := by
  rw [numerator, Int.toNat_of_nonpos h, Nat.pow_zero, Nat.mul_one]

theorem numerator_eq (d : Decimal) :
    (d.numerator : ℚ) = d.value * Binary64.one * d.denominator := by
  have hexp : (10 : ℚ) ^ d.exponent.toNat = 10 ^ d.exponent * 10 ^ (-d.exponent).toNat := by
    rw [← zpow_natCast, ← zpow_natCast, ← zpow_add₀ (by norm_num)]
    congr 1
    omega
  simp only [numerator, denominator, value]
  push_cast
  rw [hexp]
  ring

/-- A power of ten past the reach is past every finite number. -/
theorem threshold_le_of_reach {k : Nat} (h : reach < k) :
    Binary64.threshold ≤ 10 ^ k * Binary64.one := by
  have hreach : 2 ^ Binary64.rangeExponent ≤ 10 ^ reach := by
    unfold Binary64.rangeExponent reach
    decide +kernel
  rw [Binary64.threshold_eq]
  refine Nat.mul_le_mul_right _ (Nat.le_trans hreach ?_)
  exact Nat.pow_le_pow_right (by decide) (Nat.le_of_lt h)

/-- Farther below one than the reach and the bits of the coefficient, less than half a unit
is left. -/
theorem two_mul_lt_of_reach {c k : Nat} (h : reach + c.log2 < k) :
    2 * (c * Binary64.one) < 10 ^ k := by
  have hreach : 2 * 2 * Binary64.one ≤ 10 ^ reach := by
    unfold Binary64.one Binary64.unitExponent reach
    decide +kernel
  have hcoefficient : c < 2 * 2 ^ c.log2 := by
    rw [← Nat.pow_succ']
    exact Nat.lt_log2_self
  have hone := Binary64.one_pos
  calc 2 * (c * Binary64.one)
      < 2 * (2 * 2 ^ c.log2 * Binary64.one) := by
        have := Nat.mul_lt_mul_of_pos_right hcoefficient hone
        omega
    _ = 2 ^ c.log2 * (2 * 2 * Binary64.one) := by ring
    _ ≤ 10 ^ c.log2 * 10 ^ reach :=
        Nat.mul_le_mul (Nat.pow_le_pow_left (by decide) _) hreach
    _ = 10 ^ (reach + c.log2) := by rw [← Nat.pow_add, Nat.add_comm]
    _ ≤ 10 ^ k := Nat.pow_le_pow_right (by decide) (Nat.le_of_lt h)

/-- A decimal is read as its value, rounded once. -/
theorem toBinary64_eq (d : Decimal) :
    d.toBinary64 = .ofRatio d.neg d.numerator d.denominator := by
  unfold toBinary64
  split
  case isTrue hc =>
    have hnum : d.numerator = 0 := by simp [numerator, hc]
    rw [hnum, Binary64.ofRatio_eq_zero _ d.denominator_pos]
  case isFalse hc =>
    split
    case isTrue hbig =>
      have hle : Binary64.threshold ≤ d.numerator := by
        rw [numerator, Nat.mul_assoc]
        refine Nat.le_trans (threshold_le_of_reach (k := d.exponent.toNat) (by omega)) ?_
        exact Nat.le_mul_of_pos_left _ (Nat.pos_of_ne_zero hc)
      rw [denominator_of_nonneg (by omega), Binary64.ofRatio_eq_inf _ Nat.one_pos (by omega)]
    case isFalse =>
      split
      case isTrue hsmall =>
        have hlt : 2 * d.numerator < d.denominator := by
          rw [numerator_of_nonpos (by omega)]
          exact two_mul_lt_of_reach (by omega)
        rw [Binary64.ofRatio_eq_zero _ hlt]
      case isFalse =>
        split
        case isTrue hexp =>
          rw [denominator_of_nonneg hexp]
          rfl
        case isFalse hexp =>
          rw [numerator_of_nonpos (by omega)]
          rfl

/-- Decimals of one value are read alike. -/
theorem roundRatio_of_value_eq {d d' : Decimal} (h : d.value = d'.value) :
    Binary64.roundRatio d.numerator d.denominator =
      Binary64.roundRatio d'.numerator d'.denominator := by
  refine Binary64.roundRatio_congr d.denominator_pos d'.denominator_pos ?_
  have hcast : (d.numerator : ℚ) * d'.denominator = d'.numerator * d.denominator := by
    rw [numerator_eq, numerator_eq, h]
    ring
  exact_mod_cast hcast

/-- A decimal of the value of another is read as the same magnitude, with its own sign. -/
theorem toBinary64_of_value_eq {d d' : Decimal} {s : Bool} {n : Nat} {h : Binary64.Representable n}
    (hd : d.toBinary64 = .finite s n h) (hvalue : d'.value = d.value) :
    d'.toBinary64 = .finite d'.neg n h := by
  rw [toBinary64_eq] at hd ⊢
  refine Binary64.ofRatio_eq_finite ?_ h
  rw [roundRatio_of_value_eq hvalue]
  exact Binary64.roundRatio_of_ofRatio hd

/-! ### Reading -/

theorem reads_decimalDigit? : Reads Text.decimalDigit? 10 := ⟨by decide, by decide⟩

/-- The text of digits after a point; without digits there is no point. -/
def fractionText : List Nat → List Char
  | [] => []
  | d :: ds => '.' :: digitChars (d :: ds)

theorem fractionText_of_ne_nil {part : List Nat} (h : part ≠ []) :
    fractionText part = '.' :: digitChars part := by
  cases part with
  | nil => exact absurd rfl h
  | cons d ds => rfl

/-- A text that neither digits nor a point lead. -/
structure AfterDigits (s : List Char) : Prop where
  breaks : Breaks Text.decimalDigit? s
  point : s.head? ≠ some '.'

theorem AfterDigits.breaks_fractionText {s : List Char} (h : AfterDigits s) (part : List Nat) :
    Breaks Text.decimalDigit? (fractionText part ++ s) := by
  cases part with
  | nil => exact h.breaks
  | cons d ds => exact breaks_cons (by decide) (by decide) _

theorem AfterDigits.fraction {s : List Char} (h : AfterDigits s) {part : List Nat}
    (hpart : ∀ d ∈ part, d < 10) : fraction (fractionText part ++ s) = (part, s) := by
  cases part with
  | nil =>
    show Decimal.fraction s = ([], s)
    unfold Decimal.fraction
    split
    · exact absurd rfl h.point
    · rfl
  | cons d ds => exact digitRun_digitChars reads_decimalDigit? hpart h.breaks

/-- Digits, a fraction and an exponent are read as the decimal of all the digits. -/
theorem parse?_digitChars (neg : Bool) {whole part : List Nat} (hne : whole ≠ [])
    (hwhole : ∀ d ∈ whole, d < 10) (hpart : ∀ d ∈ part, d < 10) {s : List Char} {e : Int}
    (hs : AfterDigits s) (he : exponent? s = some e) :
    parse? neg (digitChars whole ++ (fractionText part ++ s)) =
      some ⟨neg, ofDigits 10 (whole ++ part), e - part.length⟩ := by
  have hrun := digitRun_digitChars reads_decimalDigit? hwhole (hs.breaks_fractionText part)
  simp [parse?, hrun, hs.fraction hpart, hne, he]

theorem afterDigits_nil : AfterDigits [] := ⟨breaks_nil, nofun⟩

theorem afterDigits_mark (s : List Char) : AfterDigits ('e' :: s) :=
  ⟨breaks_cons (by decide) (by decide) s, by simp⟩

theorem zeros_eq (k : Nat) : Layout.zeros k = digitChars (List.replicate k 0) := by
  rw [digitChars, List.map_replicate]
  rfl

theorem lt_of_mem_zeros {k d : Nat} (h : d ∈ List.replicate k 0) : d < 10 := by
  rw [List.eq_of_mem_replicate h]
  decide

/-- An exponent is read back, however many zeros are in front of its digits. -/
theorem exponent?_mark (k : Nat) (e : Int) :
    exponent? ('e' :: (if e < 0 then '-' else '+') :: (Layout.zeros k ++ digits 10 e.natAbs)) =
      some e := by
  obtain ⟨ds, hds⟩ : ∃ ds, Spells 10 e.natAbs ds := exists_digits (by decide) _
  have hlt : ∀ d ∈ List.replicate k 0 ++ ds, d < 10 :=
    List.forall_mem_append.mpr ⟨fun d => lt_of_mem_zeros, hds.lt⟩
  have hrun : digitRun Text.decimalDigit? (Layout.zeros k ++ digits 10 e.natAbs) =
      (List.replicate k 0 ++ ds, []) := by
    rw [zeros_eq, hds.text, ← digitChars_append]
    simpa using digitRun_digitChars reads_decimalDigit? hlt breaks_nil
  have hvalue : ofDigits 10 (List.replicate k 0 ++ ds) = e.natAbs := by
    rw [ofDigits_zeros_append, hds.value]
  obtain ⟨d, rest, hcons⟩ := List.exists_cons_of_ne_nil
    (show List.replicate k 0 ++ ds ≠ [] by simp [hds.nonempty])
  rw [hcons] at hrun hvalue
  by_cases he : e < 0
  · have hneg : -(e.natAbs : Int) = e := by omega
    simp only [he, if_true, exponent?, takeSign, hrun, hvalue, true_or, hneg]
  · have hpos : (e.natAbs : Int) = e := by omega
    simp only [he, if_false, if_true, exponent?, takeSign, hrun, hvalue, true_or,
      Bool.false_eq_true, hpos]

/-! ### Layouts -/

/-- The text is read as a decimal of this sign and value. -/
def ReadsAs (neg : Bool) (s : List Char) (v : ℚ) : Prop :=
  ∃ d, parse? neg s = some d ∧ d.neg = neg ∧ d.value = v

theorem readsAs_digitChars (neg : Bool) {whole part : List Nat} (hne : whole ≠ [])
    (hwhole : ∀ d ∈ whole, d < 10) (hpart : ∀ d ∈ part, d < 10) {s : List Char} {e : Int}
    (hs : AfterDigits s) (he : exponent? s = some e) {v : ℚ}
    (hv : (ofDigits 10 (whole ++ part) : ℚ) * 10 ^ (e - part.length) = v) :
    ReadsAs neg (digitChars whole ++ (fractionText part ++ s)) v :=
  ⟨_, parse?_digitChars neg hne hwhole hpart hs he, rfl, hv⟩

section Layouts
variable (neg : Bool) {c : Nat} {ds : List Nat} (h : Spells 10 c ds)
include h

/-- A power of ten that is not negative is written as zeros, and one more is after the point. -/
theorem readsAs_zeros (k : Nat) :
    ReadsAs neg (digitChars ds ++ Layout.zeros k ++ ['.', '0']) (c * 10 ^ k) := by
  have hlt : ∀ d ∈ ds ++ List.replicate k 0, d < 10 :=
    List.forall_mem_append.mpr ⟨h.lt, fun d => lt_of_mem_zeros⟩
  rw [zeros_eq, ← digitChars_append]
  have hpart : ∀ d ∈ [0], d < 10 := by decide
  refine readsAs_digitChars neg (by simp [h.nonempty]) hlt hpart afterDigits_nil rfl ?_
  rw [ofDigits_append, ofDigits_append_zeros, h.value, ofDigits_singleton]
  push_cast
  simp

/-- A point among the digits. -/
theorem readsAs_point {k : Nat} (hpos : 0 < k) (hlt : k < ds.length) :
    ReadsAs neg ((digitChars ds).take k ++ '.' :: (digitChars ds).drop k)
      (c * 10 ^ ((k : Int) - ds.length)) := by
  have hpart : ds.drop k ≠ [] := by simpa using hlt
  have hwhole : ds.take k ≠ [] := by
    simp only [ne_eq, List.take_eq_nil_iff, h.nonempty, or_false]
    omega
  have htext : (digitChars ds).take k ++ '.' :: (digitChars ds).drop k =
      digitChars (ds.take k) ++ (fractionText (ds.drop k) ++ []) := by
    rw [fractionText_of_ne_nil hpart, List.append_nil, digitChars, digitChars, digitChars,
      List.map_take, List.map_drop]
  rw [htext]
  refine readsAs_digitChars neg hwhole (fun d hd => h.lt d (List.mem_of_mem_take hd))
    (fun d hd => h.lt d (List.mem_of_mem_drop hd)) afterDigits_nil rfl ?_
  rw [List.take_append_drop, h.value, List.length_drop, Nat.cast_sub (Nat.le_of_lt hlt)]
  congr 2
  omega

/-- Zeros between the point and the digits. -/
theorem readsAs_fraction (k : Nat) :
    ReadsAs neg ('0' :: '.' :: (Layout.zeros k ++ digitChars ds))
      (c * 10 ^ (-(k : Int) - ds.length)) := by
  have hlt : ∀ d ∈ List.replicate k 0 ++ ds, d < 10 :=
    List.forall_mem_append.mpr ⟨fun d => lt_of_mem_zeros, h.lt⟩
  have htext : '0' :: '.' :: (Layout.zeros k ++ digitChars ds) =
      digitChars [0] ++ (fractionText (List.replicate k 0 ++ ds) ++ []) := by
    rw [fractionText_of_ne_nil (by simp [h.nonempty]), digitChars_append, ← zeros_eq,
      List.append_nil]
    rfl
  rw [htext]
  refine readsAs_digitChars neg (by simp) (by simp) hlt afterDigits_nil rfl ?_
  have hvalue : ofDigits 10 ([0] ++ (List.replicate k 0 ++ ds)) = c := by
    rw [show [0] = List.replicate 1 0 from rfl, ofDigits_zeros_append, ofDigits_zeros_append,
      h.value]
  rw [hvalue, List.length_append, List.length_replicate]
  push_cast
  congr 2
  omega

theorem readsAs_positional (e : Int) :
    ReadsAs neg (Layout.positional (digits 10 c) e) (c * 10 ^ e) := by
  have hlength : (digitChars ds).length = ds.length := List.length_map _
  rw [h.text]
  simp only [Layout.positional, hlength]
  split
  case isTrue he =>
    obtain ⟨k, rfl⟩ := Int.eq_ofNat_of_zero_le he
    simpa using readsAs_zeros neg h k
  case isFalse he =>
    split
    case isTrue hpoint =>
      have hk := readsAs_point neg h (k := (ds.length + e).toNat) (by omega) (by omega)
      rwa [show ((ds.length + e).toNat : Int) - ds.length = e by omega] at hk
    case isFalse hpoint =>
      have hk := readsAs_fraction neg h (-(ds.length + e)).toNat
      rwa [show -((-(ds.length + e)).toNat : Int) - ds.length = e by omega] at hk

theorem readsAs_scientific (width : Nat) (e : Int) :
    ReadsAs neg (Layout.scientific width (digits 10 c) (ds.length - 1 + e)) (c * 10 ^ e) := by
  obtain ⟨d, rest, rfl⟩ := List.exists_cons_of_ne_nil h.nonempty
  obtain ⟨hd, hrest⟩ := List.forall_mem_cons.mp h.lt
  generalize hlead : ((d :: rest).length : Int) - 1 + e = lead
  have htext : Layout.scientific width (digitChars (d :: rest)) lead =
      digitChars [d] ++ (fractionText rest ++ 'e' :: (if lead < 0 then '-' else '+') ::
        (Layout.zeros (width - (digits 10 lead.natAbs).length) ++ digits 10 lead.natAbs)) := by
    cases rest <;> rfl
  rw [h.text, htext]
  refine readsAs_digitChars neg (List.cons_ne_nil _ _) (List.forall_mem_singleton.mpr hd) hrest
    (afterDigits_mark _) (exponent?_mark _ _) ?_
  rw [List.singleton_append, h.value, ← hlead, List.length_cons]
  congr 2
  omega

end Layouts

/-- In whatever layout a decimal is written, its value is read back. -/
theorem readsAs_magnitude (l : Layout) (neg : Bool) (d : Decimal) :
    ReadsAs neg (l.magnitude d) d.value := by
  obtain ⟨ds, hds⟩ : ∃ ds, Spells 10 d.coefficient ds := exists_digits (by decide) _
  have hlength : (digits 10 d.coefficient).length = ds.length := by
    rw [hds.text]
    exact List.length_map _
  simp only [Layout.magnitude, hlength]
  split
  · exact readsAs_positional neg hds d.exponent
  · exact readsAs_scientific neg hds l.width d.exponent

/-! ### The shortest decimal -/

theorem value_normalize (d : Decimal) : d.normalize.value = d.value := by
  fun_induction normalize d with
  | case1 d h ih =>
    rw [ih]
    obtain ⟨c, hc⟩ := Nat.dvd_of_mod_eq_zero h.2
    simp only [value, hc, Nat.mul_div_cancel_left c (show 0 < 10 by decide)]
    rw [zpow_add_one₀ (by norm_num)]
    push_cast
    ring
  | case2 => rfl

theorem toBinary64_exact {n : Nat} (h : Binary64.Representable n) :
    (exact n).toBinary64 = .finite false n h := by
  have hnum : (exact n).numerator = n * (exact n).denominator := by
    rw [numerator_of_nonpos (by simp [exact]), denominator]
    simp only [exact, Binary64.one, Nat.pow_eq, neg_neg, Int.toNat_natCast]
    rw [show 10 = 5 * 2 from rfl, Nat.mul_pow]
    ring
  rw [toBinary64_eq, hnum]
  exact Binary64.ofRatio_mul _ (denominator_pos _) h

theorem toBinary64_readsBack? {x : Binary64} {n : Nat} {places : Int} {d : Decimal}
    (h : readsBack? x n places = some d) : d.toBinary64 = x := by
  unfold readsBack? at h
  grind

/-- The shortest decimal of a number is read as the number. -/
theorem toBinary64_shortest {n : Nat} (h : Binary64.Representable n) :
    (shortest n h).toBinary64 = .finite (shortest n h).neg n h := by
  unfold shortest
  split
  case isTrue hn =>
    subst hn
    rfl
  case isFalse hn =>
    -- the search hit a decimal that is read back, or all digits are taken
    refine toBinary64_of_value_eq (s := false) ?_ (value_normalize _)
    generalize hhit : List.findSome? _ _ = hit
    cases hit with
    | none => exact toBinary64_exact h
    | some d =>
      obtain ⟨i, -, hi⟩ := List.exists_of_findSome?_eq_some hhit
      exact toBinary64_readsBack? hi

end Decimal

end Rpn
