import Mathlib.Tactic.NormNum
import Rpn.Proofs.RoundTrip

/-! Integers among the numbers.

Up to 2^53 every integer is a number, so there `ofInt` loses nothing: it keeps order,
sums and differences, and the token of a number is the text of its integer. A quotient
is rounded, but not past an integer that bounds it, which is enough to count with it
(`le_div_add_one`, `div_add_one_le`). -/
namespace Rpn

/-- A whole number of at most 2^53 is written as its integer. -/
theorem Number.token_eq_toString {x : Binary64} {z : Int} (hx : x.toInt? = some z)
    (hz : z.natAbs ≤ 2 ^ 53) : (Number.real x).token = toString z := by
  have hbound : 2 ^ 53 < Number.integerBound := by
    show 2 ^ 53 < 10 ^ 16
    norm_num
  rw [← Numeral.intText_eq_toString]
  exact token_of_toInt? hx (Nat.lt_of_le_of_lt hz hbound)

end Rpn

namespace Rpn.Binary64

theorem representable_int {n : Nat} (h : n ≤ 2 ^ 53) : Representable (n * one) := by
  refine .of_dvd (k := unitExponent) (Nat.dvd_mul_left _ _) ?_ ?_
  · calc n * one ≤ 2 ^ 53 * 2 ^ unitExponent := Nat.mul_le_mul_right _ h
      _ = 2 ^ (unitExponent + 53) := by rw [← Nat.pow_add, Nat.add_comm]
  · rw [threshold_eq]
    refine Nat.mul_lt_mul_of_pos_right (Nat.lt_of_le_of_lt h ?_) one_pos
    exact Nat.pow_lt_pow_right (by decide) (by unfold rangeExponent; decide)

theorem natAbs_mul_one (z : Int) : (z * one).natAbs = z.natAbs * one := by
  rw [Int.natAbs_mul, Int.natAbs_natCast]

section Exact
variable {z : Int}

theorem representable_natAbs_mul_one (h : z.natAbs ≤ 2 ^ 53) : Representable (z * one).natAbs := by
  rw [natAbs_mul_one]
  exact representable_int h

theorem roundPosition_int (h : z.natAbs ≤ 2 ^ 53) : roundPosition (z * one) = z * one := by
  have hrep := representable_natAbs_mul_one h
  exact roundPosition_of_onGrid hrep.onGrid (Nat.le_of_lt hrep.lt_threshold)

theorem ofInt_eq (h : z.natAbs ≤ 2 ^ 53) :
    ofInt z = finite (decide (z < 0)) (z.natAbs * one) (representable_int h) :=
  ofRatio_one _ _

theorem isFinite_ofInt (h : z.natAbs ≤ 2 ^ 53) : (ofInt z).isFinite = true := by
  rw [ofInt_eq h]
  rfl

theorem signed_natAbs (z : Int) (k : Nat) : signed (decide (z < 0)) (z.natAbs * k) = z * k := by
  unfold signed
  by_cases hz : z < 0
  · rw [if_pos (by simpa using hz), Int.natCast_mul, Int.ofNat_natAbs_of_nonpos (Int.le_of_lt hz),
      Int.neg_mul, Int.neg_neg]
  · rw [if_neg (by simpa using hz), Int.natCast_mul, Int.natAbs_of_nonneg (Int.not_lt.mp hz)]

theorem position_ofInt (h : z.natAbs ≤ 2 ^ 53) : (ofInt z).position = z * one := by
  rw [ofInt_eq h, position, signed_natAbs]

theorem toInt?_ofInt (h : z.natAbs ≤ 2 ^ 53) : (ofInt z).toInt? = some z := by
  have hunits := signed_natAbs z 1
  rw [Nat.mul_one, Int.natCast_one, Int.mul_one] at hunits
  rw [ofInt_eq h, toInt?, if_pos (Nat.mul_mod_left _ _), Nat.mul_div_cancel _ one_pos, hunits]

/-- An integer that is a number is written as an integer. -/
theorem token_ofInt (h : z.natAbs ≤ 2 ^ 53) : (Number.real (ofInt z)).token = toString z :=
  Number.token_eq_toString (toInt?_ofInt h) h

theorem abs_ofInt (h : z.natAbs ≤ 2 ^ 53) : (ofInt z).abs = ofInt z.natAbs := by
  have hsign : ¬ (z.natAbs : Int) < 0 := Int.not_lt.mpr (Int.natCast_nonneg _)
  rw [ofInt_eq h, ofInt_eq (z := z.natAbs) h, abs]
  simp only [hsign, decide_false, Int.natAbs_natCast]

theorem ofInt_zero : ofInt 0 = zero false := by
  rw [ofInt_eq (Nat.zero_le _)]
  simp [zero]

theorem ofNat_eq_ofInt (n : Nat) : ofNat n = ofInt n := by
  have hsign : ¬ (n : Int) < 0 := Int.not_lt.mpr (Int.natCast_nonneg n)
  simp [ofNat, ofInt, hsign]

end Exact

/-! ### Order -/

section Order
variable {x y : Int} (hx : x.natAbs ≤ 2 ^ 53) (hy : y.natAbs ≤ 2 ^ 53)
include hx hy

theorem ofInt_lt : (ofInt x).lt (ofInt y) = decide (x < y) := by
  have hone : (0 : Int) < one := Int.natCast_pos.mpr one_pos
  simp only [lt, isNaN_of_isFinite (isFinite_ofInt hx), isNaN_of_isFinite (isFinite_ofInt hy),
    position_ofInt hx, position_ofInt hy, Int.mul_lt_mul_right hone]
  rfl

theorem ofInt_le : (ofInt x).le (ofInt y) = decide (x ≤ y) := by
  have hone : (0 : Int) < one := Int.natCast_pos.mpr one_pos
  simp only [le, isNaN_of_isFinite (isFinite_ofInt hx), isNaN_of_isFinite (isFinite_ofInt hy),
    position_ofInt hx, position_ofInt hy, Int.mul_le_mul_right hone]
  rfl

theorem ofInt_beq : (ofInt x).eq (ofInt y) = decide (x = y) := by
  have hone : (one : Int) ≠ 0 := Int.natCast_ne_zero.mpr (Nat.ne_of_gt one_pos)
  simp only [eq, isNaN_of_isFinite (isFinite_ofInt hx), isNaN_of_isFinite (isFinite_ofInt hy),
    position_ofInt hx, position_ofInt hy, Int.mul_eq_mul_right_iff hone]
  rfl

end Order

theorem lt_of_lt_of_le {x y z : Binary64} (hxy : x.lt y = true) (hyz : y.le z = true) :
    x.lt z = true := by
  simp only [lt, le, Bool.and_eq_true, decide_eq_true_eq] at hxy hyz ⊢
  exact ⟨⟨hxy.1.1, hyz.1.2⟩, Int.lt_of_lt_of_le hxy.2 hyz.2⟩

theorem lt_eq_false_of_le {x y : Binary64} (h : x.le y = true) : y.lt x = false := by
  simp only [le, Bool.and_eq_true, decide_eq_true_eq] at h
  simp [lt, h.2]

/-! ### Sums -/

/-- A sum of whole numbers is rounded as an integer; only two minus zeros add up to
minus zero. -/
theorem finite_add_eq_ofInt {s t : Bool} {a b : Nat} {ha : Representable a} {hb : Representable b}
    {z : Int} (hsum : signed s a + signed t b = z * one) (hzero : z = 0 → (s && t) = false) :
    finite s a ha + finite t b hb = ofInt z := by
  have hone : (0 : Int) < one := Int.natCast_pos.mpr one_pos
  rw [finite_add_finite, hsum]
  -- the sign of a zero sum comes from the operands, that of any other from the sum
  by_cases hz : z = 0
  · subst hz
    rw [Int.zero_mul, if_pos rfl, hzero rfl]
    exact ofInt_zero.symm
  · have hsign : z * one < 0 * one ↔ z < 0 := Int.mul_lt_mul_right hone
    rw [Int.zero_mul] at hsign
    rw [if_neg (Int.mul_ne_zero hz (Int.ne_of_gt hone)), ofInt, natAbs_mul_one]
    simp only [hsign]

section Sums
variable {x y : Int} (hx : x.natAbs ≤ 2 ^ 53) (hy : y.natAbs ≤ 2 ^ 53)
include hx hy

theorem ofInt_add : ofInt x + ofInt y = ofInt (x + y) := by
  rw [ofInt_eq hx, ofInt_eq hy]
  refine finite_add_eq_ofInt ?_ ?_
  · rw [signed_natAbs, signed_natAbs, Int.add_mul]
  · intro hzero
    simp only [Bool.and_eq_false_imp, decide_eq_true_eq, decide_eq_false_iff_not]
    omega

theorem ofInt_sub : ofInt x - ofInt y = ofInt (x - y) := by
  have hneg : signed (!decide (y < 0)) (y.natAbs * one) = -(y * one) := by
    rw [← signed_natAbs]
    cases decide (y < 0) <;> simp [signed]
  show ofInt x + neg (ofInt y) = ofInt (x - y)
  rw [ofInt_eq hx, ofInt_eq hy]
  refine finite_add_eq_ofInt ?_ ?_
  · rw [signed_natAbs, hneg, Int.sub_mul]
    rfl
  · intro hzero
    simp only [Bool.and_eq_false_imp, decide_eq_true_eq, Bool.not_eq_false']
    omega

end Sums

/-! ### Quotients -/

theorem le_of_position {x y : Binary64} (hx : x.isNaN = false) (hy : y.isNaN = false)
    (h : x.position ≤ y.position) : x.le y = true := by
  simp [le, hx, hy, h]

theorem lt_of_position {x y : Binary64} (hx : x.isNaN = false) (hy : y.isNaN = false)
    (h : x.position < y.position) : x.lt y = true := by
  simp [lt, hx, hy, h]

theorem position_ofInt_succ {q : Nat} (hq : q < 2 ^ 53) :
    (ofInt (q + 1 : Nat)).position = (q * one : Nat) + one := by
  rw [position_ofInt (z := (q + 1 : Nat)) hq, ← Int.natCast_mul, Nat.succ_mul]
  rfl

section Quotients
variable {m c q : Nat} (hc : 0 < c) (hcle : c ≤ 2 ^ 53) (hm : m ≤ 2 ^ 53)
include hc hcle hm

theorem ofInt_div : ofInt m / ofInt c = ofRatio false (m * one * one) (c * one) := by
  have hsign (n : Nat) : decide ((n : Int) < 0) = false := decide_eq_false (by omega)
  rw [ofInt_eq (z := m) hm, ofInt_eq (z := c) hcle]
  show (if c * one = 0 then _ else ofRatio _ (m * one * one) (c * one)) = _
  rw [if_neg (Nat.ne_of_gt (Nat.mul_pos hc one_pos)), hsign, hsign]
  rfl

theorem position_div :
    (ofInt m / ofInt c).position = (min (roundRatio (m * one) c) threshold : Nat) := by
  rw [ofInt_div hc hcle hm, position_ofRatio, roundRatio_mul_right _ _ one_pos]
  rfl

/-- A quotient is rounded to at most an integer that bounds it. -/
theorem position_div_le (hq : q ≤ 2 ^ 53) (h : m ≤ q * c) :
    (ofInt m / ofInt c).position ≤ (q * one : Nat) := by
  have hle : roundRatio (m * one) c ≤ q * one := by
    refine roundRatio_le hc (representable_int hq).onGrid ?_
    calc m * one ≤ q * c * one := Nat.mul_le_mul_right _ h
      _ = q * one * c := Nat.mul_right_comm _ _ _
  rw [position_div hc hcle hm]
  omega

theorem le_position_div (hq : q ≤ 2 ^ 53) (h : q * c ≤ m) :
    (q * one : Nat) ≤ (ofInt m / ofInt c).position := by
  have hle : q * one ≤ roundRatio (m * one) c := by
    refine le_roundRatio hc (representable_int hq).onGrid ?_
    calc q * one * c = q * c * one := Nat.mul_right_comm _ _ _
      _ ≤ m * one := Nat.mul_le_mul_right _ h
  have hlt := (representable_int hq).lt_threshold
  rw [position_div hc hcle hm]
  omega

theorem isFinite_div : (ofInt m / ofInt c).isFinite = true := by
  have hle := position_div_le hc hcle hm hm (Nat.le_mul_of_pos_right m hc)
  have hlt := (representable_int hm).lt_threshold
  refine isFinite_of_position ?_ ?_
  · rw [ofInt_div hc hcle hm]
    exact isNaN_ofRatio _ _ _
  · rw [position_div hc hcle hm] at hle ⊢
    omega

/-- On the line of units, one more than a quotient. -/
theorem position_div_add_one :
    (ofInt m / ofInt c + ofInt 1).position =
      roundPosition ((ofInt m / ofInt c).position + one) := by
  rw [position_add (isFinite_div hc hcle hm) (isFinite_ofInt (by norm_num)),
    position_ofInt (by norm_num), Int.one_mul]

theorem isNaN_div_add_one : (ofInt m / ofInt c + ofInt 1).isNaN = false :=
  isNaN_add (isFinite_div hc hcle hm) (isNaN_ofRatio _ _ _)

/-- If `q` steps reach the end, then `q + 1` numbers are counted at most. -/
theorem div_add_one_le (hq : q < 2 ^ 53) (h : m ≤ q * c) :
    (ofInt m / ofInt c + ofInt 1).le (ofInt (q + 1 : Nat)) = true := by
  -- `q + 1` is a number, and rounding does not pass it
  have hfinite : (ofInt (q + 1 : Nat)).isFinite = true := isFinite_ofInt hq
  have hposition := position_ofInt_succ hq
  obtain ⟨hgrid, hlt⟩ := onGrid_position hfinite
  have hle : roundPosition ((ofInt m / ofInt c).position + one) ≤
      (ofInt (q + 1 : Nat)).position := by
    refine roundPosition_le hgrid (Nat.le_of_lt hlt) ?_
    have hquotient := position_div_le hc hcle hm (Nat.le_of_lt hq) h
    omega
  rw [← position_div_add_one hc hcle hm] at hle
  exact le_of_position (isNaN_div_add_one hc hcle hm) (isNaN_of_isFinite hfinite) hle

/-- If `q` steps do not pass the end, then `q + 1` numbers are counted at least. -/
theorem le_div_add_one (hq : q < 2 ^ 53) (h : q * c ≤ m) :
    (ofInt (q + 1 : Nat)).le (ofInt m / ofInt c + ofInt 1) = true := by
  have hfinite : (ofInt (q + 1 : Nat)).isFinite = true := isFinite_ofInt hq
  have hposition := position_ofInt_succ hq
  obtain ⟨hgrid, hlt⟩ := onGrid_position hfinite
  have hle : (ofInt (q + 1 : Nat)).position ≤
      roundPosition ((ofInt m / ofInt c).position + one) := by
    refine le_roundPosition hgrid (Nat.le_of_lt hlt) ?_
    have hquotient := le_position_div hc hcle hm (Nat.le_of_lt hq) h
    omega
  rw [← position_div_add_one hc hcle hm] at hle
  exact le_of_position (isNaN_of_isFinite hfinite) (isNaN_div_add_one hc hcle hm) hle

end Quotients

end Rpn.Binary64
