import Mathlib.Tactic.Ring
import Rpn.Binary64.Arith

/-! Rounding keeps order and keeps what is on the grid.

The grid is coarser at larger counts of units, so a point of the grid at a large count
is on the grid at every smaller one. Hence rounding cannot pass a grid point: what is at
most a grid point is rounded to at most it (`roundRatio_le`), and what is at least a
grid point to at least it (`le_roundRatio`). These two are all that is needed of rounding
to the nearest. A grid point is rounded to itself, and a ratio is rounded by its value
alone (`roundRatio_congr`).

On the line of units a sum is the exact sum, rounded (`position_add`), and so it lies on
the same side of every number as the exact sum does. -/
namespace Rpn.Binary64

/-! ### The nearest integer -/

theorem le_nearest {num den m : Nat} (hden : 0 < den) (h : m * den ≤ num) :
    m ≤ nearest num den := by
  have hq : m ≤ num / den := (Nat.le_div_iff_mul_le hden).mpr h
  simp only [nearest]
  split <;> omega

theorem nearest_le_of_le_mul {num den m : Nat} (hden : 0 < den) (h : num ≤ m * den) :
    nearest num den ≤ m := by
  rcases Nat.lt_or_eq_of_le h with hlt | rfl
  · have hq : num / den < m := (Nat.div_lt_iff_lt_mul hden).mpr hlt
    exact Nat.le_trans (nearest_le num den) hq
  · simp [nearest, Nat.mul_div_cancel _ hden, hden]

theorem nearest_of_two_mul_lt {num den : Nat} (h : 2 * num < den) : nearest num den = 0 := by
  have hq : num / den = 0 := Nat.div_eq_of_lt (by omega)
  have hr : num % den = num := Nat.mod_eq_of_lt (by omega)
  simp [nearest, hq, hr, h]

theorem nearest_mul_right (num den : Nat) {a : Nat} (ha : 0 < a) :
    nearest (num * a) (den * a) = nearest num den := by
  have hlt : 2 * (num % den * a) < den * a ↔ 2 * (num % den) < den := by
    rw [← Nat.mul_assoc]
    exact Nat.mul_lt_mul_right ha
  have heq : 2 * (num % den * a) = den * a ↔ 2 * (num % den) = den := by
    rw [← Nat.mul_assoc]
    exact Nat.mul_left_inj (Nat.ne_of_gt ha)
  simp only [nearest, Nat.mul_div_mul_right _ _ ha, Nat.mul_mod_mul_right, hlt, heq]

/-! ### Points of the grid -/

/-- Is a count of units on the grid of its magnitude? -/
def OnGrid (n : Nat) : Prop := 2 ^ spacing n ∣ n

theorem Representable.onGrid {n : Nat} (h : Representable n) : OnGrid n := h.on_grid

theorem onGrid_threshold : OnGrid threshold := by
  have hspacing : spacing threshold ≤ rangeExponent + unitExponent := by
    rw [spacing, threshold, Nat.pow_eq, Nat.log2_two_pow]
    exact Nat.sub_le _ _
  exact Nat.pow_dvd_pow 2 hspacing

theorem spacing_mono {m n : Nat} (h : m ≤ n) : spacing m ≤ spacing n := by
  rcases Nat.eq_zero_or_pos m with rfl | hm
  · simp [spacing]
  · have hn : n ≠ 0 := by omega
    have hlog : m.log2 ≤ n.log2 :=
      (Nat.le_log2 hn).mpr (Nat.le_trans (Nat.log2_self_le (by omega)) h)
    unfold spacing
    omega

/-- A grid point is on the grid of every count below it. -/
theorem OnGrid.dvd_of_le {m n : Nat} (h : OnGrid m) (hle : n ≤ m) : 2 ^ spacing n ∣ m :=
  Nat.dvd_trans (Nat.pow_dvd_pow 2 (spacing_mono hle)) h

/-- Between a grid point and a count above it whose grid misses the point, there is a
power of two. -/
theorem OnGrid.lt_two_pow {m n : Nat} (h : OnGrid m) (hmiss : ¬2 ^ spacing n ∣ m) :
    m < 2 ^ (52 + spacing n) ∧ 2 ^ (52 + spacing n) ≤ n := by
  have hlt : spacing m < spacing n := by
    refine Nat.lt_of_not_le fun hle => hmiss ?_
    exact Nat.dvd_trans (Nat.pow_dvd_pow 2 hle) h
  have hlog : 52 + spacing n = n.log2 := by
    unfold spacing at hlt ⊢
    omega
  have hn : n ≠ 0 := by
    intro hzero
    simp [hzero, spacing] at hlt
  have hm : m.log2 < n.log2 := by
    unfold spacing at hlt
    omega
  rw [hlog]
  exact ⟨Nat.lt_of_lt_of_le Nat.lt_log2_self (Nat.pow_le_pow_right (by decide) hm),
    Nat.log2_self_le hn⟩

/-! ### Rounding a ratio -/

section Ratios
variable {num den m : Nat}

theorem roundRatio_eq (num den : Nat) :
    roundRatio num den = nearest num (den * 2 ^ spacing (num / den)) * 2 ^ spacing (num / den) :=
  rfl

/-- What is at most a grid point is rounded to at most it. -/
theorem roundRatio_le (hden : 0 < den) (hm : OnGrid m) (h : num ≤ m * den) :
    roundRatio num den ≤ m := by
  have hq : num / den ≤ m := Nat.div_le_of_le_mul (by rwa [Nat.mul_comm])
  obtain ⟨j, rfl⟩ := hm.dvd_of_le hq
  rw [roundRatio_eq]
  generalize 2 ^ spacing (num / den) = g at h ⊢
  rcases Nat.eq_zero_or_pos g with rfl | hg
  · simp
  · have hnum : num ≤ j * (den * g) := by
      calc num ≤ g * j * den := h
        _ = j * (den * g) := by ring
    rw [Nat.mul_comm g j]
    exact Nat.mul_le_mul_right g (nearest_le_of_le_mul (Nat.mul_pos hden hg) hnum)

/-- A multiple of the grid step of the ratio that is at most the ratio. -/
theorem mul_le_roundRatio (hden : 0 < den) (h : m * 2 ^ spacing (num / den) * den ≤ num) :
    m * 2 ^ spacing (num / den) ≤ roundRatio num den := by
  rw [roundRatio_eq]
  have hg : 0 < 2 ^ spacing (num / den) := Nat.two_pow_pos _
  generalize 2 ^ spacing (num / den) = g at h hg ⊢
  have hnum : m * (den * g) ≤ num := by
    calc m * (den * g) = m * g * den := by ring
      _ ≤ num := h
  exact Nat.mul_le_mul_right g (le_nearest (Nat.mul_pos hden hg) hnum)

/-- What is at least a grid point is rounded to at least it. -/
theorem le_roundRatio (hden : 0 < den) (hm : OnGrid m) (h : m * den ≤ num) :
    m ≤ roundRatio num den := by
  by_cases hd : 2 ^ spacing (num / den) ∣ m
  · obtain ⟨j, rfl⟩ := hd
    rw [Nat.mul_comm _ j] at h ⊢
    exact mul_le_roundRatio hden h
  · -- the ratio is past a power of two that the point is below
    obtain ⟨hlow, hhigh⟩ := hm.lt_two_pow hd
    rw [Nat.pow_add] at hlow hhigh
    have hnum := (Nat.le_div_iff_mul_le hden).mp hhigh
    exact Nat.le_of_lt (Nat.lt_of_lt_of_le hlow (mul_le_roundRatio hden hnum))

/-- A grid point is rounded to itself. -/
theorem roundRatio_mul (hden : 0 < den) (hm : OnGrid m) : roundRatio (m * den) den = m :=
  Nat.le_antisymm (roundRatio_le hden hm (Nat.le_refl _)) (le_roundRatio hden hm (Nat.le_refl _))

theorem roundRatio_mul_right (num den : Nat) {a : Nat} (ha : 0 < a) :
    roundRatio (num * a) (den * a) = roundRatio num den := by
  rw [roundRatio_eq, roundRatio_eq, Nat.mul_div_mul_right _ _ ha, Nat.mul_right_comm,
    nearest_mul_right _ _ ha]

/-- A ratio is rounded by its value. -/
theorem roundRatio_congr {num' den' : Nat} (hden : 0 < den) (hden' : 0 < den')
    (h : num * den' = num' * den) : roundRatio num den = roundRatio num' den' := by
  rw [← roundRatio_mul_right num den hden', h, Nat.mul_comm den den',
    roundRatio_mul_right num' den' hden]

/-- Less than half a unit is nothing. -/
theorem roundRatio_of_two_mul_lt (h : 2 * num < den) : roundRatio num den = 0 := by
  have hq : num / den = 0 := Nat.div_eq_of_lt (by omega)
  have hspacing : spacing 0 = 0 := by simp [spacing]
  rw [roundRatio_eq, hq, hspacing, Nat.pow_zero, Nat.mul_one, Nat.mul_one,
    nearest_of_two_mul_lt h]

end Ratios

/-! ### Numbers -/

/-- The rounded ratio, if it is a finite number. -/
theorem ofRatio_eq_finite {neg : Bool} {num den n : Nat} (hr : roundRatio num den = n)
    (h : Representable n) : ofRatio neg num den = finite neg n h := by
  subst hr
  unfold ofRatio
  rw [dif_pos h.lt_threshold]

theorem roundRatio_of_ofRatio {neg s : Bool} {num den n : Nat} {h : Representable n}
    (hr : ofRatio neg num den = finite s n h) : roundRatio num den = n := by
  unfold ofRatio at hr
  split at hr
  · injection hr
  · cases hr

/-- A representable count is the number that it is rounded to. -/
theorem ofRatio_mul (neg : Bool) {n den : Nat} (hden : 0 < den) (h : Representable n) :
    ofRatio neg (n * den) den = finite neg n h :=
  ofRatio_eq_finite (roundRatio_mul hden h.onGrid) h

theorem ofRatio_one (neg : Bool) {n : Nat} (h : Representable n) :
    ofRatio neg n 1 = finite neg n h := by
  simpa using ofRatio_mul neg Nat.one_pos h

theorem ofRatio_eq_inf (neg : Bool) {num den : Nat} (hden : 0 < den)
    (h : threshold * den ≤ num) : ofRatio neg num den = inf neg := by
  have hround := le_roundRatio hden onGrid_threshold h
  unfold ofRatio
  rw [dif_neg (Nat.not_lt.mpr hround)]

theorem ofRatio_eq_zero (neg : Bool) {num den : Nat} (h : 2 * num < den) :
    ofRatio neg num den = zero neg :=
  ofRatio_eq_finite (roundRatio_of_two_mul_lt h) representable_zero

/-! ### On the line of units -/

/-- The position of an exact result, rounded; past the finite numbers it is an infinity. -/
def roundPosition (z : Int) : Int :=
  signed (decide (z < 0)) (min (roundRatio z.natAbs 1) threshold)

theorem position_ofRatio (neg : Bool) (num den : Nat) :
    (ofRatio neg num den).position = signed neg (min (roundRatio num den) threshold) := by
  unfold ofRatio
  split
  case isTrue h => rw [position, Nat.min_eq_left (Nat.le_of_lt h)]
  case isFalse h => rw [position, Nat.min_eq_right (Nat.le_of_not_lt h)]

theorem isNaN_ofRatio (neg : Bool) (num den : Nat) : (ofRatio neg num den).isNaN = false := by
  unfold ofRatio
  split <;> rfl

theorem roundPosition_zero : roundPosition 0 = 0 := by
  have h : roundRatio 0 1 = 0 := roundRatio_of_two_mul_lt (by decide)
  simp [roundPosition, h, signed]

theorem finite_add_finite (s t : Bool) {a b : Nat} (ha : Representable a) (hb : Representable b) :
    finite s a ha + finite t b hb =
      if signed s a + signed t b = 0 then zero (s && t)
      else ofRatio (decide (signed s a + signed t b < 0)) (signed s a + signed t b).natAbs 1 :=
  rfl

/-- On a sum of finite numbers the exact sum is rounded. -/
theorem position_add {x y : Binary64} (hx : x.isFinite = true) (hy : y.isFinite = true) :
    (x + y).position = roundPosition (x.position + y.position) := by
  cases x <;> cases hx
  cases y <;> cases hy
  case finite.refl.finite.refl s a ha t b hb =>
    rw [finite_add_finite, position, position]
    split
    case isTrue h =>
      rw [h, roundPosition_zero, zero, position]
      cases s && t <;> rfl
    case isFalse h => exact position_ofRatio _ _ _

theorem isNaN_add {x y : Binary64} (hx : x.isFinite = true) (hy : y.isNaN = false) :
    (x + y).isNaN = false := by
  cases x <;> cases hx
  cases y <;> cases hy
  · rfl
  case finite.refl.finite.refl s a ha t b hb =>
    rw [finite_add_finite]
    split
    · rfl
    · exact isNaN_ofRatio _ _ _

/-- What is at least a number is rounded to at least it. -/
theorem le_roundPosition {m z : Int} (hm : OnGrid m.natAbs) (hlt : m.natAbs ≤ threshold)
    (h : m ≤ z) : m ≤ roundPosition z := by
  unfold roundPosition signed
  by_cases hz : z < 0
  · have hle : roundRatio z.natAbs 1 ≤ m.natAbs := roundRatio_le Nat.one_pos hm (by omega)
    simp only [hz, decide_true, if_true]
    omega
  · simp only [hz, decide_false, Bool.false_eq_true, if_false]
    by_cases hneg : m < 0
    · omega
    · have hle : m.natAbs ≤ roundRatio z.natAbs 1 := le_roundRatio Nat.one_pos hm (by omega)
      omega

theorem roundPosition_neg (z : Int) : roundPosition (-z) = -roundPosition z := by
  rcases Int.lt_trichotomy z 0 with hz | rfl | hz
  · have hneg : ¬ -z < 0 := by omega
    simp only [roundPosition, signed, Int.natAbs_neg, hz, hneg, decide_true, decide_false,
      Bool.false_eq_true, if_true, if_false, Int.neg_neg]
  · rw [Int.neg_zero, roundPosition_zero, Int.neg_zero]
  · have hneg : ¬ z < 0 := by omega
    have hpos : -z < 0 := by omega
    simp only [roundPosition, signed, Int.natAbs_neg, hneg, hpos, decide_true, decide_false,
      Bool.false_eq_true, if_true, if_false]

/-- What is at most a number is rounded to at most it. -/
theorem roundPosition_le {m z : Int} (hm : OnGrid m.natAbs) (hlt : m.natAbs ≤ threshold)
    (h : z ≤ m) : roundPosition z ≤ m := by
  have hneg : -m ≤ roundPosition (-z) :=
    le_roundPosition (by rwa [Int.natAbs_neg]) (by rwa [Int.natAbs_neg]) (by omega)
  rw [roundPosition_neg] at hneg
  omega

theorem roundPosition_of_onGrid {z : Int} (hz : OnGrid z.natAbs) (hlt : z.natAbs ≤ threshold) :
    roundPosition z = z :=
  Int.le_antisymm (roundPosition_le hz hlt (Int.le_refl z)) (le_roundPosition hz hlt (Int.le_refl z))

/-- The position of a number is on the grid. -/
theorem onGrid_position {x : Binary64} (hx : x.isFinite = true) :
    OnGrid x.position.natAbs ∧ x.position.natAbs < threshold := by
  cases x <;> cases hx
  case finite.refl neg n h =>
    have hn : (signed neg n).natAbs = n := by cases neg <;> simp [signed]
    rw [position, hn]
    exact ⟨h.onGrid, h.lt_threshold⟩

theorem isNaN_of_isFinite {x : Binary64} (h : x.isFinite = true) : x.isNaN = false := by
  cases x <;> cases h
  rfl

theorem isFinite_of_position {x : Binary64} (hx : x.isNaN = false)
    (h : x.position.natAbs < threshold) : x.isFinite = true := by
  cases x with
  | nan => cases hx
  | inf s => cases s <;> simp [position, signed] at h
  | finite s n hn => rfl

theorem eq_zero_iff {x : Binary64} (hx : x.isFinite = true) : x.eq 0 = true ↔ x.position = 0 := by
  have hzero : (0 : Binary64) = zero false := ofRatio_eq_zero false (by simp)
  have hnumber := isNaN_of_isFinite hx
  rw [hzero]
  simp only [eq, hnumber]
  simp [zero, isNaN, position, signed]

theorem position_neg (x : Binary64) : (neg x).position = -x.position := by
  cases x with
  | nan => rfl
  | inf s => cases s <;> simp [neg, position, signed]
  | finite s n h => cases s <;> simp [neg, position, signed]

theorem position_abs (x : Binary64) : x.abs.position = x.position.natAbs := by
  cases x with
  | nan => rfl
  | inf s => cases s <;> simp [abs, position, signed]
  | finite s n h => cases s <;> simp [abs, position, signed]

theorem isFinite_neg {x : Binary64} (h : x.isFinite = true) : (neg x).isFinite = true := by
  cases x <;> cases h
  rfl

theorem isFinite_abs (x : Binary64) : x.abs.isFinite = x.isFinite := by
  cases x <;> rfl

theorem position_sub {x y : Binary64} (hx : x.isFinite = true) (hy : y.isFinite = true) :
    (x - y).isNaN = false ∧ (x - y).position = roundPosition (x.position - y.position) := by
  refine ⟨isNaN_add hx (isNaN_of_isFinite (isFinite_neg hy)), ?_⟩
  show (x + neg y).position = _
  rw [position_add hx (isFinite_neg hy), position_neg, Int.sub_eq_add_neg]

end Rpn.Binary64
