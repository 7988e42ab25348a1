import Mathlib.Algebra.Ring.Int.Parity
import Mathlib.Tactic.Linarith
import Rpn.Proofs.Divisors
import Rpn.Proofs.Integers
import Rpn.Proofs.RoundingErrors

/-! Rounding to the nearest integer, by the integer part of the number a half above.

The sum with a half is rounded before its integer part is taken. Where the sum is exact its
integer part is the nearest integer. Rounding to the grid cannot take it below that integer,
which is on the grid itself, but it can take it up to the next one.

Below 2^52 halves are on the grid, so the sum is exact unless it is in a coarser part of the
grid than the number. It gets there by passing a power of two, and only the last number below
a half is then taken too far (`floorsTo_of_small`). From 2^52 on all numbers are integers. The
half above one is a tie up to 2^53, which goes to the even side, and is lost beyond
(`floorsTo_of_large`). `rounded_to_nearest_unless_oversteps` says this of the operator. -/
namespace Rpn.Binary64

/-! ### Near the grid and between its points -/

/-- What is less than half a step from a point of its grid is rounded to it. -/
theorem roundRatio_of_near {n m : Nat} (hgrid : 2 ^ spacing n ∣ m)
    (hup : 2 * n < 2 * m + 2 ^ spacing n) (hdown : 2 * m < 2 * n + 2 ^ spacing n) :
    roundRatio n 1 = m := by
  obtain ⟨hle, hge⟩ := roundRatio_error n Nat.one_pos
  obtain ⟨i, hi⟩ := dvd_roundRatio n 1
  obtain ⟨j, rfl⟩ := hgrid
  rw [Nat.div_one] at hle hge hi
  rw [hi, Nat.mul_one, Nat.one_mul] at hle hge
  rw [hi]
  have hg : 0 < 2 ^ spacing n := Nat.two_pow_pos _
  generalize 2 ^ spacing n = g at *
  -- less than a step apart, two points of the grid are one
  have hbelow : g * i < g * (j + 1) := by
    rw [Nat.mul_succ]
    omega
  have habove : g * j < g * (i + 1) := by
    rw [Nat.mul_succ]
    omega
  have hij := Nat.lt_of_mul_lt_mul_left hbelow
  have hji := Nat.lt_of_mul_lt_mul_left habove
  rw [Nat.le_antisymm (Nat.le_of_lt_succ hij) (Nat.le_of_lt_succ hji)]

/-- Between two points of the grid, the even one is taken. -/
theorem roundRatio_tie {q : Nat} (hlow : 2 ^ 52 ≤ q) (hhigh : q < 2 ^ 53) (e : Nat) :
    roundRatio ((2 * q + 1) * 2 ^ e) 1 = (q + q % 2) * 2 ^ (e + 1) := by
  have hnearest : nearest (2 * q + 1) (2 ^ 1) = q + q % 2 := by
    simp only [nearest]
    split <;> omega
  rw [roundRatio_scaled (k := 1) (by omega) (by omega), hnearest]

theorem spacing_le {n e : Nat} (h : n < 2 ^ (53 + e)) : spacing n ≤ e := by
  by_cases hn : n = 0
  · simp [hn, spacing]
  · have hlog := (Nat.log2_lt hn).mpr h
    unfold spacing
    omega

/-! ### Half a one in units -/

theorem one_eq_two_pow : one = 2 ^ unitExponent := rfl

/-- Below 2^52 halves are on the grid. -/
theorem two_pow_spacing_dvd_half {n : Nat} (h : n < 2 ^ 52 * one) : 2 ^ spacing n ∣ half := by
  refine Nat.pow_dvd_pow 2 (spacing_le ?_)
  calc n < 2 ^ 52 * one := h
    _ = 2 ^ 53 * half := by
      rw [one_eq]
      ring
    _ = 2 ^ (53 + (unitExponent - 1)) := (Nat.pow_add _ _ _).symm

/-- No power of two lies in the half above a number that is past an integer, so the step of
the grid is the same a half above. -/
theorem OnGrid.dvd_add_half {p m : Nat} (hp : OnGrid p) (hm : 1 ≤ m) (hlow : m * one ≤ p)
    (hhigh : p + half < (m + 1) * one) : 2 ^ spacing (p + half) ∣ p := by
  by_contra hmiss
  obtain ⟨hbelow, habove⟩ := hp.lt_two_pow hmiss
  generalize 52 + spacing (p + half) = e at hbelow habove
  have hone : one ≤ m * one := Nat.le_mul_of_pos_left one hm
  have hle : unitExponent < e := by
    rw [← Nat.pow_lt_pow_iff_right (a := 2) (by decide), ← one_eq_two_pow]
    omega
  obtain ⟨c, hc⟩ : one ∣ 2 ^ e := Nat.pow_dvd_pow 2 (Nat.le_of_lt hle)
  rw [hc, Nat.mul_comm] at hbelow habove
  have hmc : m < c := Nat.lt_of_mul_lt_mul_right (Nat.lt_of_le_of_lt hlow hbelow)
  have hnext : (m + 1) * one ≤ c * one := Nat.mul_le_mul_right one hmc
  omega

/-- Past one, and below 2^52, the sum with a half is exact if it does not reach the next
integer. -/
theorem OnGrid.add_half {p m : Nat} (hp : OnGrid p) (hm : 1 ≤ m) (hlow : m * one ≤ p)
    (hhigh : p + half < (m + 1) * one) (hlt : p + half < 2 ^ 52 * one) : OnGrid (p + half) :=
  Nat.dvd_add (hp.dvd_add_half hm hlow hhigh) (two_pow_spacing_dvd_half hlt)

/-- Towards zero the grid gets no coarser. -/
theorem OnGrid.sub_half {p : Nat} (hp : OnGrid p) (hlt : p - half < 2 ^ 52 * one) :
    OnGrid (p - half) :=
  Nat.dvd_sub (hp.dvd_of_le (Nat.sub_le p half)) (two_pow_spacing_dvd_half hlt)

/-- The last number below a half, in units. -/
def belowHalf : Nat := (2 ^ 53 - 1) * part 54

theorem half_eq_part : half = 2 ^ 53 * part 54 := by
  have hpart := one_eq_part (k := 54) (by norm_num [unitExponent])
  rw [one_eq] at hpart
  omega

theorem part_eq_part : part 53 = 2 * part 54 := by
  have hpart := one_eq_part (k := 53) (by norm_num [unitExponent])
  have hhalf := half_eq_part
  rw [one_eq] at hpart
  omega

theorem belowHalf_add_half_lt : belowHalf + half < one := by
  have hpos := part_pos 54
  rw [one_eq, belowHalf, half_eq_part]
  omega

/-- Below a half, all numbers but the last have sums with a half that are at most the last
number below one. -/
theorem OnGrid.add_half_le {p : Nat} (hp : OnGrid p) (h : p < half) (hne : p ≠ belowHalf) :
    p + half ≤ (2 ^ 53 - 1) * part 53 := by
  have hpow : 2 ^ (52 + (unitExponent - 54)) = 2 ^ 52 * part 54 := Nat.pow_add _ _ _
  have hdvd := hp.dvd_of_two_pow_le (k := unitExponent - 54)
  rw [hpow, ← part] at hdvd
  have hpos := part_pos 54
  rw [half_eq_part] at h ⊢
  rw [part_eq_part]
  rw [belowHalf] at hne
  generalize part 54 = u at *
  by_contra hlarge
  obtain ⟨j, rfl⟩ := hdvd (by omega)
  rw [Nat.mul_comm u j] at h hne hlarge
  have hbelow : j < 2 ^ 53 := Nat.lt_of_mul_lt_mul_right h
  have habove : 2 ^ 53 < j + 2 := by
    refine Nat.lt_of_mul_lt_mul_right (a := u) ?_
    rw [Nat.add_mul]
    omega
  exact hne (congrArg (· * u) (by omega))

/-! ### The integer part of the sum -/

/-- The sum of `p` units and a half is rounded to a finite number with the integer part `n`. -/
structure FloorsTo (p n : Int) : Prop where
  lt_threshold : (roundPosition (p + half)).natAbs < threshold
  floor : roundPosition (p + half) / one = n

theorem floorsTo_of_eq_int {p z : Int} (h : roundPosition (p + half) = z * one)
    (hlt : (z * one).natAbs < threshold) : FloorsTo p z := by
  refine ⟨by rwa [h], ?_⟩
  rw [h, Int.mul_ediv_cancel _ (Int.ne_of_gt (Int.natCast_pos.mpr one_pos))]

/-- If a number that the sum does not pass is below the next integer, the integer part is
that of the exact sum. -/
theorem floorsTo_of_le {p n g : Int} (hn : n.natAbs ≤ 2 ^ 52) (hlow : n * one ≤ p + half)
    (hg : OnGrid g.natAbs) (hlt : g.natAbs < threshold) (hle : p + half ≤ g)
    (hnext : g < (n + 1) * one) : FloorsTo p n := by
  have hone : (0 : Int) < one := Int.natCast_pos.mpr one_pos
  have hrep : Representable (n * one).natAbs := representable_natAbs_mul_one (by omega)
  have hbelow := le_roundPosition hrep.onGrid (Nat.le_of_lt hrep.lt_threshold) hlow
  have habove := roundPosition_le hg (Nat.le_of_lt hlt) hle
  have hbound := hrep.lt_threshold
  refine ⟨by omega, ?_⟩
  rw [Int.add_mul, Int.one_mul] at hnext
  rw [Int.ediv_eq_iff_of_pos hone]
  exact ⟨hbelow, by omega⟩

theorem int_mul_one_le {m n : Int} (h : m ≤ n) : m * one ≤ n * one :=
  Int.mul_le_mul_of_nonneg_right h (Int.natCast_nonneg one)

section Sums
variable {p n : Int} (hlow : n * one ≤ p + half)
include hlow

/-- Up to an integer, the sum does not pass the half above it, which is a number. -/
theorem floorsTo_of_le_int (hn : -2 ^ 52 ≤ n) (hn' : n < 2 ^ 52) (hle : p ≤ n * one) :
    FloorsTo p n := by
  have hpos := half_pos
  have hone : (one : Int) = 2 * half := by exact_mod_cast one_eq
  have hunits : (n * one + half).natAbs = (2 * n + 1).natAbs * half := by
    rw [hone, ← Int.natAbs_natCast half, ← Int.natAbs_mul, Int.natAbs_natCast]
    congr 1
    ring
  have hrep : Representable (n * one + half).natAbs := by
    rw [hunits]
    exact representable_half (by omega)
  refine floorsTo_of_le (by omega) hlow hrep.onGrid hrep.lt_threshold (by omega) ?_
  rw [Int.add_mul]
  omega

variable (hhigh : p + half < (n + 1) * one)
include hhigh

/-- An exact sum has its integer part. -/
theorem floorsTo_of_onGrid (hn : n.natAbs ≤ 2 ^ 52) (hgrid : OnGrid (p + half).natAbs) :
    FloorsTo p n := by
  have hbound := (representable_int (n := 2 ^ 53) (Nat.le_refl _)).lt_threshold
  have hdown := int_mul_one_le (m := -2 ^ 52) (n := n) (by omega)
  have hup := int_mul_one_le (m := n + 1) (n := 2 ^ 52 + 1) (by omega)
  have hpos := one_pos
  exact floorsTo_of_le hn hlow hgrid (by omega) (Int.le_refl _) hhigh

variable (hp : OnGrid p.natAbs)
include hp

/-- Below 2^52 rounding leads to the next integer only from the last number below a half. -/
theorem floorsTo_of_small (hn : -2 ^ 52 ≤ n) (hn' : n < 2 ^ 52) (hne : p ≠ belowHalf) :
    FloorsTo p n := by
  by_cases hle : p ≤ n * one
  · exact floorsTo_of_le_int hlow hn hn' hle
  have hone : (one : Int) = 2 * half := by exact_mod_cast one_eq
  have hdown := int_mul_one_le hn
  have hup := int_mul_one_le (m := n + 1) (n := 2 ^ 52) (by omega)
  -- by the sign of the integer: away from zero the grid may get coarser on the way
  rcases Int.lt_trichotomy n 0 with hneg | rfl | hpos
  · have hzero := int_mul_one_le (m := n + 1) (n := 0) (by omega)
    refine floorsTo_of_onGrid hlow hhigh (by omega) ?_
    have hsum : (p + half).natAbs = p.natAbs - half := by omega
    rw [hsum]
    exact hp.sub_half (by omega)
  · obtain ⟨q, rfl⟩ := Int.eq_ofNat_of_zero_le (by omega : 0 ≤ p)
    have hrep := representable_mul_part (n := 2 ^ 53 - 1) (by norm_num) 53
    have hone' := one_eq_part (k := 53) (by norm_num [unitExponent])
    have hpos := part_pos 53
    have hlast := hp.add_half_le (by omega) (by omega)
    rw [Int.natAbs_natCast] at hlast
    have hlt : (2 ^ 53 - 1) * part 53 < one := by omega
    refine floorsTo_of_le (g := ((2 ^ 53 - 1) * part 53 : Nat)) (by omega) hlow hrep.onGrid
      hrep.lt_threshold (by exact_mod_cast hlast) ?_
    rw [Int.zero_add, Int.one_mul]
    exact_mod_cast hlt
  · obtain ⟨m, rfl⟩ := Int.eq_ofNat_of_zero_le (Int.le_of_lt hpos)
    have hzero := int_mul_one_le (Int.le_of_lt hpos)
    obtain ⟨q, rfl⟩ := Int.eq_ofNat_of_zero_le (by omega : 0 ≤ p)
    have hsum : ((q : Int) + half).natAbs = q + half := by omega
    refine floorsTo_of_onGrid hlow hhigh (by omega) ?_
    rw [hsum]
    refine hp.add_half (m := m) (by omega) ?_ ?_ ?_
    · exact_mod_cast Int.le_of_lt (Int.not_le.mp hle)
    · exact_mod_cast hhigh
    · exact_mod_cast Int.lt_of_lt_of_le hhigh hup

end Sums

/-! ### Integers past 2^52 -/

theorem int_add_half (m : Nat) : m * one + half = (2 * m + 1) * half := by
  rw [one_eq]
  ring

/-- From 2^52 to 2^53 the half above an integer is a tie. -/
theorem roundRatio_int_add_half {m : Nat} (hlow : 2 ^ 52 ≤ m) (hhigh : m < 2 ^ 53) :
    roundRatio (m * one + half) 1 = (m + m % 2) * one := by
  have hexponent : unitExponent - 1 + 1 = unitExponent := by norm_num [unitExponent]
  have htie := roundRatio_tie hlow hhigh (unitExponent - 1)
  rw [hexponent] at htie
  rw [int_add_half]
  exact htie

/-- From 2^53 on it is next to the number at the integer, on either side of it. -/
theorem roundRatio_int_add_half_of_large {m k : Nat} (hm : 2 ^ 53 ≤ m) (hgrid : OnGrid (k * one))
    (hk : k = m ∨ k = m + 1) : roundRatio (m * one + half) 1 = k * one := by
  have hpos := half_pos
  have hone := one_eq
  have hstep : 2 * one ≤ 2 ^ spacing (m * one + half) := by
    have hlarge : 2 ^ (52 + (unitExponent + 1)) ≤ m * one + half := by
      calc 2 ^ (52 + (unitExponent + 1)) = 2 ^ 53 * 2 ^ unitExponent := by ring
        _ ≤ m * one := Nat.mul_le_mul_right _ hm
        _ ≤ m * one + half := Nat.le_add_right _ _
    have hlog := (Nat.le_log2 (by omega)).mpr hlarge
    calc 2 * one = 2 ^ (unitExponent + 1) := (Nat.pow_succ' ..).symm
      _ ≤ 2 ^ spacing (m * one + half) :=
        Nat.pow_le_pow_right (by decide) (by unfold spacing; omega)
  rcases hk with rfl | rfl
  · refine roundRatio_of_near (hgrid.dvd_add_half ?_ (Nat.le_refl _) ?_) (by omega) (by omega)
    · omega
    · rw [Nat.succ_mul]
      omega
  · rw [Nat.succ_mul] at hgrid ⊢
    exact roundRatio_of_near (hgrid.dvd_of_le (by omega)) (by omega) (by omega)

theorem roundPosition_of_roundRatio {n m : Nat} (h : roundRatio n 1 = m) (hm : m < threshold) :
    roundPosition n = m := by
  have hsign : ¬ (n : Int) < 0 := Int.not_lt.mpr (Int.natCast_nonneg n)
  rw [roundPosition, Int.natAbs_natCast, h, Nat.min_eq_left (Nat.le_of_lt hm),
    decide_eq_false hsign]
  rfl

/-- The integers on either side of zero that have the same magnitude half a one above. -/
theorem floorsTo_of_roundRatio {m k : Nat} (h : roundRatio (m * one + half) 1 = k * one)
    (hlt : k * one < threshold) :
    FloorsTo (m * one) k ∧ FloorsTo ((-(m + 1 : Nat) : Int) * one) (-k) := by
  have hround : roundPosition (m * one + half) = k * one := by
    exact_mod_cast roundPosition_of_roundRatio h hlt
  have hmirror : (-(m + 1 : Nat) : Int) * one + half = -(m * one + half) := by
    rw [one_eq]
    push_cast
    ring
  refine ⟨floorsTo_of_eq_int hround (by exact_mod_cast hlt), floorsTo_of_eq_int ?_ ?_⟩
  · rw [hmirror, roundPosition_neg, hround, Int.neg_mul]
  · rw [Int.neg_mul, Int.natAbs_neg]
    exact_mod_cast hlt

/-- Past 2^52 an integer keeps its value, unless it is odd and below 2^53. -/
theorem floorsTo_of_large {z : Int} (hgrid : OnGrid (z.natAbs * one))
    (hlt : z.natAbs * one < threshold) (hlarge : 2 ^ 52 ≤ z ∨ z < -2 ^ 52) :
    FloorsTo (z * one) (if z % 2 = 1 ∧ z.natAbs < 2 ^ 53 then z + 1 else z) := by
  have htie {m : Nat} (hlow : 2 ^ 52 ≤ m) (hhigh : m < 2 ^ 53) :=
    floorsTo_of_roundRatio (roundRatio_int_add_half hlow hhigh)
      (representable_int (n := m + m % 2) (by omega)).lt_threshold
  have hfar {m : Nat} (hm : 2 ^ 53 ≤ m) (hk : z.natAbs = m ∨ z.natAbs = m + 1) :=
    floorsTo_of_roundRatio (roundRatio_int_add_half_of_large hm hgrid hk) hlt
  obtain ⟨m, hz | hz⟩ : ∃ m : Nat, z = m ∨ z = -(m + 1 : Nat) := by
    by_cases hsign : 0 ≤ z
    · exact ⟨z.toNat, .inl (by omega)⟩
    · exact ⟨(-z - 1).toNat, .inr (by omega)⟩
  · by_cases hm : m < 2 ^ 53
    · have hvalue : (if z % 2 = 1 ∧ z.natAbs < 2 ^ 53 then z + 1 else z) = (m + m % 2 : Nat) := by
        split <;> omega
      rw [hvalue, hz]
      exact (htie (by omega) hm).1
    · have hnatAbs : z.natAbs = m := by omega
      have hfloor := (hfar (by omega) (.inl hnatAbs)).1
      rw [if_neg (by omega)]
      rwa [hnatAbs, ← hz] at hfloor
  · by_cases hm : m < 2 ^ 53
    · have hvalue : (if z % 2 = 1 ∧ z.natAbs < 2 ^ 53 then z + 1 else z) = -(m + m % 2 : Nat) := by
        split <;> omega
      rw [hvalue, hz]
      exact (htie (by omega) hm).2
    · have hnatAbs : z.natAbs = m + 1 := by omega
      have hfloor := (hfar (by omega) (.inr hnatAbs)).2
      rw [if_neg (by omega)]
      rwa [hnatAbs, ← hz] at hfloor

/-! ### The last number below a half -/

/-- The sum is a tie too, between one and the last number below it. -/
theorem roundPosition_belowHalf : roundPosition (belowHalf + half) = one := by
  have hone := one_eq
  have hexponent : 2 ^ (unitExponent - 54 + 1) = 2 * part 54 := Nat.pow_succ' ..
  have htie := roundRatio_tie (q := 2 ^ 53 - 1) (by norm_num) (by norm_num) (unitExponent - 54)
  have hsum : belowHalf + half = (2 * (2 ^ 53 - 1) + 1) * part 54 := by
    rw [belowHalf, half_eq_part]
    omega
  have hround : (2 ^ 53 - 1 + (2 ^ 53 - 1) % 2) * (2 * part 54) = one := by
    rw [hone, half_eq_part]
    omega
  rw [hexponent, hround, ← part, ← hsum] at htie
  refine roundPosition_of_roundRatio htie ?_
  simpa using (representable_int (n := 1) (by norm_num)).lt_threshold

/-! ### All numbers -/

theorem OnGrid.exists_int {p : Int} (hp : OnGrid p.natAbs) (h : 2 ^ 52 * one ≤ p.natAbs) :
    ∃ z : Int, p = z * one := by
  have hdvd : one ∣ p.natAbs := hp.dvd_of_two_pow_le (k := unitExponent) (by rwa [Nat.pow_add])
  obtain ⟨z, hz⟩ := Int.natCast_dvd.mpr hdvd
  exact ⟨z, by rw [hz, Int.mul_comm]⟩

/-- The last number below 2^52 is a half below it. -/
theorem OnGrid.eq_of_lt {p : Int} (hp : OnGrid p.natAbs) (hlow : (2 ^ 52 * one : Nat) ≤ p + half)
    (hhigh : p < (2 ^ 52 * one : Nat)) : p + half = (2 ^ 52 * one : Nat) := by
  have hone := one_eq
  have hpos := half_pos
  have hpow : 2 ^ (52 + (unitExponent - 1)) = 2 ^ 52 * half := Nat.pow_add _ _ _
  obtain ⟨j, hj⟩ : half ∣ p.natAbs := hp.dvd_of_two_pow_le (k := unitExponent - 1) (by omega)
  have hvalue : p = (j * half : Nat) := by
    rw [Nat.mul_comm]
    omega
  rw [hvalue, hone] at hlow hhigh ⊢
  have hbelow : j < 2 ^ 53 := by
    refine Nat.lt_of_mul_lt_mul_right (a := half) ?_
    omega
  have habove : 2 ^ 53 ≤ j + 1 := by
    refine Nat.le_of_mul_le_mul_right ?_ hpos
    rw [Nat.succ_mul]
    omega
  obtain rfl : j = 2 ^ 53 - 1 := by omega
  omega

section All
variable {p n : Int} (hlow : n * one ≤ p + half) (hhigh : p + half < (n + 1) * one)
include hlow hhigh

/-- The nearest integer to an integer. -/
theorem eq_of_units_eq {z : Int} (hz : p = z * one) : z = n := by
  have hone : (0 : Int) < one := Int.natCast_pos.mpr one_pos
  have hhalf : (one : Int) = 2 * half := by exact_mod_cast one_eq
  have hbelow : z * one < (n + 1) * one := by omega
  have habove : n * one < (z + 1) * one := by
    rw [Int.add_mul]
    omega
  have hup := Int.lt_of_mul_lt_mul_right hbelow (Int.le_of_lt hone)
  have hdown := Int.lt_of_mul_lt_mul_right habove (Int.le_of_lt hone)
  omega

variable (hp : OnGrid p.natAbs) (hlt : p.natAbs < threshold)
include hp hlt

theorem floorsTo_of_units_eq {z : Int} (hz : p = z * one) (hlarge : 2 ^ 52 ≤ z ∨ z < -2 ^ 52) :
    FloorsTo p (if z % 2 = 1 ∧ z.natAbs < 2 ^ 53 then n + 1 else n) := by
  rw [hz, natAbs_mul_one] at hp hlt
  rw [← eq_of_units_eq hlow hhigh hz, hz]
  exact floorsTo_of_large hp hlt hlarge

/-- All numbers are rounded to the nearest integer, apart from the last one below a half and the
odd integers between 2^52 and 2^53. -/
theorem floorsTo_nearest (hlast : p ≠ belowHalf)
    (hodd : ∀ z : Int, p = z * one → z % 2 = 1 → 2 ^ 52 < z.natAbs → 2 ^ 53 ≤ z.natAbs) :
    FloorsTo p n := by
  by_cases hsmall : -2 ^ 52 ≤ n ∧ n < 2 ^ 52
  · exact floorsTo_of_small hlow hhigh hp hsmall.1 hsmall.2 hlast
  by_cases hbelow : (2 ^ 52 * one : Nat) ≤ p + half ∧ p < (2 ^ 52 * one : Nat)
  · have hsum := hp.eq_of_lt hbelow.1 hbelow.2
    have hrep := representable_int (n := 2 ^ 52) (by norm_num)
    have hn : n = 2 ^ 52 := by
      have hone : (0 : Int) < one := Int.natCast_pos.mpr one_pos
      rw [hsum] at hlow hhigh
      push_cast at hlow hhigh
      have hup := Int.le_of_mul_le_mul_right hlow hone
      have hdown := Int.lt_of_mul_lt_mul_right hhigh (Int.le_of_lt hone)
      omega
    refine floorsTo_of_onGrid hlow hhigh (by omega) ?_
    rw [hsum, Int.natAbs_natCast]
    exact hrep.onGrid
  · have hpast : 2 ^ 52 * one ≤ p.natAbs := by
      rcases Int.lt_or_le n (2 ^ 52) with hneg | hpos
      · have hdown := int_mul_one_le (m := n + 1) (n := -2 ^ 52) (by omega)
        omega
      · have hup := int_mul_one_le hpos
        omega
    obtain ⟨z, hz⟩ := hp.exists_int hpast
    have hlarge : 2 ^ 52 ≤ z ∨ z < -2 ^ 52 := by
      rw [eq_of_units_eq hlow hhigh hz]
      omega
    have hfloor := floorsTo_of_units_eq hlow hhigh hp hlt hz hlarge
    rwa [if_neg] at hfloor
    rintro ⟨hmod, hbound⟩
    exact absurd (hodd z hz hmod (by omega)) (by omega)

end All

/-- The last number below a half is rounded to one. -/
theorem floorsTo_belowHalf : FloorsTo belowHalf 1 := by
  refine floorsTo_of_eq_int ?_ ?_
  · rw [roundPosition_belowHalf, Int.one_mul]
  · simpa using (representable_int (n := 1) (by norm_num)).lt_threshold

end Rpn.Binary64

namespace Rpn.Operator
open Binary64

/-! ### Values -/

theorem half_number : (1 / 2 : Binary64).isFinite = true ∧ (1 / 2 : Binary64).position = half := by
  decide +kernel

theorem round_of_floorsTo {x : Binary64} {n : Int} (hx : x.isFinite = true)
    (h : FloorsTo x.position n) : round x = some (.int n) := by
  obtain ⟨hhalf, hunits⟩ := half_number
  have hposition : (x + 1 / 2).position = roundPosition (x.position + half) := by
    rw [position_add hx hhalf, hunits]
  have hfinite : (x + 1 / 2).isFinite = true := by
    refine isFinite_of_position (isNaN_add hx (isNaN_of_isFinite hhalf)) ?_
    rw [hposition]
    exact h.lt_threshold
  have hfloor : (x + 1 / 2).floor? = some n := by
    rw [← h.floor, ← hposition]
    generalize x + 1 / 2 = y at hfinite
    cases y <;> cases hfinite
    rfl
  rw [round, floor, hfloor]
  rfl

theorem call_round (s : Stack) {t : String} {x : Binary64} {n : Int} (ht : Stack.number t = .ok x)
    (hx : x.isFinite = true) (h : FloorsTo x.position n) :
    Builtin.call "round" (s ++ [t]) = .ok (s ++ [toString n]) := by
  refine (Builtin.unary_apply _ s ht).trans ?_
  rw [round_of_floorsTo hx h, ← Numeral.intText_eq_toString]
  rfl

theorem value_eq_iff {x : Binary64} {r : ℝ} : x.value = r ↔ (x.position : ℝ) = r * one :=
  div_eq_iff (Nat.cast_ne_zero.mpr (Nat.ne_of_gt one_pos))

theorem value_eq_int_iff {x : Binary64} {z : ℤ} : x.value = z ↔ x.position = z * one := by
  rw [value_eq_iff]
  exact_mod_cast Iff.rfl

theorem value_eq_belowHalf_iff {x : Binary64} :
    x.value = 1 / 2 - 1 / 2 ^ 54 ↔ x.position = belowHalf := by
  have hone : (one : ℝ) = 2 ^ 54 * part 54 := by
    exact_mod_cast one_eq_part (k := 54) (by norm_num [unitExponent])
  have hunits : (1 / 2 - 1 / 2 ^ 54) * (one : ℝ) = (belowHalf : Nat) := by
    rw [hone, belowHalf]
    push_cast
    ring
  rw [value_eq_iff, hunits]
  exact_mod_cast Iff.rfl

/-- The integer that is nearest to a number, the upper one of two, in units. -/
theorem nearest_iff {x : Binary64} {n : ℤ} :
    n - 1 / 2 ≤ x.value ∧ x.value < n + 1 / 2 ↔
      n * one ≤ x.position + half ∧ x.position + half < (n + 1) * one := by
  have hpos : (0 : ℝ) < one := Nat.cast_pos.mpr one_pos
  have hone : (one : ℝ) = 2 * half := by exact_mod_cast one_eq
  have hlow : n - 1 / 2 ≤ x.value ↔ (n : ℝ) * one ≤ x.position + half := by
    rw [value, le_div_iff₀ hpos, sub_mul, hone]
    constructor <;> intro h <;> linarith
  have hhigh : x.value < n + 1 / 2 ↔ (x.position : ℝ) + half < (n + 1) * one := by
    rw [value, div_lt_iff₀ hpos, add_mul, add_mul, hone]
    constructor <;> intro h <;> linarith
  rw [hlow, hhigh]
  exact_mod_cast Iff.rfl

/-- The numbers whose sum with a half is rounded up to an integer: the last one below a half,
and the odd integers between 2^52 and 2^53 on either side of zero. -/
def Oversteps (x : Binary64) : Prop :=
  x.value = 1 / 2 - 1 / 2 ^ 54 ∨
    ∃ z : ℤ, x.value = z ∧ Odd z ∧ 2 ^ 52 < z.natAbs ∧ z.natAbs < 2 ^ 53

/-- **Rounding to the nearest integer.** For every finite number there is an integer at most a
half above it and less than a half below it, the number itself if that is an integer. `round`
pushes this integer, unless the sum with a half oversteps; then it pushes the next one. -/
theorem rounded_to_nearest_unless_oversteps (s : Stack) {t : String} {x : Binary64}
    (ht : Stack.number t = .ok x) (hx : x.isFinite = true) :
    ∃ n : ℤ, (n - 1 / 2 ≤ x.value ∧ x.value < n + 1 / 2) ∧
      (∀ z, x.toInt? = some z → n = z) ∧
      (¬ Oversteps x → Builtin.call "round" (s ++ [t]) = .ok (s ++ [toString n])) ∧
      (Oversteps x → Builtin.call "round" (s ++ [t]) = .ok (s ++ [toString (n + 1)])) := by
  have hone : (0 : Int) < one := Int.natCast_pos.mpr one_pos
  obtain ⟨hgrid, hlt⟩ := onGrid_position hx
  have hlow := Int.ediv_mul_le (x.position + half) (Int.ne_of_gt hone)
  have hhigh := Int.lt_ediv_add_one_mul_self (x.position + half) hone
  refine ⟨_, nearest_iff.mpr ⟨hlow, hhigh⟩, fun z hz => ?_, fun h => ?_, fun h => ?_⟩
  · exact (eq_of_units_eq hlow hhigh (toInt?_eq_some_iff.mp hz).2).symm
  · obtain ⟨hlast, hodd⟩ := not_or.mp h
    refine call_round s ht hx (floorsTo_nearest hlow hhigh hgrid hlt ?_ ?_)
    · exact fun heq => hlast (value_eq_belowHalf_iff.mpr heq)
    · intro z hz hmod hlarge
      by_contra hbound
      exact hodd ⟨z, value_eq_int_iff.mpr hz, Int.odd_iff.mpr hmod, hlarge, Nat.not_le.mp hbound⟩
  · rcases h with hlast | ⟨z, hz, hmod, hlarge, hbound⟩
    · rw [value_eq_belowHalf_iff] at hlast
      have hzero : (x.position + half) / one = 0 := by
        rw [hlast]
        exact_mod_cast Nat.div_eq_of_lt belowHalf_add_half_lt
      rw [hzero]
      exact call_round s ht hx (hlast ▸ floorsTo_belowHalf)
    · rw [value_eq_int_iff] at hz
      have hfloor := floorsTo_of_units_eq hlow hhigh hgrid hlt hz (by omega)
      rw [if_pos ⟨Int.odd_iff.mp hmod, hbound⟩] at hfloor
      exact call_round s ht hx hfloor

/-- A half below zero goes up. -/
theorem rounded_to_nearest_unless_oversteps_of_half :
    Builtin.call "round" ["7", "-2.5"] = .ok ["7", "-2"] := by
  obtain ⟨x, hx, hfinite, hposition⟩ : ∃ x, Stack.number "-2.5" = .ok x ∧ x.isFinite = true ∧
      x.position = -(5 * half : Nat) :=
    ⟨finite true (5 * half) (representable_half (by norm_num)),
      Stack.number_of_parse? (by decide +kernel), rfl, rfl⟩
  have hvalue : x.value = -5 / 2 := by
    have hone : (one : ℝ) = 2 * half := by exact_mod_cast one_eq
    rw [value_eq_iff, hposition, hone]
    push_cast
    ring
  obtain ⟨n, ⟨hlow, hhigh⟩, -, hround, -⟩ := rounded_to_nearest_unless_oversteps ["7"] hx hfinite
  rw [hvalue] at hlow hhigh
  have hn : n = -2 := by
    have hup : n < -1 := by exact_mod_cast (by linarith : (n : ℝ) < -1)
    have hdown : -3 < n := by exact_mod_cast (by linarith : (-3 : ℝ) < n)
    omega
  rw [hn] at hround
  refine hround fun hover => ?_
  rcases hover with hlast | ⟨z, hz, -⟩
  · rw [hvalue] at hlast
    norm_num at hlast
  · rw [hvalue, div_eq_iff two_ne_zero] at hz
    have hint : -5 = z * 2 := by exact_mod_cast hz
    omega

/-- An odd integer past 2^52 is taken to the next one. -/
theorem odd_integer_not_kept :
    Stack.number "4503599627370497" = .ok (ofInt 4503599627370497) ∧
      (ofInt 4503599627370497).value = 4503599627370497 ∧
      Builtin.call "round" ["4503599627370497"] = .ok ["4503599627370498"] := by
  have hnumber : Stack.number "4503599627370497" = .ok (ofInt 4503599627370497) :=
    Stack.number_toString 4503599627370497
  have hrep := representable_int (n := 4503599627370497) (by norm_num)
  have hfinite : (ofInt 4503599627370497).isFinite = true := isFinite_ofInt (by norm_num)
  have hposition : (ofInt 4503599627370497).position = 4503599627370497 * one :=
    position_ofInt (by norm_num)
  have hfloor : FloorsTo (4503599627370497 * one) 4503599627370498 :=
    floorsTo_of_large hrep.onGrid hrep.lt_threshold (by norm_num)
  refine ⟨hnumber, value_eq_int_iff.mpr hposition, ?_⟩
  exact call_round [] hnumber hfinite (by rwa [hposition])

end Rpn.Operator
