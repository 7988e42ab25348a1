import Rpn.Proofs.Rounding

/-! How far rounding goes.

A rounded ratio is off by at most half a step of the grid (`roundRatio_error`), and a rounded
count of units by one part in 2^53 (`roundPosition_sub_le`). So the sum of a number and a step
may differ from the number by less than the step, but unless it is the number again, it
differs by half the step at least (`le_two_mul_roundPosition_sub`). -/
namespace Rpn.Binary64

/-! ### Half a step of the grid -/

theorem nearest_error (num : Nat) {den : Nat} (hden : 0 < den) :
    2 * (nearest num den * den) ≤ 2 * num + den ∧ 2 * num ≤ 2 * (nearest num den * den) + den := by
  have hsplit : num / den * den + num % den = num := Nat.div_add_mod' num den
  have hrest : num % den < den := Nat.mod_lt _ hden
  simp only [nearest]
  split
  · omega
  · rw [Nat.add_mul, Nat.one_mul]
    omega

theorem roundRatio_error (num : Nat) {den : Nat} (hden : 0 < den) :
    2 * (roundRatio num den * den) ≤ 2 * num + den * 2 ^ spacing (num / den) ∧
      2 * num ≤ 2 * (roundRatio num den * den) + den * 2 ^ spacing (num / den) := by
  have herror := nearest_error num (Nat.mul_pos hden (Nat.two_pow_pos (spacing (num / den))))
  have hunits : roundRatio num den * den =
      nearest num (den * 2 ^ spacing (num / den)) * (den * 2 ^ spacing (num / den)) := by
    rw [roundRatio_eq]
    ring
  rwa [hunits]

theorem dvd_roundRatio (num den : Nat) : 2 ^ spacing (num / den) ∣ roundRatio num den :=
  Nat.dvd_mul_left _ _

/-- A grid point from `2 ^ (52 + k)` on is a multiple of `2 ^ k`. -/
theorem OnGrid.dvd_of_two_pow_le {n k : Nat} (h : OnGrid n) (hle : 2 ^ (52 + k) ≤ n) :
    2 ^ k ∣ n := by
  have hn : n ≠ 0 := Nat.ne_of_gt (Nat.lt_of_lt_of_le (Nat.two_pow_pos _) hle)
  have hlog : 52 + k ≤ n.log2 := (Nat.le_log2 hn).mpr hle
  exact Nat.dvd_trans (Nat.pow_dvd_pow 2 (by unfold spacing; omega)) h

/-- Off the finest grid a step of the grid is small. -/
theorem two_pow_spacing_le {n : Nat} (h : spacing n ≠ 0) : 2 ^ 52 * 2 ^ spacing n ≤ n := by
  have hn : n ≠ 0 := by
    rintro rfl
    simp [spacing] at h
  have hlog : 52 + spacing n = n.log2 := by
    unfold spacing at h ⊢
    omega
  rw [← Nat.pow_add, hlog]
  exact Nat.log2_self_le hn

/-- Between two powers of two the grid has one step. -/
theorem spacing_eq {n e : Nat} (hlow : 2 ^ (52 + e) ≤ n) (hhigh : n < 2 ^ (53 + e)) :
    spacing n = e := by
  have hn : n ≠ 0 := Nat.ne_of_gt (Nat.lt_of_lt_of_le (Nat.two_pow_pos _) hlow)
  have hle : 52 + e ≤ n.log2 := (Nat.le_log2 hn).mpr hlow
  have hlt : n.log2 < 53 + e := (Nat.log2_lt hn).mpr hhigh
  unfold spacing
  omega

/-- A number with `k` bits too many is rounded as if they stood behind the point, whatever power
of two it is scaled by. -/
theorem roundRatio_scaled {n k : Nat} (hlow : 2 ^ (52 + k) ≤ n) (hhigh : n < 2 ^ (53 + k))
    (e : Nat) : roundRatio (n * 2 ^ e) 1 = nearest n (2 ^ k) * 2 ^ (e + k) := by
  have hgrid : spacing (n * 2 ^ e) = e + k := by
    refine spacing_eq ?_ ?_
    · calc 2 ^ (52 + (e + k)) = 2 ^ (52 + k) * 2 ^ e := by ring
        _ ≤ n * 2 ^ e := Nat.mul_le_mul_right _ hlow
    · calc n * 2 ^ e < 2 ^ (53 + k) * 2 ^ e :=
            Nat.mul_lt_mul_of_pos_right hhigh (Nat.two_pow_pos e)
        _ = 2 ^ (53 + (e + k)) := by ring
  rw [roundRatio_eq, Nat.div_one, Nat.one_mul, hgrid, Nat.pow_add, Nat.mul_comm (2 ^ e),
    nearest_mul_right _ _ (Nat.two_pow_pos e)]

/-- A number of at most 53 bits, scaled by a power of two. -/
theorem representable_mul_two_pow {n e : Nat} (hn : n ≤ 2 ^ 53)
    (he : e + 53 < rangeExponent + unitExponent) : Representable (n * 2 ^ e) := by
  have hle : n * 2 ^ e ≤ 2 ^ (e + 53) := by
    rw [Nat.add_comm, Nat.pow_add]
    exact Nat.mul_le_mul_right _ hn
  refine .of_dvd (k := e) (Nat.dvd_mul_left _ _) hle ?_
  exact Nat.lt_of_le_of_lt hle (Nat.pow_lt_pow_right (by decide) he)

/-- The `2 ^ k`-th part of one, in units. -/
def part (k : Nat) : Nat := 2 ^ (unitExponent - k)

theorem part_pos (k : Nat) : 0 < part k := Nat.two_pow_pos _

theorem one_eq_part {k : Nat} (h : k ≤ unitExponent) : one = 2 ^ k * part k := by
  rw [part, ← Nat.pow_add, Nat.add_sub_cancel' h]
  rfl

theorem representable_mul_part {n : Nat} (h : n ≤ 2 ^ 53) (k : Nat) :
    Representable (n * part k) := by
  refine representable_mul_two_pow h ?_
  unfold rangeExponent
  omega

/-- Half of one, in units. -/
def half : Nat := part 1

theorem half_pos : 0 < half := part_pos 1

theorem one_eq : one = 2 * half := one_eq_part (k := 1) (by norm_num [unitExponent])

theorem representable_half {n : Nat} (h : n ≤ 2 ^ 53) : Representable (n * half) :=
  representable_mul_part h 1

/-! ### On the line of units -/

/-- What is rounded to a finite number is rounded to the grid, by half a step at most. -/
theorem roundPosition_error {z : Int} (h : (roundPosition z).natAbs < threshold) :
    2 ^ spacing z.natAbs ∣ roundPosition z ∧
      2 * roundPosition z ≤ 2 * z + 2 ^ spacing z.natAbs ∧
      2 * z ≤ 2 * roundPosition z + 2 ^ spacing z.natAbs := by
  -- below zero as above
  wlog hz : 0 ≤ z generalizing z
  · have hneg := @this (-z) (by rwa [roundPosition_neg, Int.natAbs_neg]) (by omega)
    rw [roundPosition_neg, Int.natAbs_neg, Int.dvd_neg] at hneg
    exact ⟨hneg.1, by omega, by omega⟩
  have hround : roundPosition z = roundRatio z.natAbs 1 := by
    simp only [roundPosition, signed, Int.not_lt.mpr hz, decide_false, Bool.false_eq_true,
      if_false, Int.natAbs_natCast] at h ⊢
    omega
  obtain ⟨hup, hdown⟩ := roundRatio_error z.natAbs Nat.one_pos
  rw [Nat.div_one, Nat.mul_one, Nat.one_mul] at hup hdown
  have hpow : ((2 ^ spacing z.natAbs : Nat) : Int) = 2 ^ spacing z.natAbs := by push_cast; rfl
  rw [hround, ← hpow]
  have hgrid := dvd_roundRatio z.natAbs 1
  rw [Nat.div_one] at hgrid
  exact ⟨Int.natCast_dvd_natCast.mpr hgrid, by omega, by omega⟩

/-- Rounding moves a count of units by one part in 2^53 at most. -/
theorem roundPosition_sub_le {z : Int} (h : (roundPosition z).natAbs < threshold) :
    2 ^ 53 * (roundPosition z - z).natAbs ≤ z.natAbs := by
  obtain ⟨-, hup, hdown⟩ := roundPosition_error h
  have hpow : (2 ^ spacing z.natAbs : Int) = (2 ^ spacing z.natAbs : Nat) := by push_cast; rfl
  rw [hpow] at hup hdown
  by_cases hfine : spacing z.natAbs = 0
  · rw [hfine, Nat.pow_zero] at hup hdown
    omega
  · have hstep := two_pow_spacing_le hfine
    omega

/-- Points of two grids on either side of `m`, where the step of the grid doubles. -/
theorem le_sub_of_crossing {p q m : Int} {v : Nat} (hp : (v : Int) ∣ m - p)
    (hq : 2 * (v : Int) ∣ m - q) (hbelow : p < m) (habove : m - 2 * v < q) : v ≤ q - p := by
  have hbefore := Int.le_of_dvd (by omega) hp
  have hafter : m ≤ q := by
    by_contra hless
    have hle := Int.le_of_dvd (by omega) hq
    omega
  omega

/-- A step that is added to a number may come out shorter, but by half at most unless
nothing is left of it. -/
theorem le_two_mul_roundPosition_sub {p c : Int} (hp : OnGrid p.natAbs)
    (h : (roundPosition (p + c)).natAbs < threshold) (hmoved : p < roundPosition (p + c)) :
    c ≤ 2 * (roundPosition (p + c) - p) := by
  obtain ⟨hgrid, -, herror⟩ := roundPosition_error h
  generalize roundPosition (p + c) = q at hgrid herror hmoved ⊢
  by_cases hlong : c ≤ 0 ∨ 2 ^ spacing (p + c).natAbs ≤ c
  · omega
  by_cases hdvd : 2 ^ spacing (p + c).natAbs ∣ p
  · -- both are on one grid, and so a step of it apart
    have hle := Int.le_of_dvd (by omega) (Int.dvd_sub hgrid hdvd)
    omega
  · -- between them is a power of two, up to which the grid has half the step
    obtain ⟨hbelow, habove⟩ := hp.lt_two_pow (mt Int.natCast_dvd.mpr (by exact_mod_cast hdvd))
    obtain ⟨k, hk⟩ : ∃ k, spacing (p + c).natAbs = k + 1 := by
      refine Nat.exists_eq_succ_of_ne_zero fun hzero => hdvd ?_
      simp [hzero]
    have hstep : (2 : Int) ^ spacing (p + c).natAbs = 2 * (2 ^ k : Nat) := by
      rw [hk]
      push_cast
      ring
    have hcross : 2 ^ (52 + spacing (p + c).natAbs) = 2 ^ 53 * 2 ^ k := by
      rw [hk]
      ring
    have hfine := hp.dvd_of_two_pow_le (k := k)
    rw [Nat.pow_add] at hfine
    rw [hstep] at hgrid herror hlong
    rw [hcross] at hbelow habove
    generalize 2 ^ k = v at *
    have hhalf : (v : Int) ∣ 2 ^ 53 * v - p :=
      Int.dvd_sub (Int.dvd_mul_left _ _) (Int.natCast_dvd.mpr (hfine (by omega)))
    have hwhole : 2 * (v : Int) ∣ 2 ^ 53 * v - q := Int.dvd_sub ⟨2 ^ 52, by ring⟩ hgrid
    have hle := le_sub_of_crossing hhalf hwhole (by omega) (by omega)
    omega

end Rpn.Binary64
