import Rpn.Proofs.IntegerRanges
import Rpn.Proofs.RoundingErrors

/-! Ranges of integers that reach the limit.

The count that limits a range is the way over the step, and one, where the way over the
step is a quotient of which no fraction is dropped. Near the limit it is rounded so finely
that a fraction is never lost (`lt_div_add_one`). Hence a range is refused exactly if the
way is longer than the steps that the limit allows (`Exact.tooLong_iff`), and this refuses,
of the ranges within the limit, those that fill it and stop short of their end. -/
namespace Rpn.Binary64

/-! ### Quotients just past an integer -/

/-- The step of the grid between 2^19 and 2^20. -/
def tick : Nat := part 33

theorem tick_pos : 0 < tick := part_pos 33

theorem one_eq_tick : one = 2 ^ 33 * tick := one_eq_part (by norm_num [unitExponent])

theorem add_tick_eq (q : Nat) : q * one + tick = (q * 2 ^ 33 + 1) * tick := by
  rw [one_eq_tick]
  ring

/-- The number that follows an integer of 20 bits. -/
theorem representable_add_tick {q : Nat} (h : q < 2 ^ 20) : Representable (q * one + tick) := by
  rw [add_tick_eq]
  exact representable_mul_part (by omega) 33

section Quotients
variable {m c q : Nat} (hc : 0 < c) (hm : m ≤ 2 ^ 53) (hlow : 2 ^ 19 ≤ q) (hhigh : q + 1 < 2 ^ 20)
  (h : q * c < m)
include hc hm hlow hhigh h

/-- A quotient past an integer of 20 bits is not rounded to it: the divisor has at most 34
bits, and so the quotient is past the integer by more than half a step of the grid. -/
theorem add_tick_le_roundRatio : q * one + tick ≤ roundRatio (m * one) c := by
  have hunits : m * one = m * 2 ^ 33 * tick := by
    rw [one_eq_tick]
    ring
  have hsteps : 2 ^ 19 * c ≤ q * c := Nat.mul_le_mul_right c hlow
  rw [hunits, add_tick_eq]
  by_cases hlarge : 2 ^ 20 * c ≤ m
  · -- past the next power of two, which is a grid point
    have hle : 2 ^ 53 * tick * c ≤ m * 2 ^ 33 * tick := by
      calc 2 ^ 53 * tick * c = 2 ^ 20 * c * 2 ^ 33 * tick := by ring
        _ ≤ m * 2 ^ 33 * tick := by gcongr
    calc (q * 2 ^ 33 + 1) * tick ≤ 2 ^ 53 * tick := Nat.mul_le_mul_right _ (by omega)
      _ ≤ roundRatio (m * 2 ^ 33 * tick) c :=
        le_roundRatio hc (representable_mul_part (Nat.le_refl _) 33).onGrid hle
  · have hgrid : 2 ^ spacing (m * 2 ^ 33 * tick / c) = tick := by
      refine congrArg (2 ^ ·) (spacing_eq ?_ ?_)
      · rw [Nat.pow_add, Nat.le_div_iff_mul_le hc]
        calc 2 ^ 52 * tick * c = 2 ^ 19 * c * 2 ^ 33 * tick := by ring
          _ ≤ m * 2 ^ 33 * tick := Nat.mul_le_mul_right _ (by omega)
      · rw [Nat.pow_add, Nat.div_lt_iff_lt_mul hc]
        calc m * 2 ^ 33 * tick < 2 ^ 20 * c * 2 ^ 33 * tick :=
              Nat.mul_lt_mul_of_pos_right (by omega) tick_pos
          _ = 2 ^ 53 * tick * c := by ring
    obtain ⟨-, herror⟩ := roundRatio_error (m * 2 ^ 33 * tick) hc
    obtain ⟨j, hj⟩ := dvd_roundRatio (m * 2 ^ 33 * tick) c
    rw [hgrid] at herror hj
    rw [hj] at herror ⊢
    -- in steps of the grid: `j` is not half a step from the quotient
    have hnear : 2 * (m * 2 ^ 33) ≤ 2 * (j * c) + c := by
      refine Nat.le_of_mul_le_mul_right ?_ tick_pos
      calc 2 * (m * 2 ^ 33) * tick = 2 * (m * 2 ^ 33 * tick) := by ring
        _ ≤ 2 * (tick * j * c) + c * tick := herror
        _ = (2 * (j * c) + c) * tick := by ring
    rw [Nat.mul_comm tick j]
    refine Nat.mul_le_mul_right _ ?_
    by_contra hless
    have hbelow : j * c ≤ q * c * 2 ^ 33 := by
      calc j * c ≤ q * 2 ^ 33 * c := Nat.mul_le_mul_right c (by omega)
        _ = q * c * 2 ^ 33 := by ring
    omega

/-- If `q` steps do not reach the end, then more than `q + 1` numbers are counted. -/
theorem lt_div_add_one (hcle : c ≤ 2 ^ 53) :
    (ofInt (q + 1 : Nat)).lt (ofInt m / ofInt c + ofInt 1) = true := by
  have hround := add_tick_le_roundRatio hc hm hlow hhigh h
  have hquotient := position_div hc hcle hm
  have hlt := (representable_add_tick (q := q) (by omega)).lt_threshold
  -- one more than the quotient is a step of the grid past `q + 1`, and rounding keeps it there
  have hrep : Representable ((q + 1) * one + tick) := representable_add_tick hhigh
  have hcount : ((q + 1) * one + tick : Nat) ≤
      roundPosition ((ofInt m / ofInt c).position + one) := by
    refine le_roundPosition hrep.onGrid (Nat.le_of_lt hrep.lt_threshold) ?_
    rw [Nat.succ_mul]
    omega
  rw [← position_div_add_one hc hcle hm] at hcount
  have hpos := tick_pos
  have hlimit : (ofInt (q + 1 : Nat)).position < ((q + 1) * one + tick : Nat) := by
    rw [position_ofInt_succ (by omega), Nat.succ_mul]
    omega
  have hfinite : (ofInt (q + 1 : Nat)).isFinite = true := isFinite_ofInt (by omega)
  exact lt_of_position (isNaN_of_isFinite hfinite) (isNaN_div_add_one hc hcle hm)
    (Int.lt_of_lt_of_le hlimit hcount)

end Quotients

end Rpn.Binary64

namespace Rpn.Operator
open Binary64

/-! ### What the limit refuses -/

namespace Exact
variable {a b c : Int} (h : Exact a b c)
include h

/-- A range is refused exactly if the steps that the limit allows do not reach its end. -/
theorem tooLong_iff : tooLong a b c = true ↔ (maxRange - 1) * c.natAbs < (b - a).natAbs := by
  refine ⟨fun hlong => ?_, fun hshort => ?_⟩
  · by_contra hfits
    rw [h.tooLong_of_le (Nat.le_of_not_lt hfits)] at hlong
    cases hlong
  · have hcount := lt_div_add_one h.step_pos h.span_le (by norm_num [maxRange])
      (by norm_num [maxRange]) hshort h.step_le
    rwa [Nat.sub_add_cancel (by decide)] at hcount

/-- Of the ranges within the limit, those are refused that fill it and do not hit their end. -/
theorem tooLong_iff_of_fits (hfits : (b - a).natAbs / c.natAbs + 1 ≤ maxRange) :
    tooLong a b c = true ↔ (b - a).natAbs / c.natAbs + 1 = maxRange ∧ ¬ c ∣ b - a := by
  have hsteps := Nat.div_mul_le_self (b - a).natAbs c.natAbs
  rw [h.tooLong_iff, ← Int.natAbs_dvd_natAbs]
  refine ⟨fun hpast => ?_, fun ⟨hfull, hmiss⟩ => ?_⟩
  · have hfull : (b - a).natAbs / c.natAbs + 1 = maxRange := by
      have hmany := (Nat.le_div_iff_mul_le h.step_pos).mpr (Nat.le_of_lt hpast)
      omega
    refine ⟨hfull, fun hhit => ?_⟩
    have hend := Nat.div_mul_cancel hhit
    rw [Nat.eq_sub_of_add_eq hfull] at hend
    omega
  · rw [← Nat.eq_sub_of_add_eq hfull]
    refine Nat.lt_of_le_of_ne hsteps fun hend => hmiss ?_
    exact Dvd.intro_left _ hend

end Exact

/-- **Ranges of integers within the limit.** If the numbers from `a` towards `b` are at most
as many as the limit, then the operator pushes them, unless they are just as many and `b` is
not one of them: then it refuses its operands. -/
theorem ranges_within_limit_pushed_iff (s : Stack) (a b c : Int) (ha : a.natAbs ≤ 2 ^ 52)
    (hb : b.natAbs ≤ 2 ^ 52) (hc : c.natAbs ≤ 2 ^ 52) (hnonzero : c ≠ 0)
    (hfits : (b - a).natAbs / c.natAbs + 1 ≤ maxRange) :
    let d : Int := if a < b then c.natAbs else -c.natAbs
    let k := (b - a).natAbs / c.natAbs
    let pushed := Builtin.call "to" (s ++ [toString a, toString b, toString c])
    let expected := s ++ (List.range (k + 1)).map fun i : Nat => toString (a + i * d)
    (pushed = .ok expected ↔ k + 1 < maxRange ∨ c ∣ b - a) ∧
      (Builtin.OutOfDomain pushed ↔ k + 1 = maxRange ∧ ¬ c ∣ b - a) := by
  intro d k pushed expected
  have hexact : Exact a b c := ⟨ha, hb, hc, hnonzero⟩
  have hlong := hexact.tooLong_iff_of_fits hfits
  have hadmitted : k + 1 < maxRange ∨ c ∣ b - a ↔ ¬ (k + 1 = maxRange ∧ ¬ c ∣ b - a) := by
    have hk : k + 1 ≤ maxRange := hfits
    by_cases hhit : c ∣ b - a
    · simp [hhit]
    · simp only [hhit, or_false, not_false_eq_true, and_true]
      omega
  rw [hadmitted, ← hlong]
  cases htoo : tooLong a b c with
  | true =>
    have hrefused : Builtin.OutOfDomain pushed := hexact.call_to_of_tooLong s htoo
    exact ⟨iff_of_false (hrefused.ne_ok _) (by simp), iff_of_true hrefused rfl⟩
  | false =>
    have hpushed : pushed = .ok expected := by
      have hcall := hexact.call_to_of_not_tooLong s htoo
      rwa [toString_integers] at hcall
    have hnot : ¬ Builtin.OutOfDomain pushed := fun hrefused => hrefused.ne_ok _ hpushed
    exact ⟨iff_of_true hpushed (by simp), iff_of_false hnot (by simp)⟩

/-- A short range that stops before its end, and a full one that hits it. -/
theorem ranges_within_limit_pushed_iff_of_odd_steps :
    Builtin.call "to" ["7", "0", "5", "2"] = .ok ["7", "0", "2", "4"] ∧
      ¬ Builtin.OutOfDomain (Builtin.call "to" ["7", "0", "1999998", "2"]) := by
  obtain ⟨hshort, -⟩ := ranges_within_limit_pushed_iff ["7"] 0 5 2 (by norm_num) (by norm_num)
    (by norm_num) (by decide) (by norm_num [maxRange])
  obtain ⟨-, hfull⟩ := ranges_within_limit_pushed_iff ["7"] 0 1999998 2 (by norm_num)
    (by norm_num) (by norm_num) (by decide) (by norm_num [maxRange])
  refine ⟨hshort.mpr (.inl (by norm_num [maxRange])), fun hrefused => ?_⟩
  exact (hfull.mp hrefused).2 (by norm_num)

/-- The even numbers below 1999999 fill the limit, and are refused. -/
theorem full_range_refused : (1999999 - 0) / 2 + 1 = maxRange ∧
    Builtin.OutOfDomain (Builtin.call "to" ["0", "1999999", "2"]) := by
  have hexact : Exact 0 1999999 2 := ⟨by norm_num, by norm_num, by norm_num, by decide⟩
  have hlong : tooLong 0 1999999 2 = true := hexact.tooLong_iff.mpr (by norm_num [maxRange])
  exact ⟨by norm_num [maxRange], hexact.call_to_of_tooLong [] hlong⟩

end Rpn.Operator
