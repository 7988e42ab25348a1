import Mathlib.Data.Int.GCD
import Mathlib.Data.Real.Basic
import Rpn.Proofs.Operands
import Rpn.Proofs.Operators
import Rpn.Proofs.Rounding

/-! The greatest common divisor of numbers.

Finite numbers are whole counts of units, so Euclid's algorithm runs on them as it does on
integers: a remainder is exact (`rem?_finite`), and what divides both numbers of a round
divides both of the next (`Euclid.position_eq`). The number that the rounds end with is
the greatest common divisor in units, and so, by Bézout's identity, every real number that
measures both operands measures it (`generates_of_position`).

On other numbers a round may find no remainder, and with NaN there may be no last round
(`rounds_iff`). -/
namespace Rpn.Binary64

/-! ### Units -/

theorem signed_mul (neg : Bool) (m n : Nat) : signed neg (m * n) = signed neg m * n := by
  cases neg <;> simp [signed]

theorem tmod_signed (s t : Bool) (m n : Nat) :
    (signed s m).tmod (signed t n) = signed s (m % n) := by
  have hnat : (m : Int).tmod n = m % n := rfl
  cases s <;> cases t <;> simp [signed, hnat]

/-- A finite number is an integer if its units are whole ones. -/
theorem toInt?_eq_some_iff {x : Binary64} {z : Int} :
    x.toInt? = some z ↔ x.isFinite = true ∧ x.position = z * one := by
  have hone : (one : Int) ≠ 0 := Int.natCast_ne_zero.mpr (Nat.ne_of_gt one_pos)
  cases x with
  | nan => simp [toInt?, isFinite]
  | inf neg => simp [toInt?, isFinite]
  | finite neg n ok =>
    simp only [toInt?, isFinite, position, true_and]
    constructor
    · intro h
      split at h
      case isTrue hn =>
        obtain rfl := Option.some.inj h
        rw [← signed_mul, Nat.div_mul_cancel (Nat.dvd_of_mod_eq_zero hn)]
      case isFalse => cases h
    · intro h
      have hdvd : one ∣ n := by
        rw [← natAbs_signed neg n, h, Int.natAbs_mul, Int.natAbs_natCast]
        exact Nat.dvd_mul_left _ _
      obtain ⟨k, rfl⟩ := hdvd
      rw [Nat.mul_comm, signed_mul] at h
      rw [if_pos (Nat.mul_mod_right _ _), Nat.mul_div_cancel_left _ one_pos,
        Int.eq_of_mul_eq_mul_right hone h]

/-! ### Rounds of remainders -/

theorem position_eq_zero {s : Bool} {n : Nat} {h : Representable n} :
    (finite s n h).position = 0 ↔ n = 0 := by
  rw [position, ← Int.natAbs_eq_zero, natAbs_signed]

theorem rem?_units (s t : Bool) {a b : Nat} (ha : Representable a) (hb : Representable b)
    (hne : b ≠ 0) :
    rem? (finite s a ha) (finite t b hb) = some (finite s (a % b) (ha.mod hb hne)) := by
  simp [rem?, rem, hne, isNaN]

/-- The remainder of finite numbers is exact. -/
theorem rem?_finite {x y : Binary64} (hx : x.isFinite = true) (hy : y.isFinite = true)
    (hne : y.position ≠ 0) :
    ∃ r, rem? x y = some r ∧ r.isFinite = true ∧ r.position = x.position.tmod y.position := by
  cases x <;> cases hx
  cases y <;> cases hy
  case finite.refl.finite.refl s a ha t b hb =>
    exact ⟨_, rem?_units s t ha hb (mt position_eq_zero.mpr hne), rfl, (tmod_signed s t a b).symm⟩

/-- Rounds of Euclid's algorithm and the number that they end with: while the second number
is not zero, it takes the place of the first, and the remainder its own. -/
inductive Euclid : Binary64 → Binary64 → Binary64 → Prop
  | done {x y : Binary64} (zero : y.eq 0 = true) : Euclid x y x.abs
  | round {x y r g : Binary64} (nonzero : y.eq 0 = false) (rem : rem? x y = some r)
    (rest : Euclid y r g) : Euclid x y g

/-- On counts of units, whatever the signs. -/
theorem euclid_gcdUnits {a b : Nat} (ha : Representable a) (hb : Representable b) (s t : Bool) :
    Euclid (finite s a ha) (finite t b hb)
      (finite false (gcdUnits a b ha hb).1 (gcdUnits a b ha hb).2) := by
  fun_induction gcdUnits a b ha hb generalizing s t with
  | case1 a ha hb => exact .done ((eq_zero_iff rfl).mpr (position_eq_zero.mpr rfl))
  | case2 a b ha hb hne ih =>
    have hnonzero : (finite t b hb).eq 0 = false := by
      rw [← Bool.not_eq_true, eq_zero_iff rfl, position_eq_zero]
      exact hne
    exact .round hnonzero (rem?_units s t ha hb hne) (ih t s)

/-- On finite numbers the rounds end, with what `gcd?` gives. -/
theorem euclid_gcd? {x y : Binary64} (hx : x.isFinite = true) (hy : y.isFinite = true) :
    ∃ g, gcd? x y = some g ∧ Euclid x y g := by
  cases x <;> cases hx
  cases y <;> cases hy
  exact ⟨_, rfl, euclid_gcdUnits _ _ _ _⟩

/-- Rounds keep the greatest common divisor, and end with it. -/
theorem Euclid.position_eq {x y g : Binary64} (h : Euclid x y g) (hx : x.isFinite = true)
    (hy : y.isFinite = true) : g.isFinite = true ∧ g.position = Int.gcd x.position y.position := by
  induction h with
  | @done x y hzero =>
    rw [eq_zero_iff hy] at hzero
    refine ⟨?_, ?_⟩
    · rwa [isFinite_abs]
    · rw [position_abs, hzero, Int.gcd_zero_right]
  | @round x y r g hne hrem _ ih =>
    rw [← Bool.not_eq_true, eq_zero_iff hy] at hne
    obtain ⟨r', hr', hfinite, hposition⟩ := rem?_finite hx hy hne
    obtain rfl : r' = r := Option.some.inj (hr'.symm.trans hrem)
    obtain ⟨hg, hgcd⟩ := ih hy hfinite
    refine ⟨hg, ?_⟩
    rw [hgcd, hposition, Int.gcd, Int.natAbs_tmod, Nat.gcd_comm, ← Nat.gcd_rec, Nat.gcd_comm]
    rfl

theorem gcdEnds_of_isFinite {x y : Binary64} (hx : x.isFinite = true) (hy : y.isFinite = true) :
    gcdEnds x y = true := by
  simp [gcdEnds, isNaN_of_isFinite hx, isNaN_of_isFinite hy]

/-! ### Rounds that end, and rounds that do not -/

/-- Rounds on any numbers and what they end with: a number, or nothing at a remainder that is
undefined. -/
inductive Rounds : Binary64 → Binary64 → Option Binary64 → Prop
  | done {x y : Binary64} (zero : y.eq 0 = true) : Rounds x y (some x.abs)
  | undefined {x y : Binary64} (nonzero : y.eq 0 = false) (rem : rem? x y = none) : Rounds x y none
  | round {x y r : Binary64} {g : Option Binary64} (nonzero : y.eq 0 = false)
    (rem : rem? x y = some r) (rest : Rounds y r g) : Rounds x y g

theorem Euclid.rounds {x y g : Binary64} (h : Euclid x y g) : Rounds x y (some g) := by
  induction h with
  | done zero => exact .done zero
  | round nonzero rem _ ih => exact .round nonzero rem ih

/-- A remainder is NaN where an operand is, and nowhere else. -/
theorem isNaN_rem? {x y r : Binary64} (h : rem? x y = some r) :
    r.isNaN = (x.isNaN || y.isNaN) := by
  have hnan : x.isNaN = true ∨ y.isNaN = true → (x.rem y).isNaN = true := by
    cases x <;> cases y <;> simp [isNaN, rem]
  simp only [rem?] at h
  split at h
  · cases h
  · obtain rfl := Option.some.inj h
    cases hx : x.isNaN <;> cases hy : y.isNaN <;> simp_all

theorem isNaN_of_rem?_eq_none {x y : Binary64} (h : rem? x y = none) :
    x.isNaN = false ∧ y.isNaN = false := by
  simp only [rem?] at h
  split at h
  case isTrue hundefined =>
    simp only [Bool.and_eq_true, Bool.not_eq_true'] at hundefined
    exact ⟨hundefined.1.2, hundefined.2⟩
  case isFalse => cases h

/-- Rounds do not end once NaN is the second number, and it is that from the second round on
if it is the first number and there is a second round. -/
theorem Rounds.gcdEnds {x y : Binary64} {g : Option Binary64} (h : Rounds x y g) :
    gcdEnds x y = true := by
  induction h with
  | @done x y zero =>
    have hy : y.isNaN = false := by
      cases hy : y.isNaN
      · rfl
      · simp [eq, hy] at zero
    simp [Binary64.gcdEnds, hy, zero]
  | undefined _ rem =>
    obtain ⟨hx, hy⟩ := isNaN_of_rem?_eq_none rem
    simp [Binary64.gcdEnds, hx, hy]
  | @round x y r _ _ rem _ ih =>
    have hr : r.isNaN = false := by
      simp only [Binary64.gcdEnds, Bool.and_eq_true, Bool.not_eq_true'] at ih
      exact ih.1
    rw [isNaN_rem? rem, Bool.or_eq_false_iff] at hr
    simp [Binary64.gcdEnds, hr.1, hr.2]

theorem inf_ne_zero (s : Bool) : (inf s).eq 0 = false := by
  cases s <;> decide +kernel

theorem finite_eq_zero (s : Bool) {n : Nat} (h : Representable n) :
    (finite s n h).eq 0 = decide (n = 0) := by
  rw [Bool.eq_iff_iff, eq_zero_iff rfl, position_eq_zero, decide_eq_true_iff]

/-- Over an infinity there is a zero, or no remainder. -/
theorem rounds_inf (s t : Bool) {n : Nat} (h : Representable n) :
    Rounds (inf s) (finite t n h) (if n = 0 then some (inf false) else none) := by
  split
  case isTrue hn => exact .done (by simp [finite_eq_zero, hn])
  case isFalse hn => exact .undefined (by simp [finite_eq_zero, hn]) rfl

/-- The rounds end with what `gcd?` gives, NaN over a zero included. -/
theorem rounds_gcd? {x y : Binary64} (h : gcdEnds x y = true) : Rounds x y (gcd? x y) := by
  cases x with
  | nan =>
    cases y with
    | finite t b hb =>
      have hzero : (finite t b hb).eq 0 = true := by simpa [gcdEnds, isNaN] using h
      have hb : b = 0 := by simpa [finite_eq_zero] using hzero
      simp only [gcd?, if_pos hb]
      exact .done hzero
    | inf t => simp [gcdEnds, isNaN, inf_ne_zero] at h
    | nan => cases h
  | inf s =>
    cases y with
    | finite t b hb => exact rounds_inf s t hb
    | inf t => exact .undefined (inf_ne_zero t) rfl
    | nan => cases h
  | finite s a ha =>
    cases y with
    | finite t b hb => exact (euclid_gcdUnits ha hb s t).rounds
    | inf t => exact .round (inf_ne_zero t) rfl (rounds_inf t s ha)
    | nan => cases h

theorem Rounds.unique {x y : Binary64} {g g' : Option Binary64} (h : Rounds x y g)
    (h' : Rounds x y g') : g = g' := by
  induction h with
  | done zero => cases h' <;> simp_all
  | undefined nonzero rem => cases h' <;> simp_all
  | round nonzero rem _ ih =>
    cases h' with
    | done zero => simp_all
    | undefined _ rem' => simp_all
    | round _ rem' rest =>
      obtain rfl := Option.some.inj (rem.symm.trans rem')
      exact ih rest

/-- **Where the rounds end.** They do exactly for the operands that `gcdEnds` says, and then
with what `gcd?` gives. Otherwise there is nothing that they end with. -/
theorem rounds_iff {x y : Binary64} {g : Option Binary64} :
    Rounds x y g ↔ gcdEnds x y = true ∧ g = gcd? x y := by
  constructor
  · exact fun h => ⟨h.gcdEnds, h.unique (rounds_gcd? h.gcdEnds)⟩
  · rintro ⟨hends, rfl⟩
    exact rounds_gcd? hends

/-- The operator goes on for ever just for the operands whose rounds do not end. -/
theorem gcd_endless_iff (s : Stack) {a b : String} {x y : Binary64} (ha : Stack.number a = .ok x)
    (hb : Stack.number b = .ok y) :
    Builtin.call "gcd" (s ++ [a, b]) = .error (.endless [x, y]) ↔ ∀ g, ¬Rounds x y g := by
  have hcall : Builtin.call "gcd" (s ++ [a, b]) = _ := Builtin.looping_apply _ s ha hb
  rw [hcall, Builtin.binary_apply _ s ha hb]
  simp only [rounds_iff]
  cases gcdEnds x y with
  | false => simp
  | true => cases Operator.real₂ gcd? x y <;> simp

/-! ### Common measures -/

/-- The exact value of a finite number. -/
noncomputable def value (x : Binary64) : ℝ := x.position / one

/-- Of the numbers that have both as integer multiples, `g` is the one that all others
have as an integer multiple too: the greatest, or zero if both are. -/
structure Generates (g u v : ℝ) : Prop where
  nonneg : 0 ≤ g
  left : ∃ i : ℤ, u = i * g
  right : ∃ j : ℤ, v = j * g
  greatest : ∀ r : ℝ, (∃ i : ℤ, u = i * r) → (∃ j : ℤ, v = j * r) → ∃ k : ℤ, g = k * r

theorem generates_of_position {x y g : Binary64}
    (h : g.position = Int.gcd x.position y.position) : Generates g.value x.value y.value := by
  have hone : (0 : ℝ) < one := Nat.cast_pos.mpr one_pos
  have hmultiple {p : ℤ} (hp : (Int.gcd x.position y.position : ℤ) ∣ p) :
      ∃ i : ℤ, (p : ℝ) / one = i * g.value := by
    obtain ⟨i, rfl⟩ := hp
    refine ⟨i, ?_⟩
    rw [value, h]
    push_cast
    ring
  refine ⟨?_, hmultiple (Int.gcd_dvd_left ..), hmultiple (Int.gcd_dvd_right ..), ?_⟩
  · rw [value, h, Int.cast_natCast]
    exact div_nonneg (Nat.cast_nonneg _) hone.le
  · rintro r ⟨i, hi⟩ ⟨j, hj⟩
    -- Bézout's identity, in units
    have hbezout := Int.gcd_eq_gcd_ab x.position y.position
    refine ⟨i * x.position.gcdA y.position + j * x.position.gcdB y.position, ?_⟩
    rw [value, h, hbezout]
    push_cast
    rw [add_div, mul_div_right_comm, mul_div_right_comm, ← value, ← value, hi, hj]
    ring

/-- **The greatest common divisor.** Of two finite numbers, the rounds of remainders end,
and the operator pushes the number that they end with. The operands are exact integer
multiples of it, and so is it of every real number of which both are; for integers it is
their greatest common divisor, whatever their size and sign. -/
theorem gcd_generates (s : Stack) {a b : String} {x y : Binary64} (ha : Stack.number a = .ok x)
    (hb : Stack.number b = .ok y) (hx : x.isFinite = true) (hy : y.isFinite = true) :
    ∃ g : Binary64, Euclid x y g ∧
      Builtin.call "gcd" (s ++ [a, b]) = .ok (s ++ [(Number.real g).token]) ∧
      Generates g.value x.value y.value ∧
      ∀ m n, x.toInt? = some m → y.toInt? = some n → g.toInt? = some (Int.gcd m n : Int) := by
  obtain ⟨g, hgcd, heuclid⟩ := euclid_gcd? hx hy
  obtain ⟨hg, hposition⟩ := heuclid.position_eq hx hy
  refine ⟨g, heuclid, ?_, generates_of_position hposition, ?_⟩
  · refine (Builtin.looping_apply _ s ha hb).trans ?_
    rw [if_pos (gcdEnds_of_isFinite hx hy), Builtin.binary_apply _ s ha hb, Operator.real₂, hgcd]
    rfl
  · intro m n hm hn
    rw [toInt?_eq_some_iff] at hm hn ⊢
    refine ⟨hg, ?_⟩
    rw [hposition, hm.2, hn.2, Int.gcd_mul_right, Int.natAbs_natCast, Int.natCast_mul]

/-- Integers of either sign, one of them past those that are written out. -/
theorem gcd_generates_of_large :
    Builtin.call "gcd" ["7", "1e20", "-18"] = .ok ["7", "2"] := by
  have hx : Stack.number "1e20" = .ok (ofNat (10 ^ 20)) :=
    Stack.number_of_parse? (by decide +kernel)
  have hy : Stack.number "-18" = .ok (ofNat 18).neg := Stack.number_of_parse? (by decide +kernel)
  obtain ⟨g, -, hcall, -, hinteger⟩ :=
    gcd_generates ["7"] hx hy (by decide +kernel) (by decide +kernel)
  have hgcd : Int.gcd (10 ^ 20) (-18) = 2 := by decide +kernel
  have hg := hinteger (10 ^ 20) (-18) (by decide +kernel) (by decide +kernel)
  rw [hgcd] at hg
  have htoken : (Number.real g).token = Numeral.intText 2 := by
    simp [Number.token, hg, Number.integerBound]
  have htext : Numeral.intText 2 = "2" := by decide +kernel
  rw [htoken, htext] at hcall
  exact hcall

end Rpn.Binary64
