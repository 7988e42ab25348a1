/-! Binary floating-point numbers of 64 bits, as exact values.

The least positive number, 2^-1074, is the *unit*. A finite number is a sign and a
count of units, and the counts that occur are the `Representable` ones: below the
overflow threshold and on the grid of their magnitude, whose step is 2^(e-52) for a
count with leading bit `e`. The proof is part of the number, so every value of
`Binary64` is a number of the format and every number of the format is a value, NaN
payloads apart.

`ofRatio` is the only rounding: to the nearest grid point, ties to the even one, past
the threshold to infinity. Every operation elsewhere computes an exact ratio of units
and rounds it once. -/
namespace Rpn.Binary64

/-- The unit is 2^-1074. -/
@[irreducible] def unitExponent : Nat := 1074

/-- Finite numbers are below 2^1024. -/
@[irreducible] def rangeExponent : Nat := 1024

/-- The number of units in one. -/
def one : Nat := Nat.pow 2 unitExponent

/-- The first count of units that is past the largest finite number, after rounding. -/
def threshold : Nat := Nat.pow 2 (rangeExponent + unitExponent)

/-- The grid at `n` units has steps of `2 ^ spacing n` units: 53 significant bits, and
single units below 2^53. -/
def spacing (n : Nat) : Nat := n.log2 - 52

/-- The counts of units that are magnitudes of finite numbers. -/
structure Representable (n : Nat) : Prop where
  lt_threshold : n < threshold
  on_grid : Nat.pow 2 (spacing n) ∣ n

end Rpn.Binary64

namespace Rpn

/-- A binary64 number. There is one NaN. -/
inductive Binary64 where
  | nan
  | inf (neg : Bool)
  | finite (neg : Bool) (units : Nat) (ok : Binary64.Representable units)
  deriving DecidableEq

end Rpn

namespace Rpn.Binary64

theorem one_pos : 0 < one := Nat.two_pow_pos _

theorem threshold_pos : 0 < threshold := Nat.two_pow_pos _

theorem threshold_eq : threshold = Nat.pow 2 rangeExponent * one := Nat.pow_add _ _ _

/-! ### Representable counts -/

/-- A multiple of 2^k with at most 53 bits above 2^k is representable. -/
theorem Representable.of_dvd {n k : Nat} (hd : Nat.pow 2 k ∣ n) (hn : n ≤ Nat.pow 2 (k + 53))
    (hlt : n < threshold) : Representable n := by
  refine ⟨hlt, ?_⟩
  rw [Nat.pow_eq] at hd hn ⊢
  by_cases he : n = 2 ^ (k + 53)
  · have hs : spacing n = k + 1 := by rw [spacing, he, Nat.log2_two_pow]; omega
    rw [hs, he]
    exact Nat.pow_dvd_pow 2 (by omega)
  · by_cases h0 : n = 0
    · simp [h0]
    · have hlog : n.log2 < k + 53 := (Nat.log2_lt h0).2 (by omega)
      exact Nat.dvd_trans (Nat.pow_dvd_pow 2 (by unfold spacing; omega)) hd

theorem representable_zero : Representable 0 :=
  ⟨threshold_pos, Nat.dvd_zero _⟩

/-- A representable count is less than 53 bits above its own grid. -/
theorem lt_two_pow_spacing (n : Nat) : n < Nat.pow 2 (spacing n + 53) := by
  have h : n < 2 ^ (n.log2 + 1) := Nat.lt_log2_self
  exact Nat.lt_of_lt_of_le h (Nat.pow_le_pow_right (by decide) (by unfold spacing; omega))

/-- The remainder of representable counts is representable: it lies on the finer of the
two grids and below both counts. -/
theorem Representable.mod {a b : Nat} (ha : Representable a) (hb : Representable b)
    (hb0 : b ≠ 0) : Representable (a % b) := by
  have hlt : a % b < b := Nat.mod_lt _ (Nat.pos_of_ne_zero hb0)
  have hle : a % b ≤ a := Nat.mod_le _ _
  have hthr : a % b < threshold := Nat.lt_of_le_of_lt hle ha.lt_threshold
  by_cases h : spacing a ≤ spacing b
  · refine .of_dvd (k := spacing a) ?_ ?_ hthr
    · exact (Nat.dvd_mod_iff (Nat.dvd_trans (Nat.pow_dvd_pow 2 h) hb.on_grid)).2 ha.on_grid
    · exact Nat.le_of_lt (Nat.lt_of_le_of_lt hle (lt_two_pow_spacing a))
  · refine .of_dvd (k := spacing b) ?_ ?_ hthr
    · exact (Nat.dvd_mod_iff hb.on_grid).2
        (Nat.dvd_trans (Nat.pow_dvd_pow 2 (by omega)) ha.on_grid)
    · exact Nat.le_of_lt (Nat.lt_trans hlt (lt_two_pow_spacing b))

/-! ### Rounding -/

/-- The integer nearest to `num / den`, the even one of two that are equally near. -/
def nearest (num den : Nat) : Nat :=
  let q := num / den
  let r := num % den
  if 2 * r < den ∨ 2 * r = den ∧ q % 2 = 0 then q else q + 1

theorem nearest_le (num den : Nat) : nearest num den ≤ num / den + 1 := by
  simp only [nearest]
  split <;> omega

/-- The grid point nearest to `num / den` units. -/
def roundRatio (num den : Nat) : Nat :=
  let k := spacing (num / den)
  nearest num (den * Nat.pow 2 k) * Nat.pow 2 k

theorem representable_roundRatio {num den : Nat} (h : roundRatio num den < threshold) :
    Representable (roundRatio num den) := by
  refine .of_dvd (k := spacing (num / den)) (Nat.dvd_mul_left _ _) ?_ h
  have hq : num / (den * Nat.pow 2 (spacing (num / den))) < Nat.pow 2 53 := by
    simp only [Nat.pow_eq]
    rw [← Nat.div_div_eq_div_mul, Nat.div_lt_iff_lt_mul (Nat.two_pow_pos _), ← Nat.pow_add,
      Nat.add_comm]
    exact lt_two_pow_spacing _
  have hn := nearest_le num (den * Nat.pow 2 (spacing (num / den)))
  have hsplit : Nat.pow 2 (spacing (num / den) + 53) =
      Nat.pow 2 53 * Nat.pow 2 (spacing (num / den)) := by
    rw [Nat.add_comm]
    exact Nat.pow_add 2 53 _
  rw [hsplit]
  exact Nat.mul_le_mul_right _ (by omega)

/-- The number nearest to `num / den` units, negated if `neg`. -/
def ofRatio (neg : Bool) (num den : Nat) : Binary64 :=
  if h : roundRatio num den < threshold then
    .finite neg (roundRatio num den) (representable_roundRatio h)
  else
    .inf neg

/-- Zero, of either sign. -/
def zero (neg : Bool) : Binary64 := .finite neg 0 representable_zero

/-- The number nearest to an integer. -/
def ofNat (n : Nat) : Binary64 := ofRatio false (n * one) 1

instance (n : Nat) : OfNat Binary64 n := ⟨ofNat n⟩

instance : Inhabited Binary64 := ⟨0⟩

/-! ### Classes and order -/

/-- A magnitude with a sign. -/
def signed (neg : Bool) (n : Nat) : Int := if neg then -n else n

def isNaN : Binary64 → Bool
  | nan => true
  | _ => false

def isFinite : Binary64 → Bool
  | finite .. => true
  | _ => false

/-- The place on the line of units, infinities at the ends; NaN has none and gets 0. -/
def position : Binary64 → Int
  | nan => 0
  | inf neg => signed neg threshold
  | finite neg n _ => signed neg n

/-- No comparison holds of NaN, and the two zeros are equal. -/
def lt (x y : Binary64) : Bool := !x.isNaN && !y.isNaN && decide (x.position < y.position)

@[inherit_doc lt] def le (x y : Binary64) : Bool :=
  !x.isNaN && !y.isNaN && decide (x.position ≤ y.position)

@[inherit_doc lt] def eq (x y : Binary64) : Bool :=
  !x.isNaN && !y.isNaN && decide (x.position = y.position)

/-! ### Integers -/

/-- The integer part towards minus infinity, of a finite number. -/
def floor? : Binary64 → Option Int
  | finite neg n _ => some (signed neg n / one)
  | _ => none

/-- The integer part towards plus infinity, of a finite number. -/
def ceil? : Binary64 → Option Int
  | finite neg n _ => some (-(-signed neg n / one))
  | _ => none

/-- The value, if it is an integer. -/
def toInt? : Binary64 → Option Int
  | finite neg n _ => if n % one = 0 then some (signed neg (n / one)) else none
  | _ => none

end Rpn.Binary64
