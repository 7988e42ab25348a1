import Rpn.Numeral.Decimal

/-! The shortest decimal of a binary64 number.

Among the decimals that are read back as the number, those with the fewest digits, and
among these the nearest to the number, the even one of two that are equally near. On
the grid of decimals with a given number of digits only the two neighbours of the
number come into question. -/
namespace Rpn.Decimal

/-- The integer part of the decimal logarithm of `m`, from a lower bound `k`. -/
def log10From (m k : Nat) : Nat :=
  if h : Nat.pow 10 (k + 1) ≤ m then log10From m (k + 1) else k
termination_by m - k
decreasing_by
  have : k + 1 < Nat.pow 10 (k + 1) := Nat.lt_pow_self (by decide)
  omega

/-- The integer part of the decimal logarithm of `m`, for positive `m`. Three tenths of
the binary one is a lower bound, as 10^3 < 2^10. -/
def log10 (m : Nat) : Nat := log10From m (m.log2 * 3 / 10)

/-- The exponent of the leading digit of `n` units, for positive `n`. Scaled up by
`10 ^ reach` even one unit is a number above one. -/
def leadingExponent (n : Nat) : Int := log10 (n * Nat.pow 10 reach / Binary64.one) - reach

/-- The ratio `n * 10 ^ places` in ones, for a count `n` of units. -/
def scaled (n : Nat) (places : Int) : Nat × Nat :=
  if 0 ≤ places then (n * Nat.pow 10 places.toNat, Binary64.one)
  else (n, Binary64.one * Nat.pow 10 (-places).toNat)

/-- The coefficient without trailing zeros. -/
def normalize (d : Decimal) : Decimal :=
  if d.coefficient ≠ 0 ∧ d.coefficient % 10 = 0 then
    normalize { d with coefficient := d.coefficient / 10, exponent := d.exponent + 1 }
  else d
termination_by d.coefficient
decreasing_by omega

/-- The decimals next to `n` units with the given number of places, the nearer one first. -/
def neighbours (n : Nat) (places : Int) : Decimal × Decimal :=
  let (num, den) := scaled n places
  let q := num / den
  let r := num % den
  let below := ⟨false, q, -places⟩
  let above := ⟨false, q + 1, -places⟩
  if 2 * r < den ∨ 2 * r = den ∧ q % 2 = 0 then (below, above) else (above, below)

/-- The nearest decimal with the given number of places that is read back as `x`, which is
`n` units. -/
def readsBack? (x : Binary64) (n : Nat) (places : Int) : Option Decimal :=
  let (near, far) := neighbours n places
  if near.toBinary64 = x then some near
  else if far.toBinary64 = x then some far
  else none

/-- All digits of `n` units. -/
def exact (n : Nat) : Decimal :=
  ⟨false, n * Nat.pow 5 Binary64.unitExponent, -(Binary64.unitExponent : Int)⟩

/-- The shortest decimal of `n` units, the magnitude of a finite number. -/
def shortest (n : Nat) (h : Binary64.Representable n) : Decimal :=
  if n = 0 then ⟨false, 0, 0⟩
  else
    let lead := leadingExponent n
    let hit := (List.range 17).findSome? fun (i : Nat) =>
      readsBack? (.finite false n h) n (i - lead)
    (hit.getD (exact n)).normalize

end Rpn.Decimal
