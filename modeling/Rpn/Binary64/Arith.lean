import Rpn.Binary64.Basic

/-! Arithmetic on binary64 numbers.

Sums, products, quotients and square roots of finite numbers are the exact results,
rounded once by `ofRatio`; a remainder needs no rounding. What remains is the
arithmetic of infinities, zeros and NaN. -/
namespace Rpn.Binary64

def neg : Binary64 → Binary64
  | nan => nan
  | inf s => inf !s
  | finite s n h => finite (!s) n h

def abs : Binary64 → Binary64
  | nan => nan
  | inf _ => inf false
  | finite _ n h => finite false n h

/-- An exact sum of zero is negative only when both operands are. -/
def add : Binary64 → Binary64 → Binary64
  | nan, _ | _, nan => nan
  | inf s, inf t => if s = t then inf s else nan
  | inf s, finite .. => inf s
  | finite .., inf t => inf t
  | finite s a _, finite t b _ =>
    let sum := signed s a + signed t b
    if sum = 0 then zero (s && t) else ofRatio (decide (sum < 0)) sum.natAbs 1

def sub (x y : Binary64) : Binary64 := x.add y.neg

def mul : Binary64 → Binary64 → Binary64
  | nan, _ | _, nan => nan
  | inf s, inf t => inf (s ^^ t)
  | inf s, finite t b _ => if b = 0 then nan else inf (s ^^ t)
  | finite s a _, inf t => if a = 0 then nan else inf (s ^^ t)
  | finite s a _, finite t b _ => ofRatio (s ^^ t) (a * b) one

def div : Binary64 → Binary64 → Binary64
  | nan, _ | _, nan => nan
  | inf _, inf _ => nan
  | inf s, finite t _ _ => inf (s ^^ t)
  | finite s _ _, inf t => zero (s ^^ t)
  | finite s a _, finite t b _ =>
    if b = 0 then if a = 0 then nan else inf (s ^^ t)
    else ofRatio (s ^^ t) (a * one) b

instance : Neg Binary64 := ⟨neg⟩
instance : Add Binary64 := ⟨add⟩
instance : Sub Binary64 := ⟨sub⟩
instance : Mul Binary64 := ⟨mul⟩
instance : Div Binary64 := ⟨div⟩

/-- The remainder of division towards zero, with the sign of the dividend. It is exact.
An infinite dividend and a zero divisor have none. -/
def rem : Binary64 → Binary64 → Binary64
  | nan, _ | _, nan => nan
  | inf _, _ => nan
  | finite s a ha, inf _ => finite s a ha
  | finite s a ha, finite _ b hb => if h : b = 0 then nan else finite s (a % b) (ha.mod hb h)

/-! ### Square root -/

/-- Newton's iteration from above, until it no longer falls. -/
def isqrtFrom (n x : Nat) : Nat :=
  let y := (x + n / x) / 2
  if y < x then isqrtFrom n y else x
termination_by x

/-- The integer part of the square root. -/
def isqrt (n : Nat) : Nat := if n = 0 then 0 else isqrtFrom n (Nat.pow 2 (n.log2 / 2 + 1))

/-- In units the root of `n` units is the real root of `n * one`. Its integer part has far
more than 53 bits, so half a unit in place of the fraction rounds as the fraction does. -/
def sqrt : Binary64 → Binary64
  | nan => nan
  | inf s => if s then nan else inf s
  | finite s n h =>
    if n = 0 then finite s n h
    else if s then nan
    else
      let r := isqrt (n * one)
      ofRatio false (if r * r = n * one then 2 * r else 2 * r + 1) 2

/-! ### Greatest common divisor -/

/-- Euclid's algorithm on counts of units. -/
def gcdUnits (a b : Nat) (ha : Representable a) (hb : Representable b) :
    { g : Nat // Representable g } :=
  if h : b = 0 then ⟨a, ha⟩ else gcdUnits b (a % b) hb (ha.mod hb h)
termination_by b
decreasing_by exact Nat.mod_lt _ (Nat.pos_of_ne_zero h)

/-- Do the repeated remainders of two numbers come to an end, with a result or without one?
NaN is no zero and every remainder by it is NaN again, so they go on for ever once it is
the second number. As the first number it becomes the remainder, unless the second one
is zero already. -/
def gcdEnds (a b : Binary64) : Bool := !b.isNaN && (!a.isNaN || b.eq 0)

/-- The greatest number of which both are integer multiples, by repeated remainders. None
if a remainder is undefined: an infinity goes only with a zero. It says nothing of
operands for which the remainders never end (`gcdEnds`), as with NaN, which is the
result only over a zero. -/
def gcd? : Binary64 → Binary64 → Option Binary64
  | finite _ a ha, finite _ b hb =>
    let g := gcdUnits a b ha hb
    some (finite false g.1 g.2)
  | inf _, finite _ b _ => if b = 0 then some (inf false) else none
  | finite _ a _, inf _ => if a = 0 then some (inf false) else none
  | inf _, inf _ => none
  | nan, finite _ b _ => if b = 0 then some nan else none
  | _, nan | nan, inf _ => none

end Rpn.Binary64
