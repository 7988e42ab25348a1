import Rpn.Binary64.Elementary
import Rpn.Number
import Rpn.Numeral.Decimal

/-! Operators on numbers. `none` means that the operands have no result. -/
namespace Rpn.Operator
open Binary64

/-- The number nearest to a decimal fraction. -/
def decimal (coefficient : Nat) (exponent : Int) : Binary64 :=
  Decimal.toBinary64 ⟨false, coefficient, exponent⟩

def pi : Binary64 := decimal 3141592653589793 (-15)

def e : Binary64 := decimal 2718281828459045 (-15)

/-- An operator that has a result everywhere. -/
def total (f : Binary64 → Binary64) (a : Binary64) : Option Number := some (.real (f a))

/-- An operator with the results of a function. -/
def real (f : Binary64 → Option Binary64) (a : Binary64) : Option Number := (f a).map .real

/-! ### One operand -/

def floor (a : Binary64) : Option Number := a.floor?.map .int

def ceil (a : Binary64) : Option Number := a.ceil?.map .int

def inverse (a : Binary64) : Option Number := (div? 1 a).map .real

/-- The integer part of the number a half above. -/
def round (a : Binary64) : Option Number := floor (a + 1 / 2)

/-- The sign as an integer; NaN keeps itself. -/
def sign (a : Binary64) : Option Number :=
  if a.isNaN then some (.real a)
  else if lt 0 a then some (.int 1)
  else if lt a 0 then some (.int (-1))
  else some (.int 0)

def factorialNat : Nat → Nat
  | 0 => 1
  | n + 1 => (n + 1) * factorialNat n

/-- Exact up to 170; the factorials above are past the binary64 range. -/
def factorial (a : Binary64) : Option Number :=
  match a.toInt? with
  | some (.ofNat n) => some (if 170 < n then .real (.inf false) else .int (factorialNat n))
  | _ => none

def radians (a : Binary64) : Binary64 := a * (pi / 180)

def degrees (a : Binary64) : Binary64 := a * (180 / pi)

def fahrenheit (a : Binary64) : Binary64 := a * 9 / 5 + 32

def celsius (a : Binary64) : Binary64 := (a - 32) * 5 / 9

/-- Kilometres in a mile. -/
def mile : Binary64 := decimal 160934 (-5)

/-- Feet in a metre. -/
def metre : Binary64 := decimal 328084 (-5)

/-! ### Two operands -/

/-- An operator that has a result everywhere. -/
def total₂ (f : Binary64 → Binary64 → Binary64) (a b : Binary64) : Option Number :=
  some (.real (f a b))

/-- An operator with the results of a function. -/
def real₂ (f : Binary64 → Binary64 → Option Binary64) (a b : Binary64) : Option Number :=
  (f a b).map .real

/-- NaN if either is. -/
def min (a b : Binary64) : Binary64 :=
  if a.isNaN || b.isNaN then nan else if b.lt a then b else a

@[inherit_doc min] def max (a b : Binary64) : Binary64 :=
  if a.isNaN || b.isNaN then nan else if a.lt b then b else a

/-- The `b`-th root of `a`. -/
def root? (a b : Binary64) : Option Binary64 := do pow? a (← div? 1 b)

/-- The logarithm of `a` to the base `b`. -/
def log? (a b : Binary64) : Option Binary64 := do div? (← Binary64.log? a) (← Binary64.log? b)

end Rpn.Operator
