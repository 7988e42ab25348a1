import Rpn.Binary64.Arith

/-! Elementary functions of binary64 numbers.

Logarithms, powers and trigonometric functions are the platform's, reached through the
64-bit words of the interchange format. A result counts only if it is one: NaN from
numbers and an infinity from finite numbers mean that the function has no value there. -/
namespace Rpn.Binary64

/-! ### Words of the interchange format -/

/-- The word of a magnitude: the exponent field above the 52 bits of the fraction. -/
def magnitudeWord (n : Nat) : Nat := spacing n * Nat.pow 2 52 + n / Nat.pow 2 (spacing n)

def toBits : Binary64 → UInt64
  | nan => 0x7FF8000000000000
  | inf s => (if s then 0x8000000000000000 else 0) + 0x7FF0000000000000
  | finite s n _ => (if s then 0x8000000000000000 else 0) + (magnitudeWord n).toUInt64

def ofBits (w : UInt64) : Binary64 :=
  let neg := decide (Nat.pow 2 63 ≤ w.toNat)
  let exponent := w.toNat / Nat.pow 2 52 % Nat.pow 2 11
  let fraction := w.toNat % Nat.pow 2 52
  if exponent = 2047 then if fraction = 0 then inf neg else nan
  else if exponent = 0 then ofRatio neg fraction 1
  else ofRatio neg ((Nat.pow 2 52 + fraction) * Nat.pow 2 (exponent - 1)) 1

def toFloat (x : Binary64) : Float := Float.ofBits x.toBits

def ofFloat (x : Float) : Binary64 := if x.isNaN then nan else ofBits x.toBits

/-! ### Functions with their domains -/

/-- A result that is neither NaN from a number nor infinite from a finite number. -/
def valid? (x r : Binary64) : Option Binary64 :=
  if r.isNaN && !x.isNaN || !r.isNaN && !r.isFinite && x.isFinite then none else some r

/-- A platform function where it has a value. -/
def elementary? (f : Float → Float) (x : Binary64) : Option Binary64 :=
  valid? x (ofFloat (f x.toFloat))

/-- The natural logarithm. -/
def log? : Binary64 → Option Binary64 := elementary? Float.log

def log2? : Binary64 → Option Binary64 := elementary? Float.log2

def log10? : Binary64 → Option Binary64 := elementary? Float.log10

def sin? : Binary64 → Option Binary64 := elementary? Float.sin

def cos? : Binary64 → Option Binary64 := elementary? Float.cos

def tan? : Binary64 → Option Binary64 := elementary? Float.tan

def asin? : Binary64 → Option Binary64 := elementary? Float.asin

def acos? : Binary64 → Option Binary64 := elementary? Float.acos

def atan? : Binary64 → Option Binary64 := elementary? Float.atan

/-- The square root of a number that is not negative. -/
def sqrt? (x : Binary64) : Option Binary64 := valid? x x.sqrt

/-- The remainder, where it is defined: NaN only from NaN. -/
def rem? (x y : Binary64) : Option Binary64 :=
  let r := x.rem y
  if r.isNaN && !x.isNaN && !y.isNaN then none else some r

/-- The quotient by a divisor other than zero. -/
def div? (x y : Binary64) : Option Binary64 := if y.eq 0 then none else some (x / y)

/-- A power. Finite operands have one only if it is finite. -/
def pow? (x y : Binary64) : Option Binary64 :=
  let r := ofFloat (Float.pow x.toFloat y.toFloat)
  if x.isFinite && y.isFinite && !r.isFinite then none else some r

end Rpn.Binary64
