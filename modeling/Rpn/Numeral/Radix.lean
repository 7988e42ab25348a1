import Rpn.Numeral.Digits
import Rpn.Text.Blank
import Rpn.Text.DecimalDigit

/-! Whole numbers spelled in a base.

Blanks may stand around the spelling, a sign in front, then the mark of the base (`0x`,
`0o`, `0b`, in either case) and the digits. The zero of the mark, like every digit below
ten, may be of any script. One `_` may follow the mark and one may stand between two
digits. -/
namespace Rpn

/-- Integers with more decimal digits than this are not converted to or from decimal. -/
@[irreducible] def maxDecimalDigits : Nat := 4300

/-- A base that integers are spelled in. -/
inductive Radix where
  | binary
  | octal
  | decimal
  | hexadecimal
  deriving DecidableEq, Repr

namespace Radix
open Numeral

def base : Radix → Nat
  | binary => 2
  | octal => 8
  | decimal => 10
  | hexadecimal => 16

/-- The letter that marks the base after a zero. -/
def mark? : Radix → Option Char
  | binary => some 'b'
  | octal => some 'o'
  | decimal => none
  | hexadecimal => some 'x'

/-- The value of a digit: a decimal digit of any script or an ASCII letter. -/
def anyDigit? (c : Char) : Option Nat :=
  match Text.decimalDigit? c with
  | some d => some d
  | none =>
    let n := c.toLower.toNat
    if 97 ≤ n ∧ n ≤ 122 then some (n - 87) else none

/-- The value of a digit of the base. -/
def digit? (r : Radix) (c : Char) : Option Nat :=
  match anyDigit? c with
  | some d => if d < r.base then some d else none
  | none => none

/-- The text after a mark of the base and the `_` that may follow it. -/
def skipMark (r : Radix) : List Char → List Char
  | z :: m :: s =>
    if Text.decimalDigit? z = some 0 ∧ r.mark? = some m.toLower then
      match s with
      | '_' :: s => s
      | s => s
    else z :: m :: s
  | s => s

/-- The integer that a text spells. -/
def parse? (r : Radix) (s : List Char) : Option Int :=
  let (neg, s) := takeSign (Text.trim s)
  match digitRun r.digit? (r.skipMark s) with
  | ([], _) => none
  | (ds, []) =>
    if r = .decimal ∧ maxDecimalDigits < ds.length then none
    else some (if neg then -(ofDigits r.base ds : Int) else ofDigits r.base ds)
  | _ => none

/-- The spelling of an integer without mark, in lower case. -/
def spell (r : Radix) (n : Int) : String := String.ofList (intDigits r.base n)

end Radix

end Rpn
