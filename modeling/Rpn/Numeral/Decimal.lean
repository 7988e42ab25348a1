import Rpn.Binary64.Arith
import Rpn.Numeral.Digits
import Rpn.Text.Blank
import Rpn.Text.DecimalDigit

/-! Decimal numbers and the numbers that tokens denote.

A decimal is a sign, a coefficient and a power of ten. A numeral spells one: an
optional sign, digits with an optional point among or beside them, an optional
exponent. A token denotes the binary64 number nearest to the decimal it spells; blanks
may stand around it, and `inf`, `infinity` and `nan` are words for the other numbers. -/
namespace Rpn

/-- The number `coefficient * 10 ^ exponent`, negated if `neg`. -/
structure Decimal where
  neg : Bool
  coefficient : Nat
  exponent : Int
  deriving DecidableEq, Repr

namespace Decimal
open Numeral

/-- An exponent part: nothing, or `e` or `E` and an integer. -/
def exponent? : List Char → Option Int
  | [] => some 0
  | c :: s =>
    if c = 'e' ∨ c = 'E' then
      let (neg, s) := takeSign s
      match digitRun Text.decimalDigit? s with
      | ([], _) => none
      | (ds, []) => some (if neg then -(ofDigits 10 ds : Int) else ofDigits 10 ds)
      | _ => none
    else none

/-- The digits after a point, if there is one, and the rest. -/
def fraction (s : List Char) : List Nat × List Char :=
  match s with
  | '.' :: s => digitRun Text.decimalDigit? s
  | s => ([], s)

/-- The decimal that an unsigned numeral spells. -/
def parse? (neg : Bool) (s : List Char) : Option Decimal :=
  let (whole, s) := digitRun Text.decimalDigit? s
  let (part, s) := fraction s
  if whole = [] ∧ part = [] then none
  else (exponent? s).map fun e => ⟨neg, ofDigits 10 (whole ++ part), e - part.length⟩

/-- Powers of ten past this one are out of the range of binary64 numbers, either way. -/
@[irreducible] def reach : Nat := 400

/-- The nearest binary64 number. Exponents that lead past either end of the range are
settled without their powers of ten. -/
def toBinary64 (d : Decimal) : Binary64 :=
  if d.coefficient = 0 then .zero d.neg
  else if (reach : Int) < d.exponent then .inf d.neg
  else if d.exponent < -(reach : Int) - d.coefficient.log2 then .zero d.neg
  else if 0 ≤ d.exponent then
    .ofRatio d.neg (d.coefficient * Nat.pow 10 d.exponent.toNat * Binary64.one) 1
  else
    .ofRatio d.neg (d.coefficient * Binary64.one) (Nat.pow 10 (-d.exponent).toNat)

end Decimal

namespace Binary64

/-- The infinity or NaN that a word denotes, in any case of letters. -/
def special? (neg : Bool) (s : List Char) : Option Binary64 :=
  let w := s.map Char.toLower
  if w = ['i', 'n', 'f'] ∨ w = ['i', 'n', 'f', 'i', 'n', 'i', 't', 'y'] then some (.inf neg)
  else if w = ['n', 'a', 'n'] then some .nan
  else none

/-- The number that a token denotes. -/
def parse? (token : String) : Option Binary64 :=
  let (neg, s) := Numeral.takeSign (Text.trim token.toList)
  match special? neg s with
  | some x => some x
  | none => (Decimal.parse? neg s).map Decimal.toBinary64

end Binary64

end Rpn
