import Rpn.Numeral.Layout

/-! Results of computations and the tokens they become. -/
namespace Rpn

/-- A computed number: some operators give exact integers, the others binary64 numbers. -/
inductive Number where
  | int (n : Int)
  | real (x : Binary64)
  deriving DecidableEq

/-- Whole numbers below this magnitude are written as integers. -/
def Number.integerBound : Nat := Nat.pow 10 16

/-- The token of a number. A whole binary64 number of moderate size reads as it would have
been typed, without a fraction. -/
def Number.token : Number → String
  | int n => Numeral.intText n
  | real x =>
    match x.toInt? with
    | some n => if n.natAbs < integerBound then Numeral.intText n else x.text
    | none => x.text

end Rpn
