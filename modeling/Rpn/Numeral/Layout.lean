import Rpn.Numeral.Shortest

/-! The text of decimals and of binary64 numbers.

Which exponents are written out in full and how wide an exponent is, a `Layout`
decides. Every text of a finite number has a point or an exponent. -/
namespace Rpn

/-- How decimals are written: positional while the exponent of the leading digit is at
least `least` and below `beyond`, else with an exponent of at least `width` digits. -/
structure Layout where
  least : Int
  beyond : Int
  width : Nat

/-- Positional from 0.0001 up to 10^16, and two digits of exponent. -/
def Layout.standard : Layout := ⟨-4, 16, 2⟩

namespace Layout
open Numeral

def zeros (n : Nat) : List Char := List.replicate n '0'

/-- Digits `ds` before the power `10 ^ e`, with a point. -/
def positional (ds : List Char) (e : Int) : List Char :=
  let point := ds.length + e
  if 0 ≤ e then ds ++ zeros e.toNat ++ ['.', '0']
  else if 0 < point then ds.take point.toNat ++ '.' :: ds.drop point.toNat
  else '0' :: '.' :: (zeros (-point).toNat ++ ds)

/-- One digit before the point and the exponent of that digit. -/
def scientific (width : Nat) (ds : List Char) (lead : Int) : List Char :=
  let mantissa := match ds with
    | d :: r :: rs => d :: '.' :: r :: rs
    | ds => ds
  let es := digits 10 lead.natAbs
  mantissa ++ 'e' :: (if lead < 0 then '-' else '+') :: (zeros (width - es.length) ++ es)

/-- The text of a decimal, its sign apart. -/
def magnitude (l : Layout) (d : Decimal) : List Char :=
  let ds := digits 10 d.coefficient
  let lead := ds.length - 1 + d.exponent
  if l.least ≤ lead ∧ lead < l.beyond then positional ds d.exponent
  else scientific l.width ds lead

end Layout

/-- The shortest text that is read back as the number. -/
def Binary64.text : Binary64 → String
  | nan => "nan"
  | inf neg => if neg then "-inf" else "inf"
  | finite neg n h =>
    let m := Layout.standard.magnitude (Decimal.shortest n h)
    String.ofList (if neg then '-' :: m else m)

end Rpn
