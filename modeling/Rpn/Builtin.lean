import Rpn.Operator.Range
import Rpn.Operator.Real
import Rpn.Stack

/-! The fixed catalogue of operators on stacks.

An operator has one of a few shapes, and the shape decides what it takes off the stack
and how it fails: a function of one, two or three numbers, a repetition on two numbers
that need not end, a spelling in a base, or a rearrangement of the tokens. -/
namespace Rpn

/-- An operator on stacks. -/
inductive Builtin where
  /-- Push a number. -/
  | constant (x : Binary64)
  | unary (f : Binary64 → Option Number)
  | binary (f : Binary64 → Binary64 → Option Number)
  /-- A function of two numbers where its repetition `ends`. -/
  | looping (ends : Binary64 → Binary64 → Bool) (f : Binary64 → Binary64 → Option Number)
  /-- Three numbers, and any number of results. -/
  | ternary (f : Binary64 → Binary64 → Binary64 → Option (List Number))
  /-- Replace a whole number by its spelling in the base. -/
  | spell (r : Radix)
  /-- Replace a spelling in the base by the integer. -/
  | unspell (r : Radix)
  /-- Any other function of the stack. -/
  | stack (f : Stack → Except Fault Stack)

/-! ### Operators on the stack as a whole -/

namespace Stack

def clear (_ : Stack) : Except Fault Stack := .ok []

def discard (s : Stack) : Except Fault Stack := s.dropTop 1

/-- Discard as many tokens as the count on top says. -/
def discardCounted (s : Stack) : Except Fault Stack := do
  let (rest, n) ← s.popCount
  rest.dropTop n

def duplicate (s : Stack) : Except Fault Stack := return s ++ (← s.top 1)

/-- Move the top to the bottom. -/
def roll (s : Stack) : Except Fault Stack := return (← s.top 1) ++ (← s.dropTop 1)

/-- Move the counted tokens on top to the bottom, in their order. -/
def rollCounted (s : Stack) : Except Fault Stack := do
  let (rest, n) ← s.popCount
  return (← rest.top n) ++ (← rest.dropTop n)

/-- Move the bottom to the top. -/
def rotate (s : Stack) : Except Fault Stack := return (← s.dropBottom 1) ++ (← s.bottom 1)

/-- Move the counted tokens at the bottom to the top, in their order. -/
def rotateCounted (s : Stack) : Except Fault Stack := do
  let (rest, n) ← s.popCount
  return (← rest.dropBottom n) ++ (← rest.bottom n)

/-- Exchange the two tokens on top. -/
def exchange (s : Stack) : Except Fault Stack := return (← s.dropTop 2) ++ (← s.top 2).reverse

/-- Replace all tokens by the result of combining their numbers, the bottom first. -/
def combine (f : Binary64 → Binary64 → Binary64) (x : Binary64) (s : Stack) :
    Except Fault Stack := do
  let result ← s.foldlM (fun acc t => return f acc (← number t)) x
  return [(Number.real result).token]

/-- The tokens of the integers from 1 to `n`. -/
def oneTo (n : Nat) : List String := (List.range n).map fun i => Numeral.natText (i + 1)

/-- Push the integers from 1 to the count on top. -/
def iota (s : Stack) : Except Fault Stack := do
  let (rest, n) ← s.popCount
  if Operator.maxRange < n then throw (.rangeTooLong Operator.maxRange)
  return rest ++ oneTo n

end Stack

namespace Builtin

/-! ### Application -/

/-- The wording for one, two and three operands. -/
def cannotApply : Nat → Template
  | 1 => ⟨"Cannot apply to \x7b0\x7d"⟩
  | 2 => ⟨"Cannot apply to \x7b0\x7d and \x7b1\x7d"⟩
  | _ => ⟨"Cannot apply to \x7b0\x7d, \x7b1\x7d and \x7b2\x7d"⟩

def cannotConvert : Template := ⟨"Cannot convert \x7b0\x7d"⟩

/-- The text of an integer that a token spells in the base. -/
def unspelled (r : Radix) (token : String) : Except Fault String :=
  match r.parse? token.toList with
  | some n =>
    if n.natAbs < Nat.pow 10 maxDecimalDigits then .ok (Numeral.intText n)
    else .error (.notInBase r token)
  | none => .error (.notInBase r token)

def apply : Builtin → Stack → Except Fault Stack
  | constant x, s => .ok (s ++ [(Number.real x).token])
  | unary f, s => do
    let (rest, a) ← s.popNumber
    let r ← guarded (.refused (cannotApply 1) [a]) (.ok (f a))
    return rest ++ [r.token]
  | binary f, s => do
    match ← s.popNumbers 2 with
    | (rest, [a, b]) =>
      let r ← guarded (.refused (cannotApply 2) [a, b]) (.ok (f a b))
      return rest ++ [r.token]
    | _ => throw (.underflow 2)
  | looping ends f, s => do
    match ← s.popNumbers 2 with
    | (rest, [a, b]) =>
      if !ends a b then throw (.endless [a, b])
      let r ← guarded (.refused (cannotApply 2) [a, b]) (.ok (f a b))
      return rest ++ [r.token]
    | _ => throw (.underflow 2)
  | ternary f, s => do
    match ← s.popNumbers 3 with
    | (rest, [a, b, c]) =>
      let rs ← guarded (.refused (cannotApply 3) [a, b, c]) (.ok (f a b c))
      return rest ++ rs.map Number.token
    | _ => throw (.underflow 3)
  | spell r, s => do
    let (rest, a) ← s.popNumber
    let n ← guarded (.refused cannotConvert [a]) (.ok a.toInt?)
    return rest ++ [r.spell n]
  | unspell r, s => do
    let (rest, t) ← s.popToken
    return rest ++ [← unspelled r t]
  | stack f, s => f s

/-! ### The catalogue -/

open Operator Binary64 in
def catalogue : List (String × Builtin) := [
  ("pi", constant pi),
  ("e", constant e),
  ("abs", unary (total abs)),
  ("chs", unary (total neg)),
  ("floor", unary floor),
  ("ceil", unary ceil),
  ("inv", unary inverse),
  ("ln", unary (real Binary64.log?)),
  ("log", unary (real log10?)),
  ("log2", unary (real log2?)),
  ("log10", unary (real log10?)),
  ("round", unary round),
  ("sgn", unary sign),
  ("sqrt", unary (real sqrt?)),
  ("!", unary factorial),
  ("+", binary (total₂ add)),
  ("-", binary (total₂ sub)),
  ("x", binary (total₂ mul)),
  ("/", binary (real₂ div?)),
  ("%", binary (real₂ rem?)),
  ("^", binary (real₂ pow?)),
  ("min", binary (total₂ Operator.min)),
  ("max", binary (total₂ Operator.max)),
  ("nroot", binary (real₂ root?)),
  ("gcd", looping gcdEnds (real₂ gcd?)),
  ("logn", binary (real₂ Operator.log?)),
  ("deg_rad", unary (total radians)),
  ("rad_deg", unary (total degrees)),
  ("sin", unary (real sin?)),
  ("cos", unary (real cos?)),
  ("tan", unary (real tan?)),
  ("asin", unary (real asin?)),
  ("acos", unary (real acos?)),
  ("atan", unary (real atan?)),
  ("c_f", unary (total fahrenheit)),
  ("f_c", unary (total celsius)),
  ("mi_km", unary (total (· * mile))),
  ("km_mi", unary (total (· / mile))),
  ("m_ft", unary (total (· * metre))),
  ("ft_m", unary (total (· / metre))),
  ("dec_hex", spell .hexadecimal),
  ("dec_bin", spell .binary),
  ("dec_oct", spell .octal),
  ("hex_dec", unspell .hexadecimal),
  ("bin_dec", unspell .binary),
  ("oct_dec", unspell .octal),
  ("cls", stack Stack.clear),
  ("drop", stack Stack.discard),
  ("dropn", stack Stack.discardCounted),
  ("dup", stack Stack.duplicate),
  ("roll", stack Stack.roll),
  ("rolln", stack Stack.rollCounted),
  ("rot", stack Stack.rotate),
  ("rotn", stack Stack.rotateCounted),
  ("swap", stack Stack.exchange),
  ("sum", stack (Stack.combine add 0)),
  ("prod", stack (Stack.combine mul 1)),
  ("io", stack Stack.iota),
  ("to", ternary fun a b c => (range? a b c).map (·.map .real))]

/-- The operator of a name. -/
def named? (name : String) : Option Builtin := catalogue.lookup name

def names : List String := catalogue.map (·.1)

/-- The operator of a name, applied to a stack. -/
def call (name : String) (s : Stack) : Except Fault Stack :=
  match named? name with
  | some b => b.apply s
  | none => .error (.noCommand (some name))

end Builtin

end Rpn
