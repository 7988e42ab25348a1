import Rpn.Fault
import Rpn.Number

/-! Stacks of tokens, the top last.

Numbers stay tokens until an operator needs them. Every operation gives back what is
left of the stack along with what it took off. -/
namespace Rpn

abbrev Stack := List String

namespace Stack

/-! ### Parts of a stack

A negative number of tokens is never too many; it counts from the other end. -/

def require (s : Stack) (n : Int) : Except Fault Unit :=
  if (s.length : Int) < n then .error (.underflow n) else .ok ()

/-- The place of an index, which counts from the end if it is negative. -/
def place (s : Stack) (i : Int) : Nat := if 0 ≤ i then i.toNat else (s.length + i).toNat

/-- The bottom `n` tokens. -/
def bottom (s : Stack) (n : Int) : Except Fault Stack := do
  s.require n
  return s.take (s.place n)

/-- All but the bottom `n` tokens. -/
def dropBottom (s : Stack) (n : Int) : Except Fault Stack := do
  s.require n
  return s.drop (s.place n)

/-- The top `n` tokens, in stack order. -/
def top (s : Stack) (n : Int) : Except Fault Stack := do
  s.require n
  return s.drop (s.length - n).toNat

/-- All but the top `n` tokens. -/
def dropTop (s : Stack) (n : Int) : Except Fault Stack := do
  s.require n
  return s.take (s.length - n).toNat

/-! ### Taking off the top -/

def popToken (s : Stack) : Except Fault (Stack × String) :=
  match s.getLast? with
  | some t => .ok (s.dropLast, t)
  | none => .error (.underflow 1)

/-- The number that a token denotes. -/
def number (token : String) : Except Fault Binary64 :=
  match Binary64.parse? token with
  | some x => .ok x
  | none => .error (.notANumber token)

def popNumber (s : Stack) : Except Fault (Stack × Binary64) := do
  let (rest, t) ← s.popToken
  return (rest, ← number t)

/-- The top `n` tokens as numbers, in stack order. -/
def popNumbers (s : Stack) (n : Int) : Except Fault (Stack × List Binary64) := do
  let rest ← s.dropTop n
  return (rest, ← (← s.top n).mapM number)

/-- A whole number that is not negative. -/
def popCount (s : Stack) : Except Fault (Stack × Nat) := do
  let (rest, x) ← s.popNumber
  match x.toInt? with
  | some (.ofNat n) => return (rest, n)
  | _ => throw (.notACount (Number.real x).token)

end Stack

end Rpn
