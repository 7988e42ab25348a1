import Rpn.Binary64.Arith

/-! Ranges of numbers: from one number towards another by steps.

The range goes up if the end is above the start and down otherwise, whatever the sign
of the step, and ends before the first number past the end. -/
namespace Rpn.Operator

/-- The most tokens that a range may push. -/
def maxRange : Nat := 1000000

/-- The number after `n`. -/
def advance (up : Bool) (step n : Binary64) : Binary64 := if up then n + step else n - step

/-- Is `n` not past the end? -/
def within (up : Bool) (stop n : Binary64) : Bool := if up then n.le stop else stop.le n

/-- The way that is left, in units. -/
def gap (up : Bool) (stop n : Binary64) : Int :=
  if up then stop.position - n.position else n.position - stop.position

theorem gap_nonneg {up : Bool} {stop n : Binary64} (h : within up stop n = true) :
    0 ≤ gap up stop n := by
  cases up <;> simp_all [within, gap, Binary64.le]

/-- The numbers from `n` on, after those in `acc`, last first. None if a step changes
nothing. -/
def walk (up : Bool) (stop step n : Binary64) (acc : List Binary64) : Option (List Binary64) :=
  if within up stop n then
    let next := advance up step n
    if next.eq n then none
    else if gap up stop next < gap up stop n then walk up stop step next (n :: acc)
    else some (n :: acc).reverse
  else some acc.reverse
termination_by (gap up stop n + 1).toNat
decreasing_by
  rename_i next _ h
  have := gap_nonneg ‹_›
  have hn : gap up stop (advance up step n) < gap up stop n := h
  omega

/-- The range from `start` to `stop`. None if there is no step, an end is not finite, the
range would be too long, or a step changes nothing. -/
def range? (start stop step : Binary64) : Option (List Binary64) :=
  let step := step.abs
  if step.eq 0 || !start.isFinite || !stop.isFinite then none
  else if Binary64.lt (.ofNat maxRange) ((stop - start).abs / step + 1) then none
  else if start.eq stop then some [start]
  else walk (start.lt stop) stop step start []

end Rpn.Operator
