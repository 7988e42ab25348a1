import Rpn.Machine.Recording

/-! Evaluation of tokens.

Tokens are folded over a machine and a stack, one `step` each. A user command runs its
body one level deeper, and so does `map` for every token of the stack; the levels that
are left are the argument that the recursion of `run` is on.

An evaluation is all or nothing. If it fails, the machine is what it was before, except
that a malformed definition also ends the definition in progress. -/
namespace Rpn

/-- Why and where an evaluation failed. -/
inductive Failure where
  /-- A fault at a token, with the number of tokens then on the stack. -/
  | located (fault : Fault) (token : String) (depth : Nat)
  /-- No levels were left. -/
  | exhausted
  deriving DecidableEq

namespace Failure

def report : Failure → Report
  | located f token depth => ⟨f.kind, f.message, some token, some depth⟩
  | exhausted => ⟨.recursionLimit, "User commands nested too deep for Python", none, none⟩

def kind (f : Failure) : Kind := f.report.kind

end Failure

namespace Machine

/-- What evaluation works on and gives back. -/
abbrev State := Machine × Stack

/-- Make the name on top of the stack push the value under it. -/
def store (m : Machine) (s : Stack) : Except Fault State := do
  let (rest, name) ← s.popToken
  let (rest, value) ← rest.popToken
  return ({ m with commands := m.commands.insert name [value] }, rest)

/-- A body one level deeper, if the depth allows it. -/
def enter (cfg : Config) (depth : Nat) (nested : State → List String → Except Failure State)
    (here : Fault → Failure) (st : State) (body : List String) : Except Failure State :=
  if cfg.maxDepth ≤ depth then .error (here (.nestedDeeper cfg.maxDepth)) else nested st body

/-- Run `f` on stacks of one token each and join the results to those in `done`, last first. -/
def mapTokens (f : State → Except Failure State) (m : Machine) (done : Stack) :
    List String → Except Failure State
  | [] => .ok (m, done.reverse)
  | t :: ts =>
    match f (m, [t]) with
    | .ok (m', out) => mapTokens f m' (out.reverse ++ done) ts
    | .error e => .error e

/-- One token. `nested` evaluates tokens one level deeper. -/
def step (cfg : Config) (depth : Nat) (nested : State → List String → Except Failure State)
    (st : State) (token : String) : Except Failure State :=
  let (m, s) := st
  let here (f : Fault) : Failure := .located f token s.length
  if m.recorder.isArmed then
    ((m.feed cfg.markers token).mapError here).map (·, s)
  else
    match m.lookup token with
    | .special .define => .ok (m.arm, s)
    | .special .store => (m.store s).mapError here
    | .special .map =>
      match m.commands[cfg.lambda]? with
      | none => .error (here (.noLambda cfg.lambda))
      | some body => mapTokens (enter cfg depth nested here · body) m [] s
    | .builtin b => ((b.apply s).mapError here).map (m, ·)
    | .user body => enter cfg depth nested here st body
    | .literal => .ok (m, s ++ [token])

/-- Tokens in order, up to the first failure. -/
def steps (step : State → String → Except Failure State) (st : State) :
    List String → Except Failure State
  | [] => .ok st
  | t :: ts =>
    match step st t with
    | .ok st' => steps step st' ts
    | .error e => .error e

/-- Tokens at a depth, with the given number of levels below. -/
def run (cfg : Config) : (levels depth : Nat) → State → List String → Except Failure State
  | 0, depth => steps (step cfg depth fun _ _ => .error .exhausted)
  | levels + 1, depth => steps (step cfg depth (run cfg levels (depth + 1)))

/-- The machine after an evaluation and its result. Neither is seen if the failure is that of
an operation without an end (`Fault.endless`). -/
structure Outcome where
  machine : Machine
  result : Except Failure Stack

/-- The machine that a failed evaluation leaves. -/
def afterFailure (m : Machine) (e : Failure) : Machine :=
  if e.kind = .malformedDefinition then m.abandon else m

def evaluate (cfg : Config) (m : Machine) (tokens : List String) (s : Stack) : Outcome :=
  match run cfg cfg.ceiling 0 (m, s) tokens with
  | .ok (m', s') => ⟨m', .ok s'⟩
  | .error e => ⟨m.afterFailure e, .error e⟩

end Machine

end Rpn
