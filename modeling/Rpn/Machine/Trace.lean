import Rpn.Machine.Evaluate

/-! The trace of an evaluation: what happened, in order.

A trace is not part of evaluation. It is computed beside it, from the same machine and
tokens, along the steps that evaluation takes. There are two of them: the events that a
log tells of, and the acts on the recorder and on the commands. -/
namespace Rpn

/-- Something that happened during an evaluation. -/
inductive Event where
  /-- Recording started. -/
  | armed
  | defining (name : String)
  | defined (name : String) (body : List String)
  | abandoning (name : String)
  /-- An operator or machine function met the stack. -/
  | applied (name : String) (stack : Stack)
  | expanding (name : String) (body : List String)
  | storing (value name : String)
  /-- The evaluation ended in a failure. -/
  | failed
  deriving DecidableEq, Repr

namespace Event

/-- The part of the program that an event belongs to. -/
def source : Event → String
  | armed | defining _ | defined .. | abandoning _ => "rpneval.recorder"
  | applied .. | expanding .. | storing .. | failed => "rpneval.machine"

def isError : Event → Bool
  | failed => true
  | _ => false

def message : Event → String
  | armed => "recorder armed"
  | defining name => "defining " ++ Text.quoted name
  | defined name body => "defined " ++ Text.quoted name ++ " as " ++ Text.quotedList body
  | abandoning name => "abandoning definition of " ++ Text.quoted name
  | applied name s => name ++ " " ++ Text.quotedList s
  | expanding name body => "expanding " ++ name ++ " to " ++ Text.quotedTuple body
  | storing value name => "storing " ++ Text.quoted value ++ " as " ++ Text.quoted name
  | failed => "evaluation failed"

/-- A line of the log. -/
def line (e : Event) : String := e.source ++ ": " ++ e.message

/-- A line of the log that starts with its level. -/
def leveledLine (e : Event) : String := (if e.isError then "ERROR " else "DEBUG ") ++ e.line

end Event

namespace Machine

def abandonEvents (m : Machine) : List Event :=
  match m.recorder with
  | .recording name => [.abandoning name]
  | _ => []

def feedEvents (k : Markers) (m : Machine) (token : String) : List Event :=
  if token = k.start then m.abandonEvents
  else
    match m.recorder with
    | .idle => []
    | .unnamed => if token = k.stop then m.abandonEvents else [.defining token]
    | .recording name =>
      match m.commands[name]? with
      | some body => if token = k.stop then [.defined name body] else []
      | none => []

/-- The value and the name that `store` finds on the stack, if they are there. -/
def storeOperands (s : Stack) : List (String × String) :=
  match (do let (rest, name) ← s.popToken; return ((← rest.popToken).2, name)) with
  | .ok operands => [operands]
  | .error _ => []

/-- What happens at a token, apart from the bodies that it has run. -/
def tokenEvents (k : Markers) (st : State) (token : String) : List Event :=
  let (m, s) := st
  if m.recorder.isArmed then m.feedEvents k token
  else
    match m.lookup token with
    | .special .define => [.applied token s, .armed]
    | .special .store =>
      .applied token s :: (storeOperands s).map fun (value, name) => .storing value name
    | .special .map | .builtin _ => [.applied token s]
    | .user body => [.expanding token body]
    | .literal => []

/-- What is done at a token to the recorder and the commands, apart from the bodies that it
has run. -/
def tokenActs (st : State) (token : String) : List Recorder.Act :=
  let (m, s) := st
  if m.recorder.isArmed then [.feed token]
  else
    match m.lookup token with
    | .special .define => [.arm]
    | .special .store => (storeOperands s).map fun (value, name) => .file name [value]
    | _ => []

/-! ### Logs

A log has entries for each token that is run, `entries` of it, in the order of the run. -/

section Log
variable {α : Type}

/-- The log after an attempt, which is empty if that failed. -/
def logAfter (r : Except Failure State) (log : State → List α) : List α :=
  match r with
  | .ok st => log st
  | .error _ => []

def enterLog (cfg : Config) (depth : Nat) (nested : State → List String → List α) (st : State)
    (body : List String) : List α :=
  if cfg.maxDepth ≤ depth then [] else nested st body

def mapLog (f : State → Except Failure State) (log : State → List α) (m : Machine) :
    List String → List α
  | [] => []
  | t :: ts => log (m, [t]) ++ logAfter (f (m, [t])) fun st => mapLog f log st.1 ts

def stepLog (entries : State → String → List α) (cfg : Config) (depth : Nat)
    (nested : State → List String → Except Failure State)
    (nestedLog : State → List String → List α) (st : State) (token : String) : List α :=
  let (m, s) := st
  entries st token ++
    if m.recorder.isArmed then []
    else
      match m.lookup token with
      | .special .map =>
        match m.commands[cfg.lambda]? with
        | none => []
        | some body =>
          mapLog (enter cfg depth nested (.located · token s.length) · body)
            (enterLog cfg depth nestedLog · body) m s
      | .user body => enterLog cfg depth nestedLog st body
      | _ => []

def stepsLog (step : State → String → Except Failure State) (log : State → String → List α)
    (st : State) : List String → List α
  | [] => []
  | t :: ts => log st t ++ logAfter (step st t) fun st' => stepsLog step log st' ts

def runLog (entries : State → String → List α) (cfg : Config) :
    (levels depth : Nat) → State → List String → List α
  | 0, depth =>
    stepsLog (step cfg depth fun _ _ => .error .exhausted)
      (stepLog entries cfg depth (fun _ _ => .error .exhausted) fun _ _ => [])
  | levels + 1, depth =>
    stepsLog (step cfg depth (run cfg levels (depth + 1)))
      (stepLog entries cfg depth (run cfg levels (depth + 1))
        (runLog entries cfg levels (depth + 1)))

end Log

/-- All that happens in an evaluation. A failure itself is an event only if `verbose`. -/
def evaluateEvents (cfg : Config) (verbose : Bool) (m : Machine) (tokens : List String)
    (s : Stack) : List Event :=
  runLog (tokenEvents cfg.markers) cfg cfg.ceiling 0 (m, s) tokens ++
    match (m.evaluate cfg tokens s).result with
    | .ok _ => []
    | .error e =>
      (if e.kind = .malformedDefinition then m.abandonEvents else []) ++
        if verbose then [.failed] else []

/-- What a failed evaluation ends with. -/
def failureActs (m : Machine) (e : Failure) : List Recorder.Act :=
  .rollBack m.commands :: if e.kind = .malformedDefinition then [.abandon] else []

/-- All that an evaluation does to the recorder and the commands. -/
def evaluateActs (cfg : Config) (m : Machine) (tokens : List String) (s : Stack) :
    List Recorder.Act :=
  .save :: (runLog tokenActs cfg cfg.ceiling 0 (m, s) tokens ++
    match (m.evaluate cfg tokens s).result with
    | .ok _ => []
    | .error e => m.failureActs e)

end Machine

end Rpn
