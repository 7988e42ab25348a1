import Rpn.Machine.Basic

/-! Recording of definitions.

After the start marker the next token names a command, and the tokens up to the end
marker become its body, unevaluated. A start marker inside a definition and an end
marker in place of the name are malformed: the definition is given up. -/
namespace Rpn.Machine

/-- Start a definition. -/
def arm (m : Machine) : Machine := { m with recorder := .unnamed }

/-- Stop recording and keep what was recorded. -/
def reset (m : Machine) : Machine := { m with recorder := .idle }

/-- Give up the definition in progress, with its body so far. -/
def abandon (m : Machine) : Machine :=
  match m.recorder with
  | .recording name => { commands := m.commands.erase name, recorder := .idle }
  | _ => m.reset

/-- Record a token. The machine afterwards is given also when there is a fault. -/
def offer (k : Markers) (m : Machine) (token : String) : Machine × Option Fault :=
  if token = k.start then (m.abandon, some .nestedDefinition)
  else
    match m.recorder with
    | .idle => (m, some (.noCommand none))
    | .unnamed =>
      if token = k.stop then (m.abandon, some .unnamedDefinition)
      else ({ commands := m.commands.insert token [], recorder := .recording token }, none)
    | .recording name =>
      match m.commands[name]? with
      | none => (m, some (.noCommand (some name)))
      | some body =>
        if token = k.stop then (m.reset, none)
        else ({ m with commands := m.commands.insert name (body ++ [token]) }, none)

/-- Record a token, or fail. -/
def feed (k : Markers) (m : Machine) (token : String) : Except Fault Machine :=
  match m.offer k token with
  | (m', none) => .ok m'
  | (_, some f) => .error f

end Rpn.Machine

namespace Rpn.Recorder

/-! ### Scripts

Recording act by act. The recorder does not own the commands: whoever does may file one or
put others in place between its acts. -/

/-- The acts on a recorder and on the commands that it records into. -/
inductive Act where
  | arm
  | feed (token : String)
  | reset
  | abandon
  | save
  | restore
  /-- File a command, past the recorder. -/
  | file (name : String) (body : List String)
  /-- Put other commands in place and restore the recorder with them. -/
  | rollBack (commands : Commands)

/-- A machine and the recorder that was saved last. -/
structure Bench where
  machine : Machine
  saved : Recorder

def Bench.act (k : Markers) (b : Bench) : Act → Bench × Option Fault
  | .arm => ({ b with machine := b.machine.arm }, none)
  | .feed token =>
    let (m, fault) := b.machine.offer k token
    ({ b with machine := m }, fault)
  | .reset => ({ b with machine := b.machine.reset }, none)
  | .abandon => ({ b with machine := b.machine.abandon }, none)
  | .save => ({ b with saved := b.machine.recorder }, none)
  | .restore => ({ b with machine.recorder := b.saved }, none)
  | .file name body =>
    ({ b with machine.commands := b.machine.commands.insert name body }, none)
  | .rollBack commands => ({ b with machine := ⟨commands, b.saved⟩ }, none)

/-- The bench after acts, faults passed over. -/
def Bench.play (k : Markers) (b : Bench) : List Act → Bench
  | [] => b
  | a :: acts => Bench.play k (b.act k a).1 acts

end Rpn.Recorder
