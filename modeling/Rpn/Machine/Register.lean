import Rpn.Machine.Recording

/-! The recorder in two fields.

A `Recorder` has a name just where it records, because no other value can be formed. Here
the state and the name are fields of their own, as in a program that assigns one and then
the other, and nothing but the methods keeps them in step. The commands stand beside it on
a `Desk`, which takes the same acts as a `Bench`. -/
namespace Rpn.Recorder

/-- What becomes of the next token. -/
inductive State where
  | idle
  | unnamed
  | recording
  deriving DecidableEq

/-- A recorder in two fields. -/
structure Register where
  state : State := .idle
  name : Option String := none

/-- Commands, a recorder in two fields, and the fields that were saved last. -/
structure Desk where
  commands : Commands := ∅
  register : Register := {}
  saved : Register := {}

namespace Desk

def reset (d : Desk) : Desk := { d with register := ⟨.idle, none⟩ }

/-- Give up the definition in progress, if there is a name, with its body so far. -/
def abandon (d : Desk) : Desk :=
  match d.register.name with
  | some name => { d with commands := d.commands.erase name }.reset
  | none => d.reset

/-- Record a token. Which body it goes to, the name says, whatever the state is. -/
def feed (k : Markers) (d : Desk) (token : String) : Desk × Option Fault :=
  if token = k.start then (d.abandon, some .nestedDefinition)
  else if d.register.state = .unnamed then
    if token = k.stop then (d.abandon, some .unnamedDefinition)
    else
      ({ d with
          commands := d.commands.insert token []
          register := ⟨.recording, some token⟩ }, none)
  else
    match d.register.name with
    | none => (d, some (.noCommand none))
    | some name =>
      match d.commands[name]? with
      | none => (d, some (.noCommand (some name)))
      | some body =>
        if token = k.stop then (d.reset, none)
        else ({ d with commands := d.commands.insert name (body ++ [token]) }, none)

def act (k : Markers) (d : Desk) : Act → Desk × Option Fault
  | .arm => ({ d with register := ⟨.unnamed, none⟩ }, none)
  | .feed token => d.feed k token
  | .reset => (d.reset, none)
  | .abandon => (d.abandon, none)
  | .save => ({ d with saved := d.register }, none)
  | .restore => ({ d with register := d.saved }, none)
  | .file name body => ({ d with commands := d.commands.insert name body }, none)
  | .rollBack commands => ({ d with commands := commands, register := d.saved }, none)

/-- The desk after acts, faults passed over. -/
def play (k : Markers) (d : Desk) : List Act → Desk
  | [] => d
  | a :: acts => play k (d.act k a).1 acts

end Desk

end Rpn.Recorder
