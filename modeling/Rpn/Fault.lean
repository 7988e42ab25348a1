import Rpn.Numeral.Layout
import Rpn.Numeral.Radix
import Rpn.Template
import Rpn.Text.Quoted

/-! What can go wrong, and how it is reported.

A `Fault` is a cause. Its kind and its wording follow from it (`Fault.kind`,
`Fault.message`). A `Report` is what a caller sees: the wording, and where the fault
arose if that is known. -/
namespace Rpn

/-- The kinds of faults that callers tell apart. -/
inductive Kind where
  /-- No closer kind. No fault that a caller sees has it. -/
  | general
  | stackUnderflow
  | notANumber
  | domain
  | unknownAnonymousFunction
  | malformedDefinition
  | recursionLimit
  /-- A command is asked for under a name that has none. Never the end of an evaluation. -/
  | missingCommand
  deriving DecidableEq, Repr

/-- The cause of a failure. -/
inductive Fault where
  /-- Fewer tokens on the stack than needed. -/
  | underflow (needed : Int)
  /-- A token that denotes no number. -/
  | notANumber (token : String)
  /-- A token that spells no integer in the base. -/
  | notInBase (radix : Radix) (token : String)
  /-- An operation without a result for its operands. -/
  | refused (wording : Template) (operands : List Binary64)
  /-- A number, given by its token, that is no count. -/
  | notACount (token : String)
  /-- An operation that goes on for ever. It has no result and raises nothing either: a
  caller waits, and never sees this fault. -/
  | endless (operands : List Binary64)
  /-- More tokens to push than the limit. -/
  | rangeTooLong (limit : Nat)
  /-- No anonymous function to map. -/
  | noLambda (name : String)
  | nestedDefinition
  | unnamedDefinition
  /-- User commands nested deeper than the machine allows. -/
  | nestedDeeper (limit : Int)
  /-- No command under the name, or no name at all. -/
  | noCommand (name : Option String)
  deriving DecidableEq

namespace Fault

def kind : Fault → Kind
  | endless _ => .general
  | underflow _ => .stackUnderflow
  | notANumber _ | notInBase .. => .notANumber
  | refused .. | notACount _ | rangeTooLong _ => .domain
  | noLambda _ => .unknownAnonymousFunction
  | nestedDefinition | unnamedDefinition => .malformedDefinition
  | nestedDeeper _ => .recursionLimit
  | noCommand _ => .missingCommand

/-- The wording of a fault. -/
def message : Fault → String
  | underflow n => "Less than " ++ Numeral.intText n ++ " element(s) on stack"
  | notANumber t => "Not a number: " ++ Text.quoted t
  | notInBase r t => "Not a base " ++ Numeral.natText r.base ++ " number: " ++ Text.quoted t
  | refused w xs => w.fill (xs.map Binary64.text)
  | endless _ => ""
  | notACount t => "Not a count: " ++ t
  | rangeTooLong n => "More than " ++ Numeral.natText n ++ " tokens"
  | noLambda name => "No anonymous function ( " ++ name ++ " ... ) to map"
  | nestedDefinition => "Nested definitions are not supported"
  | unnamedDefinition => "Definition has no name"
  | nestedDeeper n => "User commands nested deeper than " ++ Numeral.intText n
  | noCommand name => (name.map Text.quoted).getD "None"

end Fault

/-- A failure as it is shown: kind, wording, and the token it arose at with the number of
tokens on the stack. -/
structure Report where
  kind : Kind
  text : String
  token : Option String
  depth : Option Int
  deriving DecidableEq, Repr

namespace Report

/-- The wording, followed by the place if the token is known. -/
def message (r : Report) : String :=
  match r.token with
  | none => r.text
  | some t =>
    r.text ++ " (at " ++ Text.quoted t ++ ", stack depth " ++
      (r.depth.map Numeral.intText).getD "None" ++ ")"

end Report

/-- A fault without a place. -/
def Fault.report (f : Fault) : Report := ⟨f.kind, f.message, none, none⟩

/-- The result of an attempt, or the given error if the attempt was refused. Errors of the
attempt itself pass through. -/
def guarded {ε α : Type} (refusal : ε) : Except ε (Option α) → Except ε α
  | .ok (some a) => .ok a
  | .ok none => .error refusal
  | .error e => .error e

end Rpn
