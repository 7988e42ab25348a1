import Rpn.CommandLine.Grammar
import Rpn.CommandLine.Options
import Rpn.Lexeme
import Rpn.Machine.Trace

/-! The calculator behind the command line.

Lines come in one after the other. Each is evaluated on the stack that the lines before
it left, and the stack is printed; a line that fails prints its error instead and leaves
the stack alone. In the other mode a line's tokens are listed with what they mean. -/
namespace Rpn.CommandLine

/-- What is written to the two output channels. -/
structure Output where
  out : String := ""
  err : String := ""
  deriving DecidableEq, Repr

instance : Append Output := ⟨fun a b => ⟨a.out ++ b.out, a.err ++ b.err⟩⟩

/-- A machine with its stack. -/
structure Calculator where
  cfg : Config := {}
  verbose : Bool := false
  machine : Machine := {}
  stack : Stack := []

def ofLines (ls : List String) : String := String.join (ls.map (· ++ "\n"))

namespace Calculator

/-- A calculator as the options want it. -/
def ofOptions (o : Options) : Calculator where
  cfg := { maxDepth := o.maxDepth }
  verbose := o.verbose

/-- The log of a line. -/
def log (c : Calculator) (tokens : List String) : String :=
  if c.verbose then
    ofLines ((c.machine.evaluateEvents c.cfg true tokens c.stack).map Event.line)
  else ""

/-- Evaluate a line and print the stack. -/
def execute (c : Calculator) (line : String) : Calculator × Output :=
  let tokens := Lexeme.tokens line
  let outcome := c.machine.evaluate c.cfg tokens c.stack
  match outcome.result with
  | .ok s =>
    ({ c with machine := outcome.machine, stack := s },
      { out := ofLines [" ".intercalate s], err := c.log tokens })
  | .error e =>
    ({ c with machine := outcome.machine },
      { err := c.log tokens ++ ofLines [e.report.message] })

def meaningName : Meaning → String
  | .special _ | .builtin _ => "Builtin"
  | .user _ => "UserDefined"
  | .literal => "Literal"

/-- A token's group, its text in quotes, and the kind of its meaning. -/
def describe (c : Calculator) (l : Lexeme) : String :=
  "\t".intercalate [l.group.name, Text.quoted l.text, meaningName (c.machine.lookup l.text)]

/-- List the tokens of a line. -/
def dump (c : Calculator) (line : String) : Output :=
  { out := ofLines (((Lexeme.ofLine line).filter Lexeme.isToken).map c.describe) }

end Calculator

namespace Mode

/-- What is printed before any line. -/
def header : Mode → Output
  | execute => {}
  | dump => { out := ofLines ["[group]\t<repr(token)>\t<kind>"] }
  | rawGrammar => { out := ofLines [Grammar.text] }

/-- One line. -/
def line (mode : Mode) (c : Calculator) (text : String) : Calculator × Output :=
  match mode with
  | execute => c.execute text
  | dump => (c, c.dump text)
  | rawGrammar => (c, {})

/-- Lines in order. -/
def lines (mode : Mode) (c : Calculator) : List String → Calculator × Output
  | [] => (c, {})
  | t :: ts =>
    let (c, o) := mode.line c t
    let (c, os) := mode.lines c ts
    (c, o ++ os)

end Mode

/-! ### Conversations -/

/-- What the user does at the prompt. -/
inductive Entry where
  | line (text : String)
  | interrupt
  deriving DecidableEq, Repr

/-- A conversation at the prompt: the user's commands offered for completion each time a
line was asked for, and whether it was interrupted. -/
structure Conversation where
  calculator : Calculator
  output : Output := {}
  offered : List (List String)
  interrupted : Bool := false

/-- Ask for lines until the entries end. -/
def Mode.converse (mode : Mode) (c : Calculator) : List Entry → Conversation
  | [] => { calculator := c, offered := [c.machine.userNames c.cfg] }
  | .interrupt :: _ =>
    { calculator := c, offered := [c.machine.userNames c.cfg], interrupted := true }
  | .line text :: entries =>
    let (c', o) := mode.line c text
    let rest := mode.converse c' entries
    { rest with
      output := o ++ rest.output
      offered := c.machine.userNames c.cfg :: rest.offered }

end Rpn.CommandLine
