import Rpn.CommandLine.Calculator
import Rpn.Text.Lines

/-! One run of the program, from its arguments to its exit code. -/
namespace Rpn.CommandLine

def programName : String := "rpneval"

def usage : String :=
  "usage: " ++ programName ++ " [-h] [-v] [-d MAX_DEPTH] [-e ... | -p [PROMPT]] [-G | -D]"

def help : String := ofLines [
  usage,
  "",
  "RPN calculator",
  "",
  "options:",
  "  -h, --help            show this help message and exit",
  "  -v, --verbose         trace evaluation, and show stack traces on errors",
  "  -d MAX_DEPTH, --max-depth MAX_DEPTH",
  "                        how deep user commands may nest",
  "  -e ..., --expression ...",
  "  -p [PROMPT], --prompt [PROMPT]",
  "  -G, --raw-grammar",
  "  -D, --dump"]

def Misuse.report (m : Misuse) : String :=
  ofLines [usage, programName ++ ": error: " ++ m.message]

/-- What the program meets when it is run. -/
structure Environment where
  input : String := ""
  /-- Are input and output a terminal? -/
  inputIsTerminal : Bool := false
  outputIsTerminal : Bool := false
  /-- What the user does if asked. -/
  entries : List Entry := []

/-- Where the lines come from. -/
inductive Source where
  | arguments (lines : List String)
  | input
  /-- Ask the user with this prompt. -/
  | prompt (message : String)
  deriving DecidableEq, Repr

/-- The user is asked if a prompt is given that is not empty, or at a terminal. -/
def Options.source (o : Options) (atTerminal : Bool) : Source :=
  match o.expressions with
  | some lines => .arguments lines
  | none =>
    let given := o.prompt.getD ""
    if given ≠ "" then .prompt given
    else if atTerminal then .prompt defaultPrompt
    else .input

/-- A session at the prompt, as it was set up and used. -/
structure Session where
  message : String
  /-- Stands before further lines of an entry. -/
  continuation : String
  offered : List (List String)
  deriving DecidableEq, Repr

/-- What a run leaves behind. -/
structure Result where
  output : Output
  exitCode : Nat := 0
  session : Option Session := none
  deriving DecidableEq, Repr

def continuation (message : String) : String :=
  String.ofList (List.replicate message.length ' ')

/-- A run with the given options. -/
def Options.run (o : Options) (env : Environment) : Result :=
  let c := Calculator.ofOptions o
  let header := o.mode.header
  if o.mode = .rawGrammar then { output := header }
  else
    match o.source (env.inputIsTerminal && env.outputIsTerminal) with
    | .arguments lines => { output := header ++ (o.mode.lines c lines).2 }
    | .input => { output := header ++ (o.mode.lines c (Text.lines env.input)).2 }
    | .prompt message =>
      let talk := o.mode.converse c env.entries
      { output := header ++ talk.output
        exitCode := if talk.interrupted then 1 else 0
        session := some ⟨message, continuation message, talk.offered⟩ }

/-- A run with the given arguments. -/
def invoke (args : List String) (env : Environment) : Result :=
  match Options.ofArguments args with
  | .ok o => o.run env
  | .error .help => { output := { out := help } }
  | .error (.misuse m) => { output := { err := m.report }, exitCode := 2 }

end Rpn.CommandLine
