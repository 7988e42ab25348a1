import Rpn.CommandLine.Invocation

/-! The program. Lines are read, handed to the calculator and answered one at a time. -/
namespace Rpn.CommandLine

def write (o : Output) : IO Unit := do
  let out ← IO.getStdout
  out.putStr o.out
  out.flush
  (← IO.getStderr).putStr o.err

/-- Answer lines, one after the other. -/
def answer (mode : Mode) (c : Calculator) : List String → IO Calculator
  | [] => pure c
  | text :: texts => do
    let (c, o) := mode.line c text
    write o
    answer mode c texts

/-- Answer the lines of the input until it ends, after `ask` each time. -/
partial def converse (mode : Mode) (ask : IO Unit) (c : Calculator) : IO Unit := do
  ask
  let text ← (← IO.getStdin).getLine
  if text.isEmpty then return
  converse mode ask (← answer mode c (Text.lines text))

def runOptions (o : Options) : IO Unit := do
  let c := Calculator.ofOptions o
  write o.mode.header
  if o.mode ≠ .rawGrammar then
    let terminal := (← (← IO.getStdin).isTty) && (← (← IO.getStdout).isTty)
    match o.source terminal with
    | .arguments lines => discard (answer o.mode c lines)
    | .input => converse o.mode (pure ()) c
    | .prompt message => converse o.mode (write { out := message }) c

end Rpn.CommandLine

open Rpn.CommandLine in
def main (args : List String) : IO UInt32 := do
  match Options.ofArguments args with
  | .ok o =>
    runOptions o
    return 0
  | .error .help =>
    write { out := help }
    return 0
  | .error (.misuse m) =>
    write { err := m.report }
    return 2
