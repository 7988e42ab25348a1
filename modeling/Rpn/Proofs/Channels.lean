import Rpn.CommandLine.Invocation
import Rpn.Proofs.Lexemes

/-! The channels that lines come on.

Lines are given as arguments, they stand in the input, or a user types them. In the input
each of them has an end, which is one of three and always reads as a line feed. A line
feed is a blank, so a line has the tokens that it has without its end, and is executed
and listed alike (`Mode.line_lineFeed`). Characters that end lines elsewhere are blanks as
well, but they end no lines on any channel. So it does not matter on which channel lines
come: runs end in the same calculator and write the same (`input_channels_agree`). -/
namespace Rpn.CommandLine

/-! ### The ends of lines -/

namespace Mode

theorem line_congr (mode : Mode) (c : Calculator) {t u : String}
    (h : (Lexeme.ofLine t).filter Lexeme.isToken = (Lexeme.ofLine u).filter Lexeme.isToken) :
    mode.line c t = mode.line c u := by
  have htokens : Lexeme.tokens t = Lexeme.tokens u := congrArg (List.map Lexeme.text) h
  cases mode with
  | execute => simp only [line, Calculator.execute, htokens]
  | dump => simp only [line, Calculator.dump, h]
  | rawGrammar => rfl

/-- A line feed at the end of a line makes no difference. -/
theorem line_lineFeed (mode : Mode) (c : Calculator) (t : String) :
    mode.line c (t ++ "\n") = mode.line c t := by
  have hblank : ∀ c ∈ "\n".toList, Text.isBlank c = true := List.all_eq_true.mp rfl
  have hfilter := Lexeme.filter_ofLine_append_blank (by decide) hblank t ""
  have hempty : Lexeme.ofLine "" = [] := by decide +kernel
  rw [String.append_empty, hempty, List.filter_nil, List.append_nil] at hfilter
  exact mode.line_congr c hfilter

theorem lines_lineFeed (mode : Mode) (c : Calculator) (ls : List String) :
    mode.lines c (ls.map (· ++ "\n")) = mode.lines c ls := by
  induction ls generalizing c with
  | nil => rfl
  | cons l ls ih => simp only [List.map_cons, lines, line_lineFeed, ih]

/-- A user who types lines and then no more gets what the lines give. -/
theorem converse_lines (mode : Mode) (c : Calculator) (ls : List String) :
    let talk := mode.converse c (ls.map .line)
    (talk.calculator, talk.output) = mode.lines c ls ∧ talk.interrupted = false := by
  induction ls generalizing c with
  | nil => exact ⟨rfl, rfl⟩
  | cons l ls ih =>
    obtain ⟨htalk, hend⟩ := ih (mode.line c l).1
    refine ⟨?_, hend⟩
    simp only [lines, ← htalk]
    rfl

end Mode

/-! ### Runs -/

/-- Are input and output both a terminal? -/
def Environment.atTerminal (env : Environment) : Bool := env.inputIsTerminal && env.outputIsTerminal

/-- The calculator that a run ends with. -/
def Options.finish (o : Options) (env : Environment) : Calculator :=
  let c := Calculator.ofOptions o
  match o.source env.atTerminal with
  | .arguments lines => (o.mode.lines c lines).1
  | .input => (o.mode.lines c (Text.lines env.input)).1
  | .prompt _ => (o.mode.converse c env.entries).calculator

/-- Lines come to a run: as arguments, or in the input where all have the same end, or from
a user who types them and then no more. -/
inductive Arrive (ls : List String) (o : Options) (env : Environment) : Prop
  | arguments (given : o.expressions = some ls)
  | input (read : o.source env.atTerminal = .input) (e : String) (ends : e ∈ Text.lineEnds)
      (text : env.input = String.join (ls.map (· ++ e)))
  | typed (message : String) (asked : o.source env.atTerminal = .prompt message)
      (entries : env.entries = ls.map .line)

section Runs
variable {ls : List String} {o : Options} {env : Environment}

theorem Options.source_of_expressions (given : o.expressions = some ls) (atTerminal : Bool) :
    o.source atTerminal = .arguments ls := by
  simp only [Options.source, given]

/-- The calculator is the one that the lines leave, and in all modes that read lines the
output is what they write after the header. -/
theorem Arrive.run_eq (h : Arrive ls o env) (hls : ∀ l ∈ ls, Text.IsLine l) :
    o.finish env = (o.mode.lines (Calculator.ofOptions o) ls).1 ∧
    (o.run env).output =
      (if o.mode = .rawGrammar then o.mode.header
        else o.mode.header ++ (o.mode.lines (Calculator.ofOptions o) ls).2) ∧
    (o.run env).exitCode = 0 := by
  unfold Options.finish Options.run
  rw [← Environment.atTerminal]
  -- the channels differ in how lines are read, and that is all that the cases settle
  cases h with
  | arguments given =>
    rw [Options.source_of_expressions given]
    exact ⟨rfl, by split <;> rfl, by split <;> rfl⟩
  | input read e ends text =>
    have htext : o.mode.lines (Calculator.ofOptions o) (Text.lines env.input) =
        o.mode.lines (Calculator.ofOptions o) ls := by
      rw [text, Text.lines_join hls ends, Mode.lines_lineFeed]
    rw [read, ← htext]
    exact ⟨rfl, by split <;> rfl, by split <;> rfl⟩
  | typed message asked entries =>
    obtain ⟨htalk, hend⟩ := o.mode.converse_lines (Calculator.ofOptions o) ls
    rw [asked, entries, ← htalk]
    refine ⟨rfl, by split <;> rfl, ?_⟩
    split
    · rfl
    · simp only [hend, Bool.false_eq_true, if_false]

end Runs

/-- **The channels agree.** Two runs of the same mode, to which the same lines come on
whatever channels, write the same to both outputs and end with the same stack and machine,
and neither of them is interrupted. -/
theorem input_channels_agree {ls : List String} (hls : ∀ l ∈ ls, Text.IsLine l)
    {o o' : Options} {env env' : Environment} (h : Arrive ls o env) (h' : Arrive ls o' env')
    (hmode : o.mode = o'.mode) (hdepth : o.maxDepth = o'.maxDepth)
    (hverbose : o.verbose = o'.verbose) :
    (o.run env).output = (o'.run env').output ∧
    o.finish env = o'.finish env' ∧
    (o.run env).exitCode = 0 ∧ (o'.run env').exitCode = 0 := by
  have hc : Calculator.ofOptions o = Calculator.ofOptions o' := by
    simp only [Calculator.ofOptions, hdepth, hverbose]
  obtain ⟨hfinish, hout, hexit⟩ := h.run_eq hls
  obtain ⟨hfinish', hout', hexit'⟩ := h'.run_eq hls
  refine ⟨?_, ?_, hexit, hexit'⟩
  · rw [hout, hout', hmode, hc]
  · rw [hfinish, hfinish', hmode, hc]

/-- An empty line, a line that fails, and a form feed between two tokens: as arguments, in an
input with two characters at the end of each line, and typed. -/
theorem input_channels_agree_of_form_feed :
    let given : Options := { expressions := some ["1\x0c2", "", "drop drop drop", "swap"] }
    let asking : Options := { prompt := some "? " }
    let input : Environment := { input := "1\x0c2\r\n\r\ndrop drop drop\r\nswap\r\n" }
    let typed : Environment :=
      { entries := [.line "1\x0c2", .line "", .line "drop drop drop", .line "swap"] }
    ((given.run {}).output = (({} : Options).run input).output ∧
      given.finish {} = ({} : Options).finish input) ∧
    (given.run {}).output = (asking.run typed).output ∧
      given.finish {} = asking.finish typed := by
  intro given asking input typed
  have hls : ∀ l ∈ ["1\x0c2", "", "drop drop drop", "swap"], Text.IsLine l := by decide
  have hgiven : Arrive _ given {} := .arguments rfl
  have hinput : Arrive ["1\x0c2", "", "drop drop drop", "swap"] {} input :=
    .input rfl "\r\n" (by decide) (by decide)
  have htyped : Arrive ["1\x0c2", "", "drop drop drop", "swap"] asking typed := .typed "? " rfl rfl
  obtain ⟨hout, hfinish, -⟩ := input_channels_agree hls hgiven hinput rfl rfl rfl
  obtain ⟨hout', hfinish', -⟩ := input_channels_agree hls hgiven htyped rfl rfl rfl
  exact ⟨⟨hout, hfinish⟩, hout', hfinish'⟩

end Rpn.CommandLine
