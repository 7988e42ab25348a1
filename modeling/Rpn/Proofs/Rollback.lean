import Rpn.CommandLine.Calculator
import Rpn.Proofs.Runs

/-! Failed evaluations leave no trace.

`evaluate` takes the machine as a value, so what a failed run has done to it is gone
with the run. A machine that is changed in place has no such luck: when the failure
comes, commands may have been stored and a definition half recorded or given up, at any
depth of nesting and in the middle of a `map`. `InPlace.evaluate` is that machine. Each
step changes it, failing steps included; the commands and the recorder are kept aside
before the run and put back after a failure. It has the outcomes of `evaluate`
(`InPlace.evaluate_eq`).

`failed_evaluations_invisible` says what a failure leaves of the machine, and that a
line that failed can be left out of a list of lines: the other lines answer as before
and the calculator ends as before. -/
namespace Rpn.Machine

/-! ### A machine changed in place -/

/-- The state that an outcome ends in. The machine of a failure is dropped. -/
def Outcome.state (o : Outcome) : Except Failure State := o.result.map (o.machine, ·)

namespace InPlace

def enter (cfg : Config) (depth : Nat) (nested : State → List String → Outcome)
    (here : Fault → Failure) (st : State) (body : List String) : Outcome :=
  if cfg.maxDepth ≤ depth then ⟨st.1, .error (here (.nestedDeeper cfg.maxDepth))⟩
  else nested st body

def mapTokens (f : State → Outcome) (m : Machine) (done : Stack) : List String → Outcome
  | [] => ⟨m, .ok done.reverse⟩
  | t :: ts =>
    match f (m, [t]) with
    | ⟨m', .ok out⟩ => mapTokens f m' (out.reverse ++ done) ts
    | ⟨m', .error e⟩ => ⟨m', .error e⟩

/-- One token. The recorder gives up a malformed definition before it fails. -/
def step (cfg : Config) (depth : Nat) (nested : State → List String → Outcome) (st : State)
    (token : String) : Outcome :=
  let (m, s) := st
  let here (f : Fault) : Failure := .located f token s.length
  if m.recorder.isArmed then
    match m.offer cfg.markers token with
    | (m', none) => ⟨m', .ok s⟩
    | (m', some f) => ⟨m', .error (here f)⟩
  else
    match m.lookup token with
    | .special .define => ⟨m.arm, .ok s⟩
    | .special .store =>
      match m.store s with
      | .ok (m', s') => ⟨m', .ok s'⟩
      | .error f => ⟨m, .error (here f)⟩
    | .special .map =>
      match m.commands[cfg.lambda]? with
      | none => ⟨m, .error (here (.noLambda cfg.lambda))⟩
      | some body => mapTokens (enter cfg depth nested here · body) m [] s
    | .builtin b => ⟨m, (b.apply s).mapError here⟩
    | .user body => enter cfg depth nested here st body
    | .literal => ⟨m, .ok (s ++ [token])⟩

def steps (step : State → String → Outcome) (st : State) : List String → Outcome
  | [] => ⟨st.1, .ok st.2⟩
  | t :: ts =>
    match step st t with
    | ⟨m', .ok s'⟩ => steps step (m', s') ts
    | ⟨m', .error e⟩ => ⟨m', .error e⟩

def run (cfg : Config) : (levels depth : Nat) → State → List String → Outcome
  | 0, depth => steps (step cfg depth fun st _ => ⟨st.1, .error .exhausted⟩)
  | levels + 1, depth => steps (step cfg depth (run cfg levels (depth + 1)))

/-- What evaluates the level under a run's own. -/
def below (cfg : Config) : (levels depth : Nat) → State → List String → Outcome
  | 0, _ => fun st _ => ⟨st.1, .error .exhausted⟩
  | levels + 1, depth => run cfg levels (depth + 1)

theorem run_eq_steps (cfg : Config) (levels depth : Nat) :
    run cfg levels depth = steps (step cfg depth (below cfg levels depth)) := by
  cases levels <;> rfl

/-- Run on the machine itself and put its commands and its recorder back after a failure.
A missing command is no failure of the user's, and is not caught. -/
def evaluate (cfg : Config) (m : Machine) (tokens : List String) (s : Stack) : Outcome :=
  let o := run cfg cfg.ceiling 0 (m, s) tokens
  match o.result with
  | .ok _ => o
  | .error e =>
    if e.kind = .missingCommand then o
    else
      let restored := { o.machine with commands := m.commands, recorder := m.recorder }
      ⟨restored.afterFailure e, .error e⟩

/-! ### In place or not -/

theorem enter_state {nested : State → List String → Outcome} {nested' : Evaluator}
    (hn : ∀ st body, (nested st body).state = nested' st body) (cfg : Config) (depth : Nat)
    (here : Fault → Failure) (st : State) (body : List String) :
    (enter cfg depth nested here st body).state = Machine.enter cfg depth nested' here st body := by
  unfold enter Machine.enter
  by_cases hd : cfg.maxDepth ≤ depth
  · rw [if_pos hd, if_pos hd]
    rfl
  · rw [if_neg hd, if_neg hd]
    exact hn st body

theorem mapTokens_state {f : State → Outcome} {f' : State → Except Failure State}
    (hf : ∀ st, (f st).state = f' st) (ts : List String) (m : Machine) (done : Stack) :
    (mapTokens f m done ts).state = Machine.mapTokens f' m done ts := by
  induction ts generalizing m done with
  | nil => rfl
  | cons t ts ih =>
    rw [mapTokens_cons, ← hf]
    unfold mapTokens
    obtain ⟨m', result⟩ := f (m, [t])
    cases result with
    | ok out => exact ih m' _
    | error e => rfl

theorem step_state {nested : State → List String → Outcome} {nested' : Evaluator}
    (hn : ∀ st body, (nested st body).state = nested' st body) (cfg : Config) (depth : Nat)
    (st : State) (token : String) :
    (step cfg depth nested st token).state = Machine.step cfg depth nested' st token := by
  obtain ⟨m, s⟩ := st
  have hbody := enter_state hn cfg depth (.located · token s.length)
  cases ha : m.recorder.isArmed with
  | true =>
    rw [step_armed _ _ _ ha]
    simp only [step, ha, if_true, feed]
    obtain ⟨m', fault⟩ := m.offer cfg.markers token
    cases fault <;> rfl
  | false =>
    rw [step_idle _ _ _ ha]
    simp only [step, ha, Bool.false_eq_true, if_false]
    cases m.lookup token with
    | special f =>
      cases f with
      | define => rfl
      | store => cases hs : m.store s <;> simp only [perform, hs] <;> rfl
      | map =>
        simp only [perform]
        cases m.commands[cfg.lambda]? with
        | none => rfl
        | some body => exact mapTokens_state (hbody · body) s m []
    | builtin b => rfl
    | user body => exact hbody (m, s) body
    | literal => rfl

theorem steps_state {f : State → String → Outcome} {f' : State → String → Except Failure State}
    (hf : ∀ st t, (f st t).state = f' st t) (st : State) (ts : List String) :
    (steps f st ts).state = Machine.steps f' st ts := by
  induction ts generalizing st with
  | nil => rfl
  | cons t ts ih =>
    rw [steps_cons, ← hf]
    unfold steps
    obtain ⟨m', result⟩ := f st t
    cases result with
    | ok s' => exact ih (m', s')
    | error e => rfl

/-- A run in place ends as the run does. -/
theorem run_state (cfg : Config) (levels depth : Nat) (st : State) (ts : List String) :
    (run cfg levels depth st ts).state = Machine.run cfg levels depth st ts := by
  induction levels generalizing depth st ts with
  | zero => exact steps_state (step_state (fun _ _ => rfl) cfg depth) st ts
  | succ levels ih => exact steps_state (step_state (ih (depth + 1)) cfg depth) st ts

theorem below_state (cfg : Config) (levels depth : Nat) (st : State) (ts : List String) :
    (below cfg levels depth st ts).state = Machine.below cfg levels depth st ts := by
  cases levels with
  | zero => rfl
  | succ levels => exact run_state cfg levels (depth + 1) st ts

/-- Putting back what was kept aside undoes all that a failed run has done. -/
theorem evaluate_eq (cfg : Config) (m : Machine) (tokens : List String) (s : Stack)
    (h : ∀ e, (m.evaluate cfg tokens s).result = .error e → e.kind ≠ .missingCommand) :
    evaluate cfg m tokens s = m.evaluate cfg tokens s := by
  rw [evaluate_eq_settle, ← run_state] at h ⊢
  unfold evaluate
  generalize run cfg cfg.ceiling 0 (m, s) tokens = o at h ⊢
  obtain ⟨m', result⟩ := o
  cases result with
  | ok s' => rfl
  | error e =>
    have he : e.kind ≠ .missingCommand := h e rfl
    simp only [if_neg he]
    rfl

end InPlace

/-! ### What a failure leaves -/

/-- What a failure may leave of a machine: all of it, but without the definition in
progress if the failure is a malformed definition. -/
structure RolledBack (before : Machine) (e : Failure) (after : Machine) : Prop where
  unchanged : e.kind ≠ .malformedDefinition → after = before
  recorder : e.kind = .malformedDefinition → after.recorder = .idle
  commands : e.kind = .malformedDefinition →
    after.commands = (before.recorder.name?.elim before.commands before.commands.erase)

theorem rolledBack_afterFailure (m : Machine) (e : Failure) :
    RolledBack m e (m.afterFailure e) := by
  unfold afterFailure
  by_cases he : e.kind = .malformedDefinition
  · rw [if_pos he]
    refine ⟨fun hne => absurd he hne, fun _ => ?_, fun _ => ?_⟩ <;>
      cases hr : m.recorder <;> simp [abandon, reset, hr, Recorder.name?]
  · rw [if_neg he]
    exact ⟨fun _ => rfl, fun h => absurd h he, fun h => absurd h he⟩

/-- With no definition in progress there is nothing to give up. -/
theorem RolledBack.eq {before after : Machine} {e : Failure} (h : RolledBack before e after)
    (he : e.kind ≠ .malformedDefinition ∨ before.recorder = .idle) : after = before := by
  by_cases hk : e.kind = .malformedDefinition
  · have hidle : before.recorder = .idle := he.resolve_left fun hne => hne hk
    have hc := h.commands hk
    have hr := h.recorder hk
    obtain ⟨commands, recorder⟩ := before
    obtain ⟨commands', recorder'⟩ := after
    simp_all [Recorder.name?]
  · exact h.unchanged hk

theorem evaluate_rolledBack {cfg : Config} {m : Machine} {tokens : List String} {s : Stack}
    {e : Failure} (h : (m.evaluate cfg tokens s).result = .error e) :
    RolledBack m e (m.evaluate cfg tokens s).machine := by
  rw [evaluate_machine_of_error h]
  exact rolledBack_afterFailure m e

end Rpn.Machine

/-! ### Lines that failed -/

namespace Rpn.CommandLine

namespace Mode

/-- What each line writes. -/
def outputs (mode : Mode) (c : Calculator) : List String → List Output
  | [] => []
  | t :: ts => (mode.line c t).2 :: mode.outputs (mode.line c t).1 ts

/-- What the lines write together is what each writes, in order. -/
theorem lines_output (mode : Mode) (c : Calculator) (ts : List String) :
    (mode.lines c ts).2 = (mode.outputs c ts).foldr (· ++ ·) {} := by
  induction ts generalizing c with
  | nil => rfl
  | cons t ts ih => simp only [lines, outputs, List.foldr_cons, ih]

theorem lines_append (mode : Mode) (c : Calculator) (ts us : List String) :
    (mode.lines c (ts ++ us)).1 = (mode.lines (mode.lines c ts).1 us).1 := by
  induction ts generalizing c with
  | nil => rfl
  | cons t ts ih => exact ih _

theorem outputs_append (mode : Mode) (c : Calculator) (ts us : List String) :
    mode.outputs c (ts ++ us) = mode.outputs c ts ++ mode.outputs (mode.lines c ts).1 us := by
  induction ts generalizing c with
  | nil => rfl
  | cons t ts ih => simp only [List.cons_append, outputs, lines, ih]

theorem length_outputs (mode : Mode) (c : Calculator) (ts : List String) :
    (mode.outputs c ts).length = ts.length := by
  induction ts generalizing c with
  | nil => rfl
  | cons t ts ih => simp only [outputs, List.length_cons, ih]

end Mode

namespace Calculator

/-- The failure of a line, if it fails. -/
def failure? (c : Calculator) (line : String) : Option Failure :=
  match (c.machine.evaluate c.cfg (Lexeme.tokens line) c.stack).result with
  | .ok _ => none
  | .error e => some e

theorem execute_failed {c : Calculator} {line : String} {e : Failure}
    (h : c.failure? line = some e)
    (he : e.kind ≠ .malformedDefinition ∨ c.machine.recorder = .idle) :
    (c.execute line).1 = c := by
  unfold failure? at h
  cases hr : (c.machine.evaluate c.cfg (Lexeme.tokens line) c.stack).result with
  | ok s => simp [hr] at h
  | error e' =>
    obtain rfl : e' = e := by simpa [hr] using h
    have hm := (Machine.evaluate_rolledBack hr).eq he
    simp only [execute, hr, hm]

end Calculator

/-- Without a line that changes nothing the calculator ends the same, and the other lines
write the same. -/
theorem lines_without (mode : Mode) (c : Calculator) (before after : List String) (line : String)
    (h : (mode.line (mode.lines c before).1 line).1 = (mode.lines c before).1) :
    (mode.lines c (before ++ after)).1 = (mode.lines c (before ++ line :: after)).1 ∧
      mode.outputs c (before ++ after) =
        (mode.outputs c (before ++ line :: after)).eraseIdx before.length := by
  constructor
  · rw [mode.lines_append, mode.lines_append]
    show _ = (mode.lines (mode.line (mode.lines c before).1 line).1 after).1
    rw [h]
  · rw [mode.outputs_append, mode.outputs_append, Mode.outputs, h,
      List.eraseIdx_append_of_length_le (Nat.le_of_eq (mode.length_outputs c before)),
      mode.length_outputs, Nat.sub_self, List.eraseIdx_cons_zero]

/-- **Failed evaluations are invisible.** After a failure a machine changed in place is
what `evaluate` says, and that is the machine before, up to the definition in progress
if the failure is a malformed definition. So a line that failed, if it did not end a
definition in progress, can be left out: every other line writes the same and the
calculator ends with the same stack and machine. -/
theorem failed_evaluations_invisible :
    (∀ (cfg : Config) (m : Machine) (tokens : List String) (s : Stack) (e : Failure),
      (m.evaluate cfg tokens s).result = .error e → e.kind ≠ .missingCommand →
        Machine.InPlace.evaluate cfg m tokens s = m.evaluate cfg tokens s ∧
          Machine.RolledBack m e (m.evaluate cfg tokens s).machine) ∧
    ∀ c : Calculator,
      (∀ lines, (Mode.execute.lines c lines).2 =
        (Mode.execute.outputs c lines).foldr (· ++ ·) {}) ∧
      ∀ (before after : List String) (line : String) (e : Failure),
        (Mode.execute.lines c before).1.failure? line = some e →
        e.kind ≠ .malformedDefinition ∨
          (Mode.execute.lines c before).1.machine.recorder = .idle →
        (Mode.execute.lines c (before ++ after)).1 =
            (Mode.execute.lines c (before ++ line :: after)).1 ∧
          Mode.execute.outputs c (before ++ after) =
            (Mode.execute.outputs c (before ++ line :: after)).eraseIdx before.length := by
  constructor
  · intro cfg m tokens s e h he
    refine ⟨Machine.InPlace.evaluate_eq cfg m tokens s fun e' h' => ?_,
      Machine.evaluate_rolledBack h⟩
    rw [h] at h'
    exact Except.error.inj h' ▸ he
  · intro c
    refine ⟨Mode.execute.lines_output c, fun before after line e h he => ?_⟩
    exact lines_without .execute c before after line (Calculator.execute_failed h he)

/-- A start marker in the middle of a definition ends it, and a line that stored a value
and ran a command before it failed can be left out. -/
theorem failed_evaluations_invisible_midway :
    Machine.RolledBack (Machine.evaluate {} {} ["(", "f", "1"] []).machine
      (.located .nestedDefinition "(" 0)
      ((Machine.evaluate {} {} ["(", "f", "1"] []).machine.evaluate {} ["2", "("] []).machine ∧
    (Mode.execute.lines {} ["( f 1 )", "2", "f"]).1 =
      (Mode.execute.lines {} ["( f 1 )", "2", "7 g store f drop drop drop", "f"]).1 :=
  ⟨(failed_evaluations_invisible.1 {} _ ["2", "("] [] _ rfl (by decide)).2,
    ((failed_evaluations_invisible.2 {}).2 ["( f 1 )", "2"] ["f"] "7 g store f drop drop drop"
      (.located (.underflow 1) "drop" 0) (by decide +kernel) (.inl (by decide))).1⟩

end Rpn.CommandLine
