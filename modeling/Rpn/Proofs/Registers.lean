import Rpn.Machine.Register
import Rpn.Machine.Trace
import Rpn.Proofs.Consistency

/-! State and name of the recorder agree, and the name has a body.

Of a recorder in two fields nothing says by itself that it has a name just where it
records. Each of its methods keeps it so, and then its fields are what a `Recorder` is:
whatever is done to a desk, it does as the bench does that it stands for (`play_desk`).

What a session does to its recorder and its commands is a list of acts (`sessionActs`).
Played on a bench they lead to the machine of the session, over machines that are all
consistent (`sessionActs_steady`), so on a desk the name is that of a command after every
one of them. -/
namespace Rpn

namespace Recorder

/-! ### Two fields for one -/

def state : Recorder → State
  | idle => .idle
  | unnamed => .unnamed
  | recording _ => .recording

/-- The recorder in two fields. -/
def register (r : Recorder) : Register := ⟨r.state, r.name?⟩

/-- The desk that a bench stands for. -/
def Bench.desk (b : Bench) : Desk :=
  ⟨b.machine.commands, b.machine.recorder.register, b.saved.register⟩

section Desks
variable (k : Markers) (b : Bench)

theorem abandon_desk :
    b.desk.abandon = Bench.desk { b with machine := b.machine.abandon } := by
  obtain ⟨⟨cs, r⟩, saved⟩ := b
  cases r <;> rfl

theorem feed_desk (t : String) :
    b.desk.feed k t =
      (Bench.desk { b with machine := (b.machine.offer k t).1 }, (b.machine.offer k t).2) := by
  unfold Desk.feed Machine.offer
  by_cases hstart : t = k.start
  · simp only [hstart, if_true, abandon_desk]
  · rw [if_neg hstart, if_neg hstart]
    obtain ⟨⟨cs, r⟩, saved⟩ := b
    cases r with
    | idle => rfl
    | unnamed =>
      by_cases hstop : t = k.stop <;>
        simp [hstop, Bench.desk, register, state, name?, Desk.abandon, Machine.abandon,
          Desk.reset, Machine.reset]
    | recording name =>
      cases hbody : cs[name]? with
      | none => simp [hbody, Bench.desk, register, state, name?]
      | some body =>
        by_cases hstop : t = k.stop <;>
          simp [hstop, hbody, Bench.desk, register, state, name?, Desk.reset, Machine.reset]

/-- An act does the same to a desk and to its bench. -/
theorem act_desk (a : Act) : b.desk.act k a = ((b.act k a).1.desk, (b.act k a).2) := by
  cases a with
  | feed t => exact feed_desk k b t
  | abandon => exact congrArg (·, none) (abandon_desk b)
  | _ => rfl

/-- Whatever is done, the two recorders are the same at the end. -/
theorem play_desk (acts : List Act) : b.desk.play k acts = (b.play k acts).desk := by
  induction acts generalizing b with
  | nil => rfl
  | cons a acts ih =>
    rw [Desk.play, Bench.play, act_desk]
    exact ih (b.act k a).1

end Desks

/-! ### Acts one after the other -/

section Acts
variable {k : Markers} {b : Bench}

theorem play_append (acts acts' : List Act) :
    b.play k (acts ++ acts') = (b.play k acts).play k acts' := by
  induction acts generalizing b with
  | nil => rfl
  | cons a acts ih => exact ih

/-- The machine is consistent before, between and after the acts, and none of them asks for a
body that is not there. -/
def Steady (k : Markers) : Bench → List Act → Prop
  | b, [] => b.machine.Consistent
  | b, a :: acts =>
    b.machine.Consistent ∧ (∀ name, (b.act k a).2 ≠ some (.noCommand name)) ∧
      Steady k (b.act k a).1 acts

theorem Steady.start {acts : List Act} (h : Steady k b acts) : b.machine.Consistent := by
  cases acts with
  | nil => exact h
  | cons a acts => exact h.1

theorem steady_append (acts acts' : List Act) :
    Steady k b (acts ++ acts') ↔ Steady k b acts ∧ Steady k (b.play k acts) acts' := by
  induction acts generalizing b with
  | nil => exact ⟨fun h => ⟨h.start, h⟩, And.right⟩
  | cons a acts ih =>
    simp only [List.cons_append, Steady, ih]
    rw [and_assoc, and_assoc]
    rfl

theorem Steady.of_append {acts acts' : List Act} (h : Steady k b (acts ++ acts')) :
    Steady k (b.play k acts) acts' :=
  ((steady_append acts acts').mp h).2

theorem Steady.finish {acts : List Act} (h : Steady k b acts) :
    (b.play k acts).machine.Consistent := by
  rw [← List.append_nil acts] at h
  exact h.of_append

/-- On a desk: the recorder has a name just where it records, and that of a command. -/
structure Desk.Agrees (d : Desk) : Prop where
  named : d.register.name.isSome = true ↔ d.register.state = .recording
  stored : ∀ name, d.register.name = some name → name ∈ d.commands

theorem agrees_desk (h : b.machine.Consistent) : b.desk.Agrees := by
  obtain ⟨⟨cs, r⟩, saved⟩ := b
  cases r with
  | recording name =>
    refine ⟨by simp [Bench.desk, register, state, name?], fun name' hname => ?_⟩
    obtain rfl := Option.some.inj hname
    exact h name rfl
  | _ => exact ⟨by simp [Bench.desk, register, state, name?], nofun⟩

/-- After any part of steady acts the two fields of a recorder agree. -/
theorem Steady.agrees {acts part : List Act} (h : Steady k b acts) (hpart : part <+: acts) :
    (b.desk.play k part).Agrees := by
  obtain ⟨rest, rfl⟩ := hpart
  rw [play_desk]
  exact agrees_desk h.of_append.start

/-- Nor does any of them ask for a body that is missing. -/
theorem Steady.finds {acts part : List Act} {a : Act} (h : Steady k b acts)
    (hpart : part ++ [a] <+: acts) (name : Option String) :
    ((b.desk.play k part).act k a).2 ≠ some (.noCommand name) := by
  obtain ⟨rest, rfl⟩ := hpart
  rw [List.append_assoc] at h
  rw [play_desk, act_desk]
  exact h.of_append.2.1 name

end Acts

end Recorder

namespace Machine
open Recorder

/-! ### The acts of a run -/

/-- On a bench with the machine, the acts are steady and leave alone what was saved. If the
run that they belong to gives a state, they lead to its machine. -/
structure Logged (k : Markers) (m : Machine) (acts : List Act) (r : Except Failure State) :
    Prop where
  steady : ∀ saved, Steady k ⟨m, saved⟩ acts
  saved : ∀ saved, (Bench.play k ⟨m, saved⟩ acts).saved = saved
  machine : ∀ saved st, r = .ok st → (Bench.play k ⟨m, saved⟩ acts).machine = st.1

namespace Logged
variable {k : Markers} {m : Machine} {acts : List Act} {r : Except Failure State}

/-- A step that keeps the machine does nothing to it. -/
theorem kept (hm : m.Consistent) (s : Stack) : Logged k m [] (.ok (m, s)) := by
  refine ⟨fun _ => hm, fun _ => rfl, fun _ st hst => ?_⟩
  rw [← Except.ok.inj hst]
  rfl

theorem refused (hm : m.Consistent) (e : Failure) : Logged k m [] (.error e) :=
  ⟨fun _ => hm, fun _ => rfl, nofun⟩

theorem play_eq (h : Logged k m acts r) {st : State} (hr : r = .ok st) (saved : Recorder) :
    Bench.play k ⟨m, saved⟩ acts = ⟨st.1, saved⟩ := by
  have hmachine := h.machine saved st hr
  have hsaved := h.saved saved
  cases hb : Bench.play k ⟨m, saved⟩ acts with
  | mk m' saved' =>
    simp only [hb] at hmachine hsaved
    rw [hmachine, hsaved]

theorem consistent (h : Logged k m acts r) {st : State} (hr : r = .ok st) : st.1.Consistent := by
  have hfinish := (h.steady .idle).finish
  rwa [h.play_eq hr] at hfinish

/-- A log goes on where an attempt succeeded. -/
theorem bind (h : Logged k m acts r) {log : State → List Act} {f : State → Except Failure State}
    (hf : ∀ st, r = .ok st → Logged k st.1 (log st) (f st)) :
    Logged k m (acts ++ logAfter r log) (r.bind f) := by
  cases r with
  | error e =>
    rw [logAfter, List.append_nil]
    exact ⟨h.steady, h.saved, nofun⟩
  | ok st =>
    have hnext := hf st rfl
    refine ⟨fun saved => ?_, fun saved => ?_, fun saved st' hst' => ?_⟩
    · rw [steady_append, h.play_eq rfl]
      exact ⟨h.steady saved, hnext.steady saved⟩
    · rw [play_append, h.play_eq rfl]
      exact hnext.saved saved
    · rw [play_append, h.play_eq rfl]
      exact hnext.machine saved st' hst'

/-- A single act, also in a step that then fails. -/
theorem single (hm : m.Consistent) {a : Act} {m' : Machine} (hm' : m'.Consistent)
    (hnext : ∀ saved, (Bench.act k ⟨m, saved⟩ a).1 = ⟨m', saved⟩)
    (hfault : ∀ saved name, (Bench.act k ⟨m, saved⟩ a).2 ≠ some (.noCommand name))
    (hr : ∀ st, r = .ok st → m' = st.1) : Logged k m [a] r := by
  have hplay : ∀ saved, Bench.play k ⟨m, saved⟩ [a] = ⟨m', saved⟩ := hnext
  refine ⟨fun saved => ⟨hm, hfault saved, ?_⟩, fun saved => ?_, fun saved st hst => ?_⟩
  · rw [hnext]
    exact hm'
  · rw [hplay]
  · rw [hplay]
    exact hr st hst

theorem single_ok (hm : m.Consistent) {a : Act} {m' : Machine} (hm' : m'.Consistent)
    (hact : ∀ saved, Bench.act k ⟨m, saved⟩ a = (⟨m', saved⟩, none)) (s : Stack) :
    Logged k m [a] (.ok (m', s)) := by
  refine single hm hm' (fun saved => ?_) (fun saved => ?_) (fun st hst => ?_)
  · rw [hact]
  · rw [hact]
    exact nofun
  · rw [← Except.ok.inj hst]

end Logged

/-! ### One token -/

theorem storeOperands_append (s : Stack) (value name : String) :
    storeOperands (s ++ [value, name]) = [(value, name)] := by
  have hsplit : s ++ [value, name] = s ++ [value] ++ [name] := by simp
  simp only [storeOperands, hsplit, popToken_concat, bind, Except.bind]
  rfl

/-- Where `store` finds too few tokens there are no operands. -/
theorem storeOperands_eq_nil {s : Stack} {f : Fault} (h : ∀ m : Machine, m.store s = .error f) :
    storeOperands s = [] := by
  have hfails := h {}
  unfold storeOperands
  simp only [store, bind, Except.bind] at hfails ⊢
  cases hname : s.popToken with
  | error e => rfl
  | ok p =>
    simp only [hname] at hfails ⊢
    cases hvalue : p.1.popToken with
    | error e => rfl
    | ok q =>
      simp only [hvalue] at hfails
      cases hfails

/-- The log of whatever evaluates bodies. -/
def LoggedBy (k : Markers) (eval : Evaluator) (log : State → List String → List Act) : Prop :=
  ∀ m s ts, m.Consistent → Logged k m (log (m, s) ts) (eval (m, s) ts)

section Nested
variable {cfg : Config} {nested : Evaluator} {log : State → List String → List Act} {m : Machine}

theorem enter_logged (h : LoggedBy cfg.markers nested log) (depth : Nat) (hm : m.Consistent)
    (here : Fault → Failure) (s : Stack) (body : List String) :
    Logged cfg.markers m (enterLog cfg depth log (m, s) body)
      (enter cfg depth nested here (m, s) body) := by
  unfold enterLog enter
  split
  · exact .refused hm _
  · exact h m s body hm

theorem mapTokens_logged {k : Markers} {f : State → Except Failure State}
    {log : State → List Act} (h : ∀ m t, m.Consistent → Logged k m (log (m, [t])) (f (m, [t])))
    (hm : m.Consistent) (done : Stack) (ts : List String) :
    Logged k m (mapLog f log m ts) (mapTokens f m done ts) := by
  induction ts generalizing m done with
  | nil => exact .kept hm done.reverse
  | cons t ts ih =>
    have ht := h m t hm
    rw [mapTokens_cons]
    exact ht.bind fun st hst => ih (ht.consistent hst) _

theorem feed_logged (hm : m.Consistent) (ha : m.recorder.isArmed = true) (s : Stack) (t : String)
    (here : Fault → Failure) :
    Logged cfg.markers m [.feed t] (((m.feed cfg.markers t).mapError here).map (·, s)) := by
  refine .single hm (hm.offer cfg.markers t) (fun _ => rfl) (fun saved name hfault => ?_) ?_
  · rcases hm.offer_fault ha hfault with h | h <;> cases h
  · intro st hst
    unfold feed at hst
    cases ho : m.offer cfg.markers t with
    | mk m' fault =>
      rw [ho] at hst
      cases fault with
      | none => cases hst; rfl
      | some f => cases hst

theorem step_logged (depth : Nat) (h : LoggedBy cfg.markers nested log) (hm : m.Consistent)
    (s : Stack) (t : String) :
    Logged cfg.markers m (stepLog tokenActs cfg depth nested log (m, s) t)
      (step cfg depth nested (m, s) t) := by
  cases ha : m.recorder.isArmed with
  | true =>
    rw [step_armed cfg depth nested ha]
    simp only [stepLog, tokenActs, ha, if_true, List.append_nil]
    exact feed_logged hm ha s t _
  | false =>
    rw [step_idle cfg depth nested ha]
    simp only [stepLog, tokenActs, ha, Bool.false_eq_true, if_false]
    cases hmeaning : m.lookup t with
    | special f =>
      cases f with
      | define => exact .single_ok hm (consistent_arm m) (fun _ => rfl) s
      | store =>
        rcases store_cases s with ⟨rest, value, name, rfl⟩ | herror
        · simp only [perform, store_append, storeOperands_append, List.append_nil, List.map]
          exact .single_ok hm (hm.insert name [value]) (fun _ => rfl) rest
        · simp only [perform, herror, storeOperands_eq_nil herror, List.append_nil, List.map]
          exact .refused hm _
      | map =>
        simp only [perform, List.nil_append]
        cases m.commands[cfg.lambda]? with
        | none => exact .refused hm _
        | some body =>
          exact mapTokens_logged (fun m' u hm' => enter_logged h depth hm' _ [u] body) hm [] s
    | builtin b =>
      simp only [perform, List.nil_append]
      cases b.apply s with
      | ok s' => exact .kept hm s'
      | error f => exact .refused hm _
    | user body =>
      simp only [perform, List.nil_append]
      exact enter_logged h depth hm _ s body
    | literal => exact .kept hm _

end Nested

/-! ### Runs -/

/-- What is logged for the tokens one by one is logged for all of them. -/
theorem steps_logged {k : Markers} {f : State → String → Except Failure State}
    {log : State → String → List Act}
    (h : ∀ m s t, m.Consistent → Logged k m (log (m, s) t) (f (m, s) t)) {m : Machine}
    (hm : m.Consistent) (s : Stack) (ts : List String) :
    Logged k m (stepsLog f log (m, s) ts) (steps f (m, s) ts) := by
  induction ts generalizing m s with
  | nil => exact .kept hm s
  | cons t ts ih =>
    have ht := h m s t hm
    rw [steps_cons]
    exact ht.bind fun st hst => ih (ht.consistent hst) st.2

theorem run_logged (cfg : Config) (levels depth : Nat) :
    LoggedBy cfg.markers (run cfg levels depth) (runLog tokenActs cfg levels depth) := by
  induction levels generalizing depth with
  | zero =>
    intro m s ts hm
    refine steps_logged (fun m s t hm => step_logged depth ?_ hm s t) hm s ts
    exact fun _ _ _ hm => .refused hm _
  | succ levels ih =>
    intro m s ts hm
    exact steps_logged (fun m s t hm => step_logged depth (ih (depth + 1)) hm s t) hm s ts

/-! ### Sessions -/

/-- Rolled back and, if a definition was malformed, without it: the machine after a failure. -/
theorem failureActs_steady {k : Markers} {m : Machine} (hm : m.Consistent) (e : Failure)
    {b : Bench} (hb : b.machine.Consistent) (hsaved : b.saved = m.recorder) :
    Steady k b (m.failureActs e) ∧
      (b.play k (m.failureActs e)).machine = m.afterFailure e := by
  obtain ⟨m', saved⟩ := b
  obtain rfl : saved = m.recorder := hsaved
  unfold failureActs afterFailure
  split
  · exact ⟨⟨hb, nofun, hm, nofun, consistent_abandon m⟩, rfl⟩
  · exact ⟨⟨hb, nofun, hm⟩, rfl⟩

theorem evaluateActs_steady (cfg : Config) {m : Machine} (hm : m.Consistent)
    (tokens : List String) (s : Stack) (saved : Recorder) :
    Steady cfg.markers ⟨m, saved⟩ (m.evaluateActs cfg tokens s) ∧
      (Bench.play cfg.markers ⟨m, saved⟩ (m.evaluateActs cfg tokens s)).machine =
        (m.evaluate cfg tokens s).machine := by
  have hrun := run_logged cfg cfg.ceiling 0 m s tokens hm
  have hsteady := hrun.steady m.recorder
  -- what is saved first is the recorder that a failure restores
  suffices hrest : Steady cfg.markers ⟨m, m.recorder⟩ (m.evaluateActs cfg tokens s).tail ∧
      (Bench.play cfg.markers ⟨m, m.recorder⟩ (m.evaluateActs cfg tokens s).tail).machine =
        (m.evaluate cfg tokens s).machine from ⟨⟨hm, nofun, hrest.1⟩, hrest.2⟩
  simp only [evaluateActs, List.tail_cons, steady_append, play_append]
  cases hr : run cfg cfg.ceiling 0 (m, s) tokens with
  | ok st =>
    have hevaluate := evaluate_eq_ok_iff.mpr hr
    rw [hevaluate, hrun.play_eq hr]
    exact ⟨⟨hsteady, hrun.consistent hr⟩, rfl⟩
  | error e =>
    have hresult := evaluate_error_iff.mpr hr
    obtain ⟨hundone, hmachine⟩ :=
      failureActs_steady hm e hsteady.finish (hrun.saved m.recorder)
    rw [hresult, evaluate_machine_of_error hresult]
    exact ⟨⟨hsteady, hundone⟩, hmachine⟩

/-- The acts of a session. -/
def sessionActs (cfg : Config) (m : Machine) : List Call → List Act
  | [] => []
  | call :: calls =>
    m.evaluateActs cfg call.tokens call.stack ++
      sessionActs cfg (m.evaluate cfg call.tokens call.stack).machine calls

/-- The acts of a session lead to its machine, over consistent machines only. -/
theorem sessionActs_steady (cfg : Config) {m : Machine} (hm : m.Consistent) (calls : List Call)
    (saved : Recorder) :
    Steady cfg.markers ⟨m, saved⟩ (sessionActs cfg m calls) ∧
      (Bench.play cfg.markers ⟨m, saved⟩ (sessionActs cfg m calls)).machine =
        session cfg m calls := by
  induction calls generalizing m saved with
  | nil => exact ⟨hm, rfl⟩
  | cons call calls ih =>
    obtain ⟨hsteady, hmachine⟩ := evaluateActs_steady cfg hm call.tokens call.stack saved
    have hnext := evaluate_consistent hm cfg call.tokens call.stack
    simp only [sessionActs, session, steady_append, play_append]
    cases hb : Bench.play cfg.markers ⟨m, saved⟩ (m.evaluateActs cfg call.tokens call.stack) with
    | mk m' saved' =>
      rw [hb] at hmachine
      obtain rfl : m' = (m.evaluate cfg call.tokens call.stack).machine := hmachine
      obtain ⟨hrest, hend⟩ := ih hnext saved'
      exact ⟨⟨hsteady, hrest⟩, hend⟩

theorem session_append (cfg : Config) (m : Machine) (calls calls' : List Call) :
    session cfg m (calls ++ calls') = session cfg (session cfg m calls) calls' := by
  induction calls generalizing m with
  | nil => rfl
  | cons call calls ih => exact ih _

/-- **Machines stay consistent, and every failure is the user's.** Whatever the markers,
the name of the anonymous function and the limit are, in any session of a fresh machine:

* in every machine that occurs in an evaluation, and in the one it leaves, a name under
  recording has a body;
* a recorder in two fields has a name just while it records a body, and the name is that of
  a command, after any part of what the session does to it; it never looks for a body in
  vain, and in the end it is the recorder of the machine, on the commands of the machine;
* an evaluation that gives no stack fails in a way that tokens and operands can cause,
  never for a command that is missing, and with short integers in its wording, if it is
  not `gcd` with NaN that never ends;
* apart from that an operator fails for its operands only, and every integer that it writes
  has at most 309 digits, or was checked to have no more than can be written. -/
theorem session_consistent (cfg : Config) (calls : List Call) (tokens : List String) (s : Stack) :
    let m := session cfg {} calls
    let o := m.evaluate cfg tokens s
    let acts := sessionActs cfg {} (calls ++ [⟨tokens, s⟩])
    let desk := Desk.play cfg.markers {}
    (∀ m', Occurs cfg cfg.ceiling 0 (m, s) tokens m' ∨ m' = o.machine →
      ∀ name, m'.recorder = .recording name → name ∈ m'.commands) ∧
    (∀ part, part <+: acts → (desk part).Agrees) ∧
    (∀ part a, part ++ [a] <+: acts → ∀ name,
      ((desk part).act cfg.markers a).2 ≠ some (.noCommand name)) ∧
    (desk acts).commands = o.machine.commands ∧
    (desk acts).register = o.machine.recorder.register ∧
    (∀ e, o.result = .error e → e.kind ≠ .missingCommand ∧ (e.IsEndless ∨ e.IsUsers cfg)) ∧
    (∀ entry ∈ Builtin.catalogue, ∀ s, Stack.WorksOn entry.2.Writes entry.2.apply s ∨
      entry.1 = "gcd" ∧ ∃ f, entry.2.apply s = .error f ∧ f.IsEndless) ∧
    309 < maxDecimalDigits := by
  intro m o acts desk
  have hfresh : Machine.Consistent {} := consistent_of_idle rfl
  have hm : m.Consistent := session_keeps_consistent hfresh cfg calls
  obtain ⟨hsteady, hmachine⟩ := sessionActs_steady cfg hfresh (calls ++ [⟨tokens, s⟩]) .idle
  rw [session_append] at hmachine
  have hplay : desk acts = (Bench.play cfg.markers ⟨{}, .idle⟩ acts).desk :=
    play_desk cfg.markers ⟨{}, .idle⟩ acts
  refine ⟨fun m' hm' name => ?_, fun part hpart => hsteady.agrees hpart,
    fun part a hpart => hsteady.finds hpart, ?_, ?_, fun e he => ?_, Builtin.catalogue_writes, ?_⟩
  · rcases hm' with hoccurs | rfl
    · exact hoccurs.consistent hm name
    · exact evaluate_consistent hm cfg tokens s name
  · rw [hplay]
    exact congrArg Machine.commands hmachine
  · rw [hplay]
    exact congrArg (·.recorder.register) hmachine
  · have hexpected := (evaluate_ends (run_sound cfg cfg.ceiling 0 m s tokens hm)).2 e he
    exact ⟨hexpected.kind_ne, hexpected⟩
  · unfold maxDecimalDigits
    decide

/-- With another start marker the usual one is an ordinary token for the recorder. A `map`
of it starts a definition on the first token, names it on the second and records into it
on the third. -/
theorem session_consistent_in_map :
    let cfg : Config := { markers := { start := "[" } }
    let m := session cfg {} [⟨["_", "store"], ["("]⟩]
    let o := m.evaluate cfg ["map"] ["1", "2", "3"]
    o.machine.recorder = .recording "(" ∧ "(" ∈ o.machine.commands := by
  intro cfg m o
  have hrecorder : o.machine.recorder = .recording "(" := by decide +kernel
  have h := session_consistent cfg [⟨["_", "store"], ["("]⟩] ["map"] ["1", "2", "3"]
  exact ⟨hrecorder, h.1 o.machine (.inr rfl) "(" hrecorder⟩

end Machine

end Rpn
