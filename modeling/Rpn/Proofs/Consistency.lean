import Rpn.Proofs.Runs
import Rpn.Proofs.Operators

/-! Machines stay consistent, and every failure is the user's.

While a definition is recorded, its name has to have a body to record into. The recorder
knows only the name; the bodies are in the store, which `store`, redefinitions and the
roll-back after a failure change too. That the two agree (`Consistent`) is kept by
whatever a machine does, so recording never asks for a body that is not there.

So it is in every machine that occurs in a session, those in the middle of a command or of
a `map` included (`Occurs`). What follows for failures is that they are of the kinds that
a user's tokens and operands can cause, and what they write out is short (`run_sound`). A
`gcd` that never ends is apart from these: there is no failure to see. -/
namespace Rpn

/-! ### The users' failures -/

/-- Can a user's tokens and operands cause failures of the kind? -/
def Kind.isUsers : Kind → Bool
  | .general | .missingCommand => false
  | _ => true

/-- A failure that tokens and operands can cause, with wording that is short except for
the limit on nesting, which is the machine's own. -/
structure Failure.IsUsers (cfg : Config) (e : Failure) : Prop where
  kind : e.kind.isUsers = true
  wording : ∀ f t n, e = .located f t n → f.IsShort ∨ f = .nestedDeeper cfg.maxDepth

theorem Failure.isUsers_located {cfg : Config} {f : Fault} (hkind : f.kind.isUsers = true)
    (hshort : f.IsShort ∨ f = .nestedDeeper cfg.maxDepth) (t : String) (n : Nat) :
    (Failure.located f t n).IsUsers cfg := by
  refine ⟨hkind, fun f' t' n' h => ?_⟩
  cases h
  exact hshort

theorem Fault.OfOperands.isUsers {cfg : Config} {f : Fault} (h : f.OfOperands) (t : String)
    (n : Nat) : (Failure.located f t n).IsUsers cfg := by
  refine Failure.isUsers_located ?_ (.inl h.isShort) t n
  have hkind := h.isOperand
  unfold Fault.isOperand at hkind
  cases hk : f.kind <;> simp_all [Kind.isUsers]

theorem Failure.isUsers_exhausted (cfg : Config) : Failure.exhausted.IsUsers cfg :=
  ⟨rfl, nofun⟩

/-- No failure to see, but a `gcd` that never ends, NaN being one of its operands. -/
def Failure.IsEndless (e : Failure) : Prop := ∃ f n, e = .located f "gcd" n ∧ f.IsEndless

/-- How evaluation fails to give a stack. -/
def Failure.IsExpected (cfg : Config) (e : Failure) : Prop := e.IsEndless ∨ e.IsUsers cfg

theorem Failure.IsExpected.kind_ne {cfg : Config} {e : Failure} (h : e.IsExpected cfg) :
    e.kind ≠ .missingCommand := by
  intro hkind
  rcases h with ⟨f, n, rfl, xs, rfl, -⟩ | husers
  · cases hkind
  · have hcause := husers.kind
    rw [hkind] at hcause
    cases hcause

namespace Machine

/-! ### Consistent machines -/

/-- A name under recording is that of a stored command. -/
def Consistent (m : Machine) : Prop := ∀ name, m.recorder = .recording name → name ∈ m.commands

theorem consistent_of_idle {m : Machine} (h : m.recorder = .idle) : m.Consistent := by
  intro name hr
  rw [h] at hr
  cases hr

theorem consistent_arm (m : Machine) : m.arm.Consistent := fun _ hr => nomatch hr

theorem consistent_abandon (m : Machine) : m.abandon.Consistent := by
  apply consistent_of_idle
  unfold abandon
  split <;> rfl

namespace Consistent
variable {m : Machine}

/-- The body under recording. -/
theorem body (h : m.Consistent) {name : String} (hr : m.recorder = .recording name) :
    ∃ body, m.commands[name]? = some body :=
  Option.isSome_iff_exists.mp (Std.ExtTreeMap.isSome_getElem?_iff_mem.mpr (h name hr))

/-- Commands may be added and replaced. -/
theorem insert (h : m.Consistent) (name : String) (body : List String) :
    Consistent { m with commands := m.commands.insert name body } := by
  intro name' hr
  exact Std.ExtTreeMap.mem_insert.mpr (.inr (h name' hr))

theorem afterFailure (h : m.Consistent) (e : Failure) : (m.afterFailure e).Consistent := by
  unfold Machine.afterFailure
  split
  · exact consistent_abandon m
  · exact h

/-- Recording a token keeps a machine consistent, also if the definition is given up. -/
theorem offer (h : m.Consistent) (k : Markers) (t : String) : (m.offer k t).1.Consistent := by
  unfold Machine.offer
  split
  · exact consistent_abandon m
  · split
    · exact h
    · split
      · exact consistent_abandon m
      · intro name hr
        obtain rfl := Recorder.recording.inj hr
        exact Std.ExtTreeMap.mem_insert_self
    · split
      · exact h
      · split
        · exact consistent_of_idle rfl
        · exact h.insert _ _

/-- Where a body is recorded into, there is one. -/
theorem offer_fault (h : m.Consistent) (ha : m.recorder.isArmed = true) {k : Markers} {t : String}
    {f : Fault} (hf : (m.offer k t).2 = some f) :
    f = .nestedDefinition ∨ f = .unnamedDefinition := by
  unfold Machine.offer at hf
  split at hf
  · exact .inl (Option.some.inj hf).symm
  · cases hr : m.recorder with
    | idle =>
      rw [hr] at ha
      cases ha
    | unnamed =>
      simp only [hr] at hf
      split at hf
      · exact .inr (Option.some.inj hf).symm
      · cases hf
    | recording name =>
      -- the fault for a missing body is the one that consistency excludes
      obtain ⟨body, hb⟩ := h.body hr
      simp only [hr, hb] at hf
      split at hf <;> cases hf

end Consistent

/-! ### Steps and runs -/

/-- Evaluation that keeps machines consistent and fails only for the user's sake. -/
def Sound (cfg : Config) (eval : Evaluator) : Prop :=
  ∀ m s ts, m.Consistent → Ends (·.1.Consistent) (Failure.IsExpected cfg) (eval (m, s) ts)

section Nested
variable {cfg : Config} {nested : Evaluator} {m : Machine}

theorem Sound.enter (h : Sound cfg nested) (depth : Nat) (hm : m.Consistent) (t : String)
    (n : Nat) (s : Stack) (body : List String) :
    Ends (·.1.Consistent) (Failure.IsExpected cfg)
      (enter cfg depth nested (.located · t n) (m, s) body) := by
  unfold Machine.enter
  split
  · exact .inr (Failure.isUsers_located rfl (.inr rfl) t n)
  · exact h m s body hm

theorem Sound.map (h : Sound cfg nested) (depth : Nat) (hm : m.Consistent) (t : String) (n : Nat)
    (body : List String) (ts : List String) :
    Ends (·.1.Consistent) (Failure.IsExpected cfg)
      (mapTokens (Machine.enter cfg depth nested (.located · t n) · body) m [] ts) := by
  refine (mapTokens_ends (M := Consistent) (P := fun _ => True) ?_ ts m [] hm nofun
    fun _ _ => trivial).mono (fun st hst => hst.1) (fun e he => he)
  intro m' u hm' _
  exact (h.enter depth hm' t n [u] body).mono (fun st hst => ⟨hst, fun _ _ => trivial⟩)
    (fun e he => he)

end Nested

theorem feed_sound {m : Machine} (hm : m.Consistent) (ha : m.recorder.isArmed = true)
    (cfg : Config) (s : Stack) (t : String) :
    Ends (·.1.Consistent) (Failure.IsExpected cfg)
      (((m.feed cfg.markers t).mapError (.located · t s.length)).map (·, s)) := by
  have hoffer := hm.offer cfg.markers t
  have hfault := @Consistent.offer_fault m hm ha cfg.markers t
  unfold feed
  generalize m.offer cfg.markers t = o at hoffer hfault
  obtain ⟨m', fault⟩ := o
  cases fault with
  | none => exact hoffer
  | some f =>
    rcases hfault rfl with rfl | rfl
    · exact .inr (Failure.isUsers_located (f := .nestedDefinition) rfl (.inl trivial) t _)
    · exact .inr (Failure.isUsers_located (f := .unnamedDefinition) rfl (.inl trivial) t _)

theorem step_sound {cfg : Config} (depth : Nat) {nested : Evaluator} (h : Sound cfg nested)
    {m : Machine} (hm : m.Consistent) (s : Stack) (t : String) :
    Ends (·.1.Consistent) (Failure.IsExpected cfg) (step cfg depth nested (m, s) t) := by
  cases ha : m.recorder.isArmed with
  | true =>
    rw [step_armed cfg depth nested ha]
    exact feed_sound hm ha cfg s t
  | false =>
    rw [step_idle cfg depth nested ha]
    cases hmeaning : m.lookup t with
    | special f =>
      cases f with
      | define => exact consistent_arm m
      | store =>
        rcases store_cases s with ⟨rest, value, name, rfl⟩ | herror
        · simp only [perform, store_append]
          exact hm.insert name [value]
        · simp only [perform, herror]
          have hoperands : Fault.OfOperands (.underflow 1) :=
            Fault.ofOperands_underflow (Numeral.isShort_of_le_maxRange (by decide))
          exact .inr (hoperands.isUsers t _)
      | map =>
        simp only [perform]
        cases m.commands[cfg.lambda]? with
        | none =>
          exact .inr (Failure.isUsers_located (f := .noLambda cfg.lambda) rfl (.inl trivial) t _)
        | some body => exact h.map depth hm t s.length body s
    | builtin b =>
      simp only [perform]
      cases hr : b.apply s with
      | ok s' => exact hm
      | error f =>
        rcases Builtin.fault_of_apply (lookup_builtin hmeaning) hr with hoperands | ⟨rfl, hendless⟩
        · exact .inr (hoperands.isUsers t _)
        · exact .inl ⟨f, s.length, rfl, hendless⟩
    | user body => exact h.enter depth hm t s.length s body
    | literal => exact hm

theorem run_sound (cfg : Config) (levels depth : Nat) : Sound cfg (run cfg levels depth) := by
  apply run_induction
  · exact fun _ _ _ _ => .inr (Failure.isUsers_exhausted cfg)
  · intro depth nested h m s ts hm
    exact steps_ends ts (fun st hst t _ => step_sound depth h hst st.2 t) (m, s) hm

/-! ### Every machine that occurs -/

/-- The machines that occur while tokens are run, at any depth of nesting. -/
inductive Occurs (cfg : Config) : (levels depth : Nat) → State → List String → Machine → Prop
  /-- Before the first token. -/
  | start {levels depth : Nat} {m : Machine} {s : Stack} {ts : List String} :
    Occurs cfg levels depth (m, s) ts m
  /-- From the end of the first token on. -/
  | later {levels depth : Nat} {st st' : State} {t : String} {ts : List String} {m' : Machine}
    (first : run cfg levels depth st [t] = .ok st') (rest : Occurs cfg levels depth st' ts m') :
    Occurs cfg levels depth st (t :: ts) m'
  /-- After a token was recorded or its definition was given up. -/
  | recorded {levels depth : Nat} {m : Machine} {s : Stack} {t : String} {ts : List String}
    (armed : m.recorder.isArmed = true) :
    Occurs cfg levels depth (m, s) (t :: ts) (m.offer cfg.markers t).1
  /-- In the body of a user command. -/
  | called {levels depth : Nat} {m m' : Machine} {s : Stack} {t : String} {ts body : List String}
    (idle : m.recorder.isArmed = false) (user : m.lookup t = .user body)
    (room : depth < cfg.maxDepth) (inside : Occurs cfg levels (depth + 1) (m, s) body m') :
    Occurs cfg (levels + 1) depth (m, s) (t :: ts) m'
  /-- In the anonymous function, on one of the tokens of a `map`. -/
  | mapped {levels depth : Nat} {m between m' : Machine} {done before after : Stack}
    {t u : String} {ts body : List String} (idle : m.recorder.isArmed = false)
    (map : m.lookup t = .special .map) (lambda : m.commands[cfg.lambda]? = some body)
    (room : depth < cfg.maxDepth)
    (first : mapTokens (enter cfg depth (run cfg levels (depth + 1))
      (.located · t (before ++ u :: after).length) · body) m [] before = .ok (between, done))
    (inside : Occurs cfg levels (depth + 1) (between, [u]) body m') :
    Occurs cfg (levels + 1) depth (m, before ++ u :: after) (t :: ts) m'

theorem Occurs.consistent {cfg : Config} {levels depth : Nat} {st : State} {ts : List String}
    {m' : Machine} (h : Occurs cfg levels depth st ts m') (hm : st.1.Consistent) :
    m'.Consistent := by
  induction h with
  | start => exact hm
  | @later levels depth st st' t ts m' first _ ih =>
    have hends := run_sound cfg levels depth st.1 st.2 [t] hm
    rw [first] at hends
    exact ih hends
  | @recorded _ _ m _ t _ _ => exact hm.offer cfg.markers t
  | called _ _ _ _ ih => exact ih hm
  | @mapped levels depth m between m' done before after t u ts body _ _ _ _ first _ ih =>
    have hends := (run_sound cfg levels (depth + 1)).map depth hm t
      (before ++ u :: after).length body before
    rw [first] at hends
    exact ih hends

/-! ### Sessions -/

theorem evaluate_consistent {m : Machine} (hm : m.Consistent) (cfg : Config)
    (tokens : List String) (s : Stack) : (m.evaluate cfg tokens s).machine.Consistent := by
  cases hr : (m.evaluate cfg tokens s).result with
  | ok s' => exact (evaluate_ends (run_sound cfg cfg.ceiling 0 m s tokens hm)).1 s' hr
  | error e =>
    rw [evaluate_machine_of_error hr]
    exact hm.afterFailure e

theorem session_keeps_consistent {m : Machine} (hm : m.Consistent) (cfg : Config)
    (calls : List Call) : (session cfg m calls).Consistent := by
  induction calls generalizing m with
  | nil => exact hm
  | cons call calls ih => exact ih (evaluate_consistent hm cfg call.tokens call.stack)

end Machine

end Rpn
