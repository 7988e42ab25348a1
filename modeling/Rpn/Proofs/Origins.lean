import Rpn.Proofs.Consistency

/-! Failures name the step that failed.

A failure carries a token and a number of tokens on the stack. On its way out it passes
a frame for every call and every `map` around the step that failed. Each of these has a
token and a stack too, and on a `map` the stacks have one token each, so a failure that
a wrong frame put its name to would look right.

`Reaches` says which tokens a run comes to, those in bodies included, and in what
machine and with what stack. `Point.Refuses` says that a token fails there by itself:
it does so whatever evaluates bodies, so it is no call around a step that failed. What
such a token can be, the fault tells (`Point.IsOriginOf`). Every failure is that of a
token that fails by itself, and has its name and the size of its stack (`run_error`). -/
namespace Rpn.Machine

/-! ### Points of a run -/

/-- A token that is met at a depth, and what it is met in. -/
structure Point where
  depth : Nat
  machine : Machine
  stack : Stack
  token : String

/-- The token of `st` has `body` run from the state that is given last, one level deeper:
as a call, or as a `map` that has come to one of its tokens. -/
inductive Enters (cfg : Config) (depth : Nat) (nested : Evaluator) :
    State → String → State → List String → Prop
  | call {m : Machine} {s : Stack} {t : String} {body : List String}
    (idle : m.recorder.isArmed = false) (user : m.lookup t = .user body)
    (room : depth < cfg.maxDepth) : Enters cfg depth nested (m, s) t (m, s) body
  | map {m between : Machine} {done before after : Stack} {t u : String} {body : List String}
    (idle : m.recorder.isArmed = false) (map : m.lookup t = .special .map)
    (lambda : m.commands[cfg.lambda]? = some body) (room : depth < cfg.maxDepth)
    (first : mapTokens (enter cfg depth nested (.located · t (before ++ u :: after).length) · body)
      m [] before = .ok (between, done)) :
    Enters cfg depth nested (m, before ++ u :: after) t (between, [u]) body

/-- The points that a run comes to, in bodies of any depth too. -/
inductive Reaches (cfg : Config) : (levels depth : Nat) → State → List String → Point → Prop
  | here {levels depth : Nat} {st : State} {m : Machine} {s : Stack} {before after : List String}
    {t : String} (first : run cfg levels depth st before = .ok (m, s)) :
    Reaches cfg levels depth st (before ++ t :: after) ⟨depth, m, s, t⟩
  | inside {levels depth : Nat} {st st' st'' : State} {before after body : List String}
    {t : String} {p : Point} (first : run cfg (levels + 1) depth st before = .ok st')
    (enters : Enters cfg depth (run cfg levels (depth + 1)) st' t st'' body)
    (inner : Reaches cfg levels (depth + 1) st'' body p) :
    Reaches cfg (levels + 1) depth st (before ++ t :: after) p

namespace Point

/-- The failure for a fault at the point. -/
def failure (p : Point) (f : Fault) : Failure := .located f p.token p.stack.length

/-- The token fails by itself, whatever evaluates bodies. -/
def Refuses (cfg : Config) (p : Point) (f : Fault) : Prop :=
  ∀ nested, step cfg p.depth nested (p.machine, p.stack) p.token = .error (p.failure f)

/-- The token can be at fault: for its operands, also if it never ends for them, it is an
operator or `store`, and that alone fails so on the stack of the point. At the limit it is
`map` or a user command, which has no room at the depth of the point. A definition is
malformed at one of its markers. -/
def IsOriginOf (cfg : Config) (p : Point) (f : Fault) : Prop :=
  match f.kind with
  | .stackUnderflow | .notANumber | .domain | .general =>
    p.token ∈ Builtin.names ∧ Builtin.call p.token p.stack = .error f ∨
      p.token = "store" ∧ p.machine.store p.stack = .error f
  | .unknownAnonymousFunction => p.token = "map"
  | .recursionLimit =>
    cfg.maxDepth ≤ p.depth ∧ (p.token = "map" ∨ ∃ body, p.machine.lookup p.token = .user body)
  | .malformedDefinition => p.token = cfg.markers.start ∨ p.token = cfg.markers.stop
  | .missingCommand => False

end Point

/-! ### Steps that fail -/

/-- A body that fails was refused for want of room, or failed itself. -/
theorem enter_error {cfg : Config} {depth : Nat} {nested : Evaluator} {here : Fault → Failure}
    {st : State} {body : List String} {e : Failure}
    (h : enter cfg depth nested here st body = .error e) :
    cfg.maxDepth ≤ depth ∧ e = here (.nestedDeeper cfg.maxDepth) ∨
      depth < cfg.maxDepth ∧ nested st body = .error e := by
  unfold enter at h
  split at h
  case isTrue hroom => exact .inl ⟨hroom, (Except.error.inj h).symm⟩
  case isFalse hroom => exact .inr ⟨by omega, h⟩

theorem enter_refused {cfg : Config} {depth : Nat} (h : cfg.maxDepth ≤ depth) (nested : Evaluator)
    (here : Fault → Failure) (st : State) (body : List String) :
    enter cfg depth nested here st body = .error (here (.nestedDeeper cfg.maxDepth)) :=
  if_pos h

/-- Without room there is a failure for the first token that is mapped. -/
theorem mapTokens_refused {cfg : Config} {depth : Nat} (h : cfg.maxDepth ≤ depth)
    (nested : Evaluator) (here : Fault → Failure) (m : Machine) (done : Stack)
    {ts : List String} (hts : ts ≠ []) (body : List String) :
    mapTokens (enter cfg depth nested here · body) m done ts =
      .error (here (.nestedDeeper cfg.maxDepth)) := by
  obtain ⟨t, ts, rfl⟩ := List.exists_cons_of_ne_nil hts
  rw [mapTokens_cons, enter_refused h]
  rfl

/-- Recording fails at a marker, or for a body that is missing. -/
theorem feed_error {k : Markers} {m : Machine} {t : String} {f : Fault}
    (h : m.feed k t = .error f) :
    f.kind = .malformedDefinition ∧ (t = k.start ∨ t = k.stop) ∨ f.kind = .missingCommand := by
  unfold feed offer at h
  by_cases hstart : t = k.start
  · rw [if_pos hstart] at h
    obtain rfl := Except.error.inj h
    exact .inl ⟨rfl, .inl hstart⟩
  · rw [if_neg hstart] at h
    cases hr : m.recorder with
    | idle =>
      simp only [hr] at h
      obtain rfl := Except.error.inj h
      exact .inr rfl
    | unnamed =>
      by_cases hstop : t = k.stop
      · simp only [hr, if_pos hstop] at h
        obtain rfl := Except.error.inj h
        exact .inl ⟨rfl, .inr hstop⟩
      · simp [hr, hstop] at h
    | recording name =>
      cases hb : m.commands[name]? with
      | none =>
        simp only [hr, hb] at h
        obtain rfl := Except.error.inj h
        exact .inr rfl
      | some body => by_cases hstop : t = k.stop <;> simp [hr, hb, hstop] at h

namespace Point

theorem isOriginOf_of_operands {cfg : Config} {p : Point} {f : Fault}
    (hf : f.isOperand = true ∨ f.IsEndless)
    (h : p.token ∈ Builtin.names ∧ Builtin.call p.token p.stack = .error f ∨
      p.token = "store" ∧ p.machine.store p.stack = .error f) : p.IsOriginOf cfg f := by
  rcases hf with hoperand | ⟨xs, rfl, -⟩
  · unfold Fault.isOperand at hoperand
    unfold IsOriginOf
    cases hk : f.kind <;> simp_all
  · exact h

/-- An operator that fails is at fault itself. -/
theorem isOriginOf_of_builtin {cfg : Config} {p : Point} {b : Builtin}
    (hb : p.machine.lookup p.token = .builtin b) {f : Fault} (h : b.apply p.stack = .error f) :
    p.IsOriginOf cfg f := by
  have hnamed := named?_of_lookup hb
  have hoperands : f.isOperand = true ∨ f.IsEndless :=
    (Builtin.fault_of_apply (lookup_builtin hb) h).imp (·.isOperand) (·.2)
  refine isOriginOf_of_operands hoperands (.inl ⟨?_, ?_⟩)
  · exact List.mem_map_of_mem (f := (·.1)) (Builtin.mem_catalogue hnamed)
  · simp only [Builtin.call, hnamed, h]

end Point

section Steps
variable {cfg : Config} {depth : Nat} {nested : Evaluator} {m : Machine} {s : Stack} {t : String}
  {e : Failure}

/-- On a machine that records nothing, a token that fails is at fault itself, whatever
evaluates bodies, or enters a body that fails. -/
theorem perform_error (ha : m.recorder.isArmed = false)
    (h : perform cfg depth nested m s t (m.lookup t) = .error e) :
    (∃ f, e = .located f t s.length ∧ Point.IsOriginOf cfg ⟨depth, m, s, t⟩ f ∧
      ∀ nested', perform cfg depth nested' m s t (m.lookup t) = .error e) ∨
    ∃ st body, Enters cfg depth nested (m, s) t st body ∧ nested st body = .error e := by
  cases hmeaning : m.lookup t with
  | special f =>
    rw [hmeaning] at h
    obtain rfl := lookup_special_iff.mp hmeaning
    cases f with
    | define => cases h
    | store =>
      rcases store_cases s with ⟨rest, value, name, rfl⟩ | herror
      · simp only [perform, store_append] at h
        cases h
      · simp only [perform, herror] at h ⊢
        have horigin : Point.IsOriginOf cfg ⟨depth, m, s, "store"⟩ (.underflow 1) :=
          Point.isOriginOf_of_operands (.inl rfl) (.inr ⟨rfl, herror m⟩)
        exact .inl ⟨_, (Except.error.inj h).symm, horigin, fun _ => h⟩
    | map =>
      simp only [perform] at h ⊢
      cases hbody : m.commands[cfg.lambda]? with
      | none =>
        simp only [hbody] at h
        exact .inl ⟨_, (Except.error.inj h).symm, rfl, fun _ => h⟩
      | some body =>
        simp only [hbody] at h
        obtain ⟨before, u, after, between, done, rfl, hfirst, hone⟩ := mapTokens_error h
        rcases enter_error hone with ⟨hroom, rfl⟩ | ⟨hroom, hnested⟩
        · refine .inl ⟨_, rfl, ⟨hroom, .inl rfl⟩, fun nested' => ?_⟩
          exact mapTokens_refused hroom nested' _ m [] (by simp) body
        · exact .inr ⟨_, body, .map ha hmeaning hbody hroom hfirst, hnested⟩
  | builtin b =>
    rw [hmeaning] at h
    simp only [perform] at h ⊢
    cases hr : b.apply s with
    | ok s' =>
      rw [hr] at h
      cases h
    | error f =>
      rw [hr] at h
      have horigin : Point.IsOriginOf cfg ⟨depth, m, s, t⟩ f :=
        Point.isOriginOf_of_builtin hmeaning hr
      exact .inl ⟨f, (Except.error.inj h).symm, horigin, fun _ => h⟩
  | user body =>
    rw [hmeaning] at h
    simp only [perform] at h ⊢
    rcases enter_error h with ⟨hroom, rfl⟩ | ⟨hroom, hnested⟩
    · refine .inl ⟨_, rfl, ⟨hroom, .inr ⟨body, hmeaning⟩⟩, fun nested' => ?_⟩
      exact enter_refused hroom nested' _ (m, s) body
    · exact .inr ⟨_, body, .call ha hmeaning hroom, hnested⟩
  | literal =>
    rw [hmeaning] at h
    cases h

/-- A step that fails is at fault itself, or enters a body that fails. -/
theorem step_error (h : step cfg depth nested (m, s) t = .error e) :
    (∃ f, e = .located f t s.length ∧ Point.Refuses cfg ⟨depth, m, s, t⟩ f ∧
      (f.kind ≠ .missingCommand → Point.IsOriginOf cfg ⟨depth, m, s, t⟩ f)) ∨
    ∃ st body, Enters cfg depth nested (m, s) t st body ∧ nested st body = .error e := by
  cases ha : m.recorder.isArmed with
  | true =>
    rw [step_armed cfg depth nested ha] at h
    cases hfeed : m.feed cfg.markers t with
    | ok m' =>
      rw [hfeed] at h
      cases h
    | error f =>
      rw [hfeed] at h
      refine .inl ⟨f, (Except.error.inj h).symm, fun nested' => ?_, fun hkind => ?_⟩
      · rw [step_armed cfg depth nested' ha, hfeed]
        rfl
      · obtain ⟨hmalformed, ht⟩ := (feed_error hfeed).resolve_right hkind
        unfold Point.IsOriginOf
        rw [hmalformed]
        exact ht
  | false =>
    rw [step_idle cfg depth nested ha] at h
    rcases perform_error ha h with ⟨f, rfl, horigin, hf⟩ | hinside
    · refine .inl ⟨f, rfl, fun nested' => ?_, fun _ => horigin⟩
      exact (step_idle cfg depth nested' ha s t).trans (hf nested')
    · exact .inr hinside

end Steps

/-! ### Runs that fail -/

/-- A run that fails comes to a token that is at fault itself, unless evaluation gives out, and
the failure has the name of that token and the size of its stack. -/
theorem run_error {cfg : Config} {levels depth : Nat} {st : State} {ts : List String}
    {e : Failure} (h : run cfg levels depth st ts = .error e) (he : e ≠ .exhausted) :
    ∃ p f, Reaches cfg levels depth st ts p ∧ p.Refuses cfg f ∧
      (f.kind ≠ .missingCommand → p.IsOriginOf cfg f) ∧ e = p.failure f := by
  -- a step that fails because of a body has a run of that body fail, a level below
  induction levels using Nat.strongRecOn generalizing depth st ts with
  | ind levels ih =>
    rw [run_eq_steps] at h
    obtain ⟨before, t, after, ⟨m, s⟩, rfl, hbefore, hstep⟩ := steps_error h
    rw [← run_eq_steps] at hbefore
    rcases step_error hstep with ⟨f, rfl, hrefuses, horigin⟩ | ⟨st', body, henters, hnested⟩
    · exact ⟨_, f, .here hbefore, hrefuses, horigin, rfl⟩
    · cases levels with
      | zero => exact absurd (Except.error.inj hnested).symm he
      | succ levels =>
        obtain ⟨p, f, hreaches, hrest⟩ := ih levels (Nat.lt_succ_self _) hnested
        exact ⟨p, f, .inside hbefore henters hreaches, hrest⟩

/-! ### Sessions -/

/-- **Failures name the step that failed.** Whenever an evaluation in a session of a fresh
machine fails, other than by giving out, it has come to a token that failed by itself, in
the tokens of the call or in a body that these had run. The failure is reported with that
token and with the number of tokens that it met on the stack, and it is one of these:

* an operator or `store`, which fails so on that stack if it is called alone;
* `map`, if there is no anonymous function;
* `map` or a user command of that moment, if its own body has no room left;
* the start or the end marker, if the definition is malformed. -/
theorem failures_name_their_step (cfg : Config) (calls : List Call) (tokens : List String)
    (s : Stack) {e : Failure}
    (h : ((session cfg {} calls).evaluate cfg tokens s).result = .error e)
    (hlimit : e ≠ .exhausted) :
    ∃ (p : Point) (f : Fault), Reaches cfg cfg.ceiling 0 (session cfg {} calls, s) tokens p ∧
      p.Refuses cfg f ∧ e = .located f p.token p.stack.length ∧
      e.report = ⟨f.kind, f.message, some p.token, some p.stack.length⟩ ∧
      p.IsOriginOf cfg f := by
  have hm : (session cfg {} calls).Consistent :=
    session_keeps_consistent (consistent_of_idle rfl) cfg calls
  have hexpected := (evaluate_ends (run_sound cfg cfg.ceiling 0 _ s tokens hm)).2 e h
  obtain ⟨p, f, hreaches, hrefuses, horigin, rfl⟩ := run_error (evaluate_error_iff.mp h) hlimit
  exact ⟨p, f, hreaches, hrefuses, rfl, rfl, horigin hexpected.kind_ne⟩

/-- A `map` of a command that adds: the operator is named, with the one token that it met, and
neither the command nor `map`, which met two. -/
theorem failures_name_their_step_in_map :
    let m := session {} {} [⟨["(", "_", "add", ")", "(", "add", "+", ")"], []⟩]
    (m.evaluate {} ["8", "map"] ["7"]).result = .error (.located (.underflow 2) "+" 1) ∧
      ∃ p, Reaches {} 1000 0 (m, ["7"]) ["8", "map"] p ∧ p.token = "+" ∧ p.stack.length = 1 ∧
        Builtin.call p.token p.stack = .error (.underflow 2) := by
  intro m
  have hresult : (m.evaluate {} ["8", "map"] ["7"]).result =
      .error (.located (.underflow 2) "+" 1) := rfl
  obtain ⟨p, f, hreaches, _, he, _, horigin⟩ := failures_name_their_step {}
    [⟨["(", "_", "add", ")", "(", "add", "+", ")"], []⟩] ["8", "map"] ["7"] hresult nofun
  obtain ⟨rfl, htoken, hsize⟩ := Failure.located.inj he
  refine ⟨hresult, p, hreaches, htoken.symm, hsize.symm, ?_⟩
  rcases horigin with ⟨_, hcall⟩ | ⟨hstore, _⟩
  · exact hcall
  · rw [← htoken] at hstore
    exact absurd hstore (by decide)

end Rpn.Machine
