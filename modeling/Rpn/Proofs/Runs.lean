import Rpn.Machine.Evaluate

/-! Runs of tokens.

A fact about whole evaluations is shown in three rounds: for one `step`, given that it
holds one level deeper; for `steps` over the tokens of a body; and for `run`, by
induction on the levels (`run_induction`). The first round is where the fact is decided.
What the other two need is here, along with what each kind of token means. -/
namespace Rpn

/-! ### What tokens mean -/

/-- The name of a function of the machine. -/
def Special.name : Special → String
  | define => "("
  | store => "store"
  | map => "map"

theorem Special.named?_eq_some_iff (t : String) (f : Special) :
    Special.named? t = some f ↔ t = f.name := by
  constructor
  · intro h
    obtain ⟨before, after, hc, _⟩ := List.lookup_eq_some_iff.mp h
    have hmem : (t, f) ∈ catalogue := by
      rw [hc]
      simp
    simp only [catalogue, List.mem_cons, Prod.mk.injEq, List.not_mem_nil, or_false] at hmem
    rcases hmem with ⟨rfl, rfl⟩ | ⟨rfl, rfl⟩ | ⟨rfl, rfl⟩ <;> rfl
  · rintro rfl
    cases f <;> decide

theorem Builtin.mem_catalogue {t : String} {b : Builtin} (h : Builtin.named? t = some b) :
    (t, b) ∈ Builtin.catalogue := by
  obtain ⟨before, after, hc, _⟩ := List.lookup_eq_some_iff.mp h
  rw [hc]
  simp

/-- The names of a catalogue are those that it has an entry for. -/
theorem lookup_eq_none_iff_not_mem {α : Type} {name : String} {entries : List (String × α)} :
    entries.lookup name = none ↔ name ∉ entries.map (·.1) := by
  rw [List.lookup_eq_none_iff]
  constructor
  · intro h hmem
    obtain ⟨entry, hentry, rfl⟩ := List.mem_map.mp hmem
    simpa using h entry hentry
  · intro h entry hentry
    have hne : name ≠ entry.1 := fun heq => h (List.mem_map.mpr ⟨entry, hentry, heq.symm⟩)
    simpa using hne

/-! ### Stored commands -/

/-- Every stored command has `P`. -/
def Commands.All (P : String → List String → Prop) (cs : Commands) : Prop :=
  ∀ name body, cs[name]? = some body → P name body

namespace Commands
variable {P : String → List String → Prop} {cs : Commands}

theorem all_empty : All P ∅ := by
  intro name body h
  simp at h

theorem All.insert (h : cs.All P) {name : String} {body : List String} (hp : P name body) :
    All P (cs.insert name body) := by
  intro name' body' h'
  rw [Std.ExtTreeMap.getElem?_insert] at h'
  split at h'
  case isTrue heq =>
    rw [← Std.LawfulEqCmp.eq_of_compare heq, ← Option.some.inj h']
    exact hp
  case isFalse => exact h name' body' h'

theorem All.erase (h : cs.All P) (name : String) : All P (cs.erase name) := by
  intro name' body' h'
  rw [Std.ExtTreeMap.getElem?_erase] at h'
  split at h'
  · cases h'
  · exact h name' body' h'

end Commands

namespace Machine

theorem lookup_special_iff {m : Machine} {t : String} {f : Special} :
    m.lookup t = .special f ↔ t = f.name := by
  rw [← Special.named?_eq_some_iff]
  unfold lookup
  cases Special.named? t with
  | some g => simp
  | none =>
    cases Builtin.named? t with
    | some b => simp
    | none => cases m.commands[t]? <;> simp

theorem named?_of_lookup {m : Machine} {t : String} {b : Builtin} (h : m.lookup t = .builtin b) :
    Builtin.named? t = some b := by
  unfold lookup at h
  cases hs : Special.named? t with
  | some g => simp [hs] at h
  | none =>
    cases hb : Builtin.named? t with
    | some b' => simpa [hs, hb] using h
    | none => cases hc : m.commands[t]? <;> simp [hs, hb, hc] at h

theorem lookup_builtin {m : Machine} {t : String} {b : Builtin} (h : m.lookup t = .builtin b) :
    (t, b) ∈ Builtin.catalogue :=
  Builtin.mem_catalogue (named?_of_lookup h)

theorem lookup_user {m : Machine} {t : String} {body : List String} (h : m.lookup t = .user body) :
    m.commands[t]? = some body := by
  unfold lookup at h
  cases hs : Special.named? t with
  | some g => simp [hs] at h
  | none =>
    cases hb : Builtin.named? t with
    | some b => simp [hs, hb] at h
    | none =>
      cases hc : m.commands[t]? with
      | none => simp [hs, hb, hc] at h
      | some body' => simpa [hs, hb, hc] using h

theorem mem_fixedNames {name : String} :
    name ∈ fixedNames ↔ name ∈ Builtin.names ∨ name ∈ Special.names := by
  unfold fixedNames
  rw [List.mem_mergeSort, List.mem_append]

theorem not_mem_fixedNames_iff {t : String} :
    t ∉ fixedNames ↔ Special.named? t = none ∧ Builtin.named? t = none := by
  rw [mem_fixedNames, not_or, and_comm]
  exact and_congr lookup_eq_none_iff_not_mem.symm lookup_eq_none_iff_not_mem.symm

/-- Names that are not fixed mean what is stored under them. -/
theorem lookup_of_not_mem_fixedNames {m : Machine} {t : String} (h : t ∉ fixedNames) :
    m.lookup t = (m.commands[t]?).elim .literal .user := by
  obtain ⟨hs, hb⟩ := not_mem_fixedNames_iff.mp h
  unfold lookup
  rw [hs, hb]
  cases m.commands[t]? <;> rfl

/-- Fixed names mean the same on every machine. -/
theorem lookup_of_mem_fixedNames {t : String} (h : t ∈ fixedNames) (m m' : Machine) :
    m.lookup t = m'.lookup t := by
  unfold lookup
  cases hs : Special.named? t with
  | some f => rfl
  | none =>
    cases hb : Builtin.named? t with
    | some b => rfl
    | none => exact absurd h (not_mem_fixedNames_iff.mpr ⟨hs, hb⟩)

/-! ### One token -/

/-- What evaluates the tokens of a body. -/
abbrev Evaluator := State → List String → Except Failure State

/-- What a token does to a machine that records nothing, by its meaning. -/
def perform (cfg : Config) (depth : Nat) (nested : Evaluator) (m : Machine) (s : Stack)
    (token : String) : Meaning → Except Failure State
  | .special .define => .ok (m.arm, s)
  | .special .store => (m.store s).mapError (.located · token s.length)
  | .special .map =>
    match m.commands[cfg.lambda]? with
    | none => .error (.located (.noLambda cfg.lambda) token s.length)
    | some body => mapTokens (enter cfg depth nested (.located · token s.length) · body) m [] s
  | .builtin b => ((b.apply s).mapError (.located · token s.length)).map (m, ·)
  | .user body => enter cfg depth nested (.located · token s.length) (m, s) body
  | .literal => .ok (m, s ++ [token])

theorem step_armed (cfg : Config) (depth : Nat) (nested : Evaluator) {m : Machine}
    (h : m.recorder.isArmed = true) (s : Stack) (token : String) :
    step cfg depth nested (m, s) token =
      ((m.feed cfg.markers token).mapError (.located · token s.length)).map (·, s) := by
  simp only [step, h, if_true]

theorem step_idle (cfg : Config) (depth : Nat) (nested : Evaluator) {m : Machine}
    (h : m.recorder.isArmed = false) (s : Stack) (token : String) :
    step cfg depth nested (m, s) token = perform cfg depth nested m s token (m.lookup token) := by
  simp only [step, h, Bool.false_eq_true, if_false]
  cases m.lookup token with
  | special f => cases f <;> rfl
  | _ => rfl

/-! ### Recording and storing -/

/-- What recording a token can do: it names a definition, ends it, or goes to its body. -/
theorem feed_cases {k : Markers} {m m' : Machine} {t : String} (h : m.feed k t = .ok m') :
    m.recorder = .unnamed ∧ m' = ⟨m.commands.insert t [], .recording t⟩ ∨
    ∃ name body, m.recorder = .recording name ∧ m.commands[name]? = some body ∧
      (m' = m.reset ∨ m' = { m with commands := m.commands.insert name (body ++ [t]) }) := by
  unfold feed offer at h
  by_cases hstart : t = k.start
  · simp [hstart] at h
  · rw [if_neg hstart] at h
    cases hr : m.recorder with
    | idle => simp [hr] at h
    | unnamed =>
      by_cases hstop : t = k.stop
      · simp [hr, hstop] at h
      · exact .inl ⟨rfl, by simpa [hr, hstop, eq_comm] using h⟩
    | recording name =>
      cases hb : m.commands[name]? with
      | none => simp [hr, hb] at h
      | some body =>
        refine .inr ⟨name, body, rfl, hb, ?_⟩
        by_cases hstop : t = k.stop
        · exact .inl (by simpa [hr, hb, hstop, eq_comm] using h)
        · exact .inr (by simpa [hr, hb, hstop, eq_comm] using h)

theorem popToken_concat (s : Stack) (t : String) : Stack.popToken (s ++ [t]) = .ok (s, t) := by
  simp [Stack.popToken]

theorem store_append (m : Machine) (s : Stack) (value name : String) :
    m.store (s ++ [value, name]) =
      .ok ({ m with commands := m.commands.insert name [value] }, s) := by
  have hsplit : s ++ [value, name] = s ++ [value] ++ [name] := by simp
  simp only [store, hsplit, popToken_concat, bind, Except.bind]
  rfl

/-- Storing takes a value and a name, or finds too few tokens. -/
theorem store_cases (s : Stack) :
    (∃ rest value name, s = rest ++ [value, name]) ∨
      ∀ m : Machine, m.store s = .error (.underflow 1) := by
  rcases List.eq_nil_or_concat s with rfl | ⟨rest, name, rfl⟩
  · exact .inr fun _ => rfl
  · rcases List.eq_nil_or_concat rest with rfl | ⟨rest, value, rfl⟩
    · exact .inr fun _ => rfl
    · exact .inl ⟨rest, value, name, by simp⟩

/-! ### Endings -/

/-- How a run ends: in a state with `I`, or in a failure with `E`. -/
def Ends (I : State → Prop) (E : Failure → Prop) : Except Failure State → Prop
  | .ok st => I st
  | .error e => E e

theorem Ends.mono {I J : State → Prop} {E F : Failure → Prop} {r : Except Failure State}
    (h : Ends I E r) (hs : ∀ st, I st → J st) (he : ∀ e, E e → F e) : Ends J F r := by
  cases r with
  | ok st => exact hs st h
  | error e => exact he e h

/-- Tokens one by one on stacks of their own: what every machine between them and every
token on them has, the machine and the tokens at the end have. -/
theorem mapTokens_ends {M : Machine → Prop} {P : String → Prop} {E : Failure → Prop}
    {f : State → Except Failure State}
    (hf : ∀ m t, M m → P t → Ends (fun st => M st.1 ∧ ∀ u ∈ st.2, P u) E (f (m, [t])))
    (ts : List String) (m : Machine) (done : Stack) (hm : M m) (hdone : ∀ u ∈ done, P u)
    (hts : ∀ u ∈ ts, P u) :
    Ends (fun st => M st.1 ∧ ∀ u ∈ st.2, P u) E (mapTokens f m done ts) := by
  induction ts generalizing m done with
  | nil => exact ⟨hm, fun u hu => hdone u (List.mem_reverse.mp hu)⟩
  | cons t ts ih =>
    have ht := hf m t hm (hts t (List.mem_cons_self ..))
    unfold mapTokens
    cases hr : f (m, [t]) with
    | error e =>
      rw [hr] at ht
      exact ht
    | ok st =>
      rw [hr] at ht
      obtain ⟨m', out⟩ := st
      refine ih m' (out.reverse ++ done) ht.1 (fun u hu => ?_)
        (fun u hu => hts u (List.mem_cons_of_mem _ hu))
      rcases List.mem_append.mp hu with hu | hu
      · exact ht.2 u (List.mem_reverse.mp hu)
      · exact hdone u hu

/-! ### Lists of tokens -/

theorem mapTokens_cons (f : State → Except Failure State) (m : Machine) (done : Stack)
    (t : String) (ts : List String) :
    mapTokens f m done (t :: ts) =
      (f (m, [t])).bind fun st => mapTokens f st.1 (st.2.reverse ++ done) ts := by
  rw [mapTokens]
  cases f (m, [t]) <;> rfl

theorem steps_cons (f : State → String → Except Failure State) (st : State) (t : String)
    (ts : List String) : steps f st (t :: ts) = (f st t).bind (steps f · ts) := by
  rw [steps]
  cases f st t <;> rfl

theorem steps_singleton (f : State → String → Except Failure State) (st : State) (t : String) :
    steps f st [t] = f st t := by
  rw [steps_cons]
  cases f st t <;> rfl

theorem steps_append (f : State → String → Except Failure State) (st : State)
    (ts us : List String) : steps f st (ts ++ us) = (steps f st ts).bind (steps f · us) := by
  induction ts generalizing st with
  | nil => rfl
  | cons t ts ih =>
    rw [List.cons_append, steps_cons, steps_cons]
    cases f st t with
    | ok st' => exact ih st'
    | error e => rfl

/-- A run that fails has a step that failed, after tokens that ran. -/
theorem steps_error {f : State → String → Except Failure State} {st : State} {ts : List String}
    {e : Failure} (h : steps f st ts = .error e) :
    ∃ before t after st', ts = before ++ t :: after ∧ steps f st before = .ok st' ∧
      f st' t = .error e := by
  induction ts generalizing st with
  | nil => cases h
  | cons t ts ih =>
    rw [steps_cons] at h
    cases hr : f st t with
    | error e' =>
      rw [hr] at h
      obtain rfl := Except.error.inj h
      exact ⟨[], t, ts, st, rfl, rfl, hr⟩
    | ok st' =>
      rw [hr] at h
      obtain ⟨before, u, after, st'', rfl, hbefore, hu⟩ := ih h
      refine ⟨t :: before, u, after, st'', rfl, ?_, hu⟩
      rw [steps_cons, hr]
      exact hbefore

theorem mapTokens_error {f : State → Except Failure State} {m : Machine} {done : Stack}
    {ts : List String} {e : Failure} (h : mapTokens f m done ts = .error e) :
    ∃ before u after m' out, ts = before ++ u :: after ∧
      mapTokens f m done before = .ok (m', out) ∧ f (m', [u]) = .error e := by
  induction ts generalizing m done with
  | nil => cases h
  | cons t ts ih =>
    rw [mapTokens_cons] at h
    cases hr : f (m, [t]) with
    | error e' =>
      rw [hr] at h
      obtain rfl := Except.error.inj h
      exact ⟨[], t, ts, m, done.reverse, rfl, rfl, hr⟩
    | ok st =>
      rw [hr] at h
      obtain ⟨before, u, after, m', out, rfl, hbefore, hu⟩ := ih h
      refine ⟨t :: before, u, after, m', out, rfl, ?_, hu⟩
      rw [mapTokens_cons, hr]
      exact hbefore

/-- What a step on each of the tokens keeps, a run over them keeps. -/
theorem steps_ends {I : State → Prop} {E : Failure → Prop}
    {f : State → String → Except Failure State} (ts : List String)
    (hf : ∀ st, I st → ∀ t ∈ ts, Ends I E (f st t)) (st : State) (hst : I st) :
    Ends I E (steps f st ts) := by
  induction ts generalizing st with
  | nil => exact hst
  | cons t ts ih =>
    have ht := hf st hst t (List.mem_cons_self ..)
    rw [steps_cons]
    cases hr : f st t with
    | error e =>
      rw [hr] at ht
      exact ht
    | ok st' =>
      rw [hr] at ht
      exact ih (fun st hst u hu => hf st hst u (List.mem_cons_of_mem _ hu)) st' ht

/-! ### Two runs side by side -/

/-- How a second run follows a first: it ends in a state related by `R` if the first ends in
a state, and fails with the failure that `f` gives if the first fails, except for failures
with `X`. -/
def Tracks (R : State → State → Prop) (X : Failure → Prop) (f : Failure → Failure)
    (r r' : Except Failure State) : Prop :=
  Ends (fun st => ∃ st', r' = .ok st' ∧ R st st') (fun e => X e ∨ r' = .error (f e)) r

section Tracks
variable {R : State → State → Prop} {X : Failure → Prop} {f : Failure → Failure}

theorem Tracks.bind {S : State → State → Prop} {r r' : Except Failure State}
    {g g' : State → Except Failure State} (h : Tracks R X f r r')
    (hg : ∀ st st', R st st' → Tracks S X f (g st) (g' st')) :
    Tracks S X f (r.bind g) (r'.bind g') := by
  cases r with
  | ok st =>
    obtain ⟨st', rfl, hst⟩ := h
    exact hg st st' hst
  | error e =>
    rcases h with he | rfl
    · exact .inl he
    · exact .inr rfl

theorem steps_tracks {g g' : State → String → Except Failure State} (ts : List String)
    (h : ∀ st st', R st st' → ∀ t ∈ ts, Tracks R X f (g st t) (g' st' t)) {st st' : State}
    (hst : R st st') : Tracks R X f (steps g st ts) (steps g' st' ts) := by
  induction ts generalizing st st' with
  | nil => exact ⟨st', rfl, hst⟩
  | cons t ts ih =>
    rw [steps_cons, steps_cons]
    refine (h st st' hst t (List.mem_cons_self ..)).bind fun _ _ hst => ?_
    exact ih (fun _ _ hst u hu => h _ _ hst u (List.mem_cons_of_mem _ hu)) hst

end Tracks

/-! ### Levels -/

/-- What evaluates the level under a run's own. -/
def below (cfg : Config) : (levels depth : Nat) → Evaluator
  | 0, _ => fun _ _ => .error .exhausted
  | levels + 1, depth => run cfg levels (depth + 1)

theorem run_eq_steps (cfg : Config) (levels depth : Nat) :
    run cfg levels depth = steps (step cfg depth (below cfg levels depth)) := by
  cases levels <;> rfl

/-- A single token on a machine that records nothing. -/
theorem run_singleton (cfg : Config) (levels depth : Nat) {m : Machine}
    (hidle : m.recorder = .idle) (s : Stack) (t : String) :
    run cfg levels depth (m, s) [t] =
      perform cfg depth (below cfg levels depth) m s t (m.lookup t) := by
  rw [run_eq_steps, steps_singleton, step_idle _ _ _ (by rw [hidle]; rfl)]

theorem run_user (cfg : Config) (levels depth : Nat) {m : Machine} {f : String}
    {body : List String} (hidle : m.recorder = .idle) (hf : m.lookup f = .user body) (s : Stack) :
    run cfg levels depth (m, s) [f] =
      enter cfg depth (below cfg levels depth) (.located · f s.length) (m, s) body := by
  rw [run_singleton cfg _ _ hidle, hf]
  rfl

theorem run_append (cfg : Config) (levels depth : Nat) (st : State) (ts us : List String) :
    run cfg levels depth st (ts ++ us) =
      (run cfg levels depth st ts).bind (run cfg levels depth · us) := by
  rw [run_eq_steps]
  exact steps_append _ st ts us

/-- What holds where no levels are left, and of a level if it holds of the one below,
holds of every run. -/
theorem run_induction {Q : Evaluator → Prop} (cfg : Config)
    (exhausted : Q fun _ _ => .error .exhausted)
    (level : ∀ depth nested, Q nested → Q (steps (step cfg depth nested)))
    (levels depth : Nat) : Q (run cfg levels depth) := by
  induction levels generalizing depth with
  | zero => exact level depth _ exhausted
  | succ levels ih => exact level depth _ (ih (depth + 1))

/-! ### Evaluation -/

/-- What an evaluation that started with `m` makes of its run. -/
def settle (m : Machine) : Except Failure State → Outcome
  | .ok (m', s) => ⟨m', .ok s⟩
  | .error e => ⟨m.afterFailure e, .error e⟩

theorem evaluate_eq_settle (cfg : Config) (m : Machine) (tokens : List String) (s : Stack) :
    m.evaluate cfg tokens s = m.settle (run cfg cfg.ceiling 0 (m, s) tokens) := by
  unfold evaluate
  cases run cfg cfg.ceiling 0 (m, s) tokens <;> rfl

theorem evaluate_eq_ok_iff {cfg : Config} {m m' : Machine} {tokens : List String} {s s' : Stack} :
    m.evaluate cfg tokens s = ⟨m', .ok s'⟩ ↔
      run cfg cfg.ceiling 0 (m, s) tokens = .ok (m', s') := by
  rw [evaluate_eq_settle]
  cases run cfg cfg.ceiling 0 (m, s) tokens with
  | ok st => simp [settle, Prod.ext_iff]
  | error e => simp [settle]

/-- An evaluation ends as its run does. -/
theorem evaluate_ends {cfg : Config} {m : Machine} {tokens : List String} {s : Stack}
    {I : State → Prop} {E : Failure → Prop} (h : Ends I E (run cfg cfg.ceiling 0 (m, s) tokens)) :
    (∀ s', (m.evaluate cfg tokens s).result = .ok s' →
      I ((m.evaluate cfg tokens s).machine, s')) ∧
    ∀ e, (m.evaluate cfg tokens s).result = .error e → E e := by
  rw [evaluate_eq_settle]
  cases hr : run cfg cfg.ceiling 0 (m, s) tokens with
  | ok st =>
    rw [hr] at h
    refine ⟨fun s' heq => ?_, nofun⟩
    obtain rfl := Except.ok.inj heq
    exact h
  | error e =>
    rw [hr] at h
    refine ⟨nofun, fun e' heq => ?_⟩
    obtain rfl := Except.error.inj heq
    exact h

theorem evaluate_machine_of_error {cfg : Config} {m : Machine} {tokens : List String} {s : Stack}
    {e : Failure} (h : (m.evaluate cfg tokens s).result = .error e) :
    (m.evaluate cfg tokens s).machine = m.afterFailure e := by
  rw [evaluate_eq_settle] at h ⊢
  cases hr : run cfg cfg.ceiling 0 (m, s) tokens with
  | ok st =>
    rw [hr] at h
    cases h
  | error e' =>
    rw [hr] at h
    obtain rfl := Except.error.inj h
    rfl

theorem evaluate_error_iff {cfg : Config} {m : Machine} {tokens : List String} {s : Stack}
    {e : Failure} : (m.evaluate cfg tokens s).result = .error e ↔
      run cfg cfg.ceiling 0 (m, s) tokens = .error e := by
  rw [evaluate_eq_settle]
  cases run cfg cfg.ceiling 0 (m, s) tokens <;> simp [settle]

/-! ### Sessions -/

/-- One call of `evaluate`. -/
structure Call where
  tokens : List String
  stack : Stack

/-- The machine after calls, failed ones included. -/
def session (cfg : Config) (m : Machine) : List Call → Machine
  | [] => m
  | call :: calls => session cfg (m.evaluate cfg call.tokens call.stack).machine calls

end Machine

end Rpn
