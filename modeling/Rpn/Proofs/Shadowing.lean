import Rpn.Proofs.Consistency

/-! Definitions under a fixed name are dead.

The names of operators and of the machine's functions are looked up before the store, so
what is stored under one of them is never run. It is not inert in every way: recording
goes on into it, a malformed definition takes it out again, and `store` replaces it.
Two machines whose stores differ only there do the same at every step and differ only
there afterwards (`Alike`); so they answer every call alike
(`definitions_under_fixed_names_dead`). -/
namespace Rpn

/-! ### Stores that differ under some names only -/

/-- The same commands, except under the given names. -/
def Commands.AgreeOff (names : List String) (cs cs' : Commands) : Prop :=
  ∀ name, name ∉ names → cs[name]? = cs'[name]?

namespace Commands.AgreeOff
variable {names : List String} {cs cs' : Commands}

theorem refl (cs : Commands) : AgreeOff names cs cs := fun _ _ => rfl

/-- The same insertion on both sides. -/
theorem insert (h : AgreeOff names cs cs') (name : String) (body : List String) :
    AgreeOff names (cs.insert name body) (cs'.insert name body) := by
  intro name' hname'
  rw [Std.ExtTreeMap.getElem?_insert, Std.ExtTreeMap.getElem?_insert, h name' hname']

/-- Any insertion under one of the names. -/
theorem insert_left {name : String} (hname : name ∈ names) (body : List String)
    (h : AgreeOff names cs cs') : AgreeOff names (cs.insert name body) cs' := by
  intro name' hname'
  have hne : ¬compare name name' = .eq := fun heq =>
    hname' (Std.LawfulEqCmp.eq_of_compare heq ▸ hname)
  rw [Std.ExtTreeMap.getElem?_insert, if_neg hne, h name' hname']

theorem symm (h : AgreeOff names cs cs') : AgreeOff names cs' cs :=
  fun name hname => (h name hname).symm

theorem erase (h : AgreeOff names cs cs') (name : String) :
    AgreeOff names (cs.erase name) (cs'.erase name) := by
  intro name' hname'
  rw [Std.ExtTreeMap.getElem?_erase, Std.ExtTreeMap.getElem?_erase, h name' hname']

end Commands.AgreeOff

namespace Machine

/-! ### Machines that differ under fixed names only -/

/-- Consistent machines that record alike and whose stores differ under fixed names only. -/
structure Alike (m m' : Machine) : Prop where
  recorder : m.recorder = m'.recorder
  commands : m.commands.AgreeOff fixedNames m'.commands
  left : m.Consistent
  right : m'.Consistent

/-- Alike machines with the same stack. -/
def AlikeStates (st st' : State) : Prop := Alike st.1 st'.1 ∧ st.2 = st'.2

/-- A second run that ends as the first does, on a machine that is alike. -/
abbrev Mirrors (r r' : Except Failure State) : Prop :=
  Tracks AlikeStates (fun _ => False) id r r'

namespace Alike
variable {m m' : Machine}

theorem lookup (h : Alike m m') (t : String) : m.lookup t = m'.lookup t := by
  by_cases ht : t ∈ fixedNames
  · exact lookup_of_mem_fixedNames ht m m'
  · rw [lookup_of_not_mem_fixedNames ht, lookup_of_not_mem_fixedNames ht, h.commands t ht]

theorem arm (h : Alike m m') : Alike m.arm m'.arm where
  recorder := rfl
  commands := h.commands
  left := nofun
  right := nofun

theorem insert (h : Alike m m') (name : String) (body : List String) :
    Alike { m with commands := m.commands.insert name body }
      { m' with commands := m'.commands.insert name body } where
  recorder := h.recorder
  commands := h.commands.insert name body
  left := h.left.insert name body
  right := h.right.insert name body

theorem abandon (h : Alike m m') : Alike m.abandon m'.abandon := by
  refine ⟨?_, ?_, consistent_abandon m, consistent_abandon m'⟩
  · unfold Machine.abandon
    rw [← h.recorder]
    split <;> rfl
  · unfold Machine.abandon
    rw [← h.recorder]
    split
    · exact h.commands.erase _
    · exact h.commands

/-- The bodies under recording may differ, but only under a fixed name. -/
theorem extend (h : Alike m m') {name : String} {body body' : List String}
    (hbody : m.commands[name]? = some body) (hbody' : m'.commands[name]? = some body')
    (t : String) :
    Commands.AgreeOff fixedNames (m.commands.insert name (body ++ [t]))
      (m'.commands.insert name (body' ++ [t])) := by
  by_cases hname : name ∈ fixedNames
  · exact .insert_left hname _ (.symm (.insert_left hname _ h.commands.symm))
  · have hsame := h.commands name hname
    rw [hbody, hbody'] at hsame
    obtain rfl := Option.some.inj hsame
    exact h.commands.insert name _

/-- Recording a token does the same on both sides, faults included. -/
theorem offer (h : Alike m m') (k : Markers) (ha : m.recorder.isArmed = true) (t : String) :
    (m.offer k t).2 = (m'.offer k t).2 ∧ Alike (m.offer k t).1 (m'.offer k t).1 := by
  by_cases hstart : t = k.start
  · simp only [Machine.offer, if_pos hstart]
    exact ⟨trivial, h.abandon⟩
  · have hleft := h.left.offer k t
    have hright := h.right.offer k t
    simp only [Machine.offer, if_neg hstart, ← h.recorder] at hleft hright ⊢
    cases hr : m.recorder with
    | idle =>
      rw [hr] at ha
      cases ha
    | unnamed =>
      simp only [hr] at hleft hright ⊢
      by_cases hstop : t = k.stop
      · simp only [if_pos hstop]
        exact ⟨trivial, h.abandon⟩
      · simp only [if_neg hstop] at hleft hright ⊢
        exact ⟨trivial, rfl, h.commands.insert t [], hleft, hright⟩
    | recording name =>
      obtain ⟨body, hbody⟩ := h.left.body hr
      obtain ⟨body', hbody'⟩ := h.right.body (h.recorder ▸ hr)
      simp only [hr, hbody, hbody'] at hleft hright ⊢
      by_cases hstop : t = k.stop
      · simp only [if_pos hstop] at hleft hright ⊢
        exact ⟨trivial, rfl, h.commands, hleft, hright⟩
      · simp only [if_neg hstop] at hleft hright ⊢
        exact ⟨trivial, rfl, h.extend hbody hbody' t, hleft, hright⟩

theorem feed (h : Alike m m') (k : Markers) (ha : m.recorder.isArmed = true) (s : Stack)
    (t : String) :
    Mirrors (((m.feed k t).mapError (.located · t s.length)).map (·, s))
      (((m'.feed k t).mapError (.located · t s.length)).map (·, s)) := by
  obtain ⟨hfault, halike⟩ := h.offer k ha t
  unfold Machine.feed
  generalize m.offer k t = o at hfault halike
  generalize m'.offer k t = o' at hfault halike
  obtain ⟨n, fault⟩ := o
  obtain ⟨n', fault'⟩ := o'
  obtain rfl : fault = fault' := hfault
  cases fault with
  | none => exact ⟨(n', s), rfl, halike, rfl⟩
  | some f => exact .inr rfl

theorem afterFailure (h : Alike m m') (e : Failure) :
    Alike (m.afterFailure e) (m'.afterFailure e) := by
  unfold Machine.afterFailure
  split
  · exact h.abandon
  · exact h

end Alike

/-! ### Steps and runs -/

/-- Evaluation that does not see what is stored under fixed names. -/
def Blind (eval : Evaluator) : Prop :=
  ∀ m m' s ts, Alike m m' → Mirrors (eval (m, s) ts) (eval (m', s) ts)

theorem mirrors_error (e : Failure) : Mirrors (.error e) (.error e) := .inr rfl

section Nested
variable {nested : Evaluator} {m m' : Machine}

theorem Blind.enter (h : Blind nested) (cfg : Config) (depth : Nat) (hm : Alike m m')
    (here : Fault → Failure) (s : Stack) (body : List String) :
    Mirrors (enter cfg depth nested here (m, s) body)
      (enter cfg depth nested here (m', s) body) := by
  unfold Machine.enter
  split
  · exact mirrors_error _
  · exact h m m' s body hm

theorem Blind.map (h : Blind nested) (cfg : Config) (depth : Nat) (hm : Alike m m')
    (here : Fault → Failure) (body : List String) (done : Stack) (ts : List String) :
    Mirrors (mapTokens (Machine.enter cfg depth nested here · body) m done ts)
      (mapTokens (Machine.enter cfg depth nested here · body) m' done ts) := by
  induction ts generalizing m m' done with
  | nil => exact ⟨(m', done.reverse), rfl, hm, rfl⟩
  | cons t ts ih =>
    rw [mapTokens_cons, mapTokens_cons]
    refine (h.enter cfg depth hm here [t] body).bind fun st st' hst => ?_
    rw [hst.2]
    exact ih hst.1 _

end Nested

theorem step_mirrors {cfg : Config} (hlambda : cfg.lambda ∉ fixedNames) (depth : Nat)
    {nested : Evaluator} (h : Blind nested) {m m' : Machine} (hm : Alike m m') (s : Stack)
    (t : String) :
    Mirrors (step cfg depth nested (m, s) t) (step cfg depth nested (m', s) t) := by
  cases ha : m.recorder.isArmed with
  | true =>
    rw [step_armed cfg depth nested ha, step_armed cfg depth nested (hm.recorder ▸ ha)]
    exact hm.feed cfg.markers ha s t
  | false =>
    rw [step_idle cfg depth nested ha, step_idle cfg depth nested (hm.recorder ▸ ha),
      ← hm.lookup t]
    cases m.lookup t with
    | special f =>
      cases f with
      | define => exact ⟨(m'.arm, s), rfl, hm.arm, rfl⟩
      | store =>
        rcases store_cases s with ⟨rest, value, name, rfl⟩ | herror
        · simp only [perform, store_append]
          exact ⟨_, rfl, hm.insert name [value], rfl⟩
        · simp only [perform, herror]
          exact mirrors_error _
      | map =>
        simp only [perform]
        -- `map` reads the store without a look-up, under a name that is not fixed
        rw [← hm.commands cfg.lambda hlambda]
        cases m.commands[cfg.lambda]? with
        | none => exact mirrors_error _
        | some body => exact h.map cfg depth hm _ body [] s
    | builtin b =>
      simp only [perform]
      cases b.apply s with
      | ok s' => exact ⟨(m', s'), rfl, hm, rfl⟩
      | error f => exact mirrors_error _
    | user body => exact h.enter cfg depth hm (.located · t s.length) s body
    | literal => exact ⟨(m', s ++ [t]), rfl, hm, rfl⟩

theorem run_blind {cfg : Config} (hlambda : cfg.lambda ∉ fixedNames) (levels depth : Nat) :
    Blind (run cfg levels depth) := by
  apply run_induction
  · exact fun _ _ _ _ _ => mirrors_error _
  · intro depth nested h m m' s ts hm
    refine steps_tracks ts (fun st st' hst t _ => ?_) ⟨hm, rfl⟩
    obtain ⟨n, s⟩ := st
    obtain ⟨n', s'⟩ := st'
    obtain ⟨hn, rfl⟩ := hst
    exact step_mirrors hlambda depth h hn s t

/-! ### Sessions -/

theorem evaluate_alike {cfg : Config} (hlambda : cfg.lambda ∉ fixedNames) {m m' : Machine}
    (hm : Alike m m') (tokens : List String) (s : Stack) :
    (m.evaluate cfg tokens s).result = (m'.evaluate cfg tokens s).result ∧
      Alike (m.evaluate cfg tokens s).machine (m'.evaluate cfg tokens s).machine := by
  have hrun := run_blind hlambda cfg.ceiling 0 m m' s tokens hm
  rw [evaluate_eq_settle, evaluate_eq_settle]
  cases hr : run cfg cfg.ceiling 0 (m, s) tokens with
  | ok st =>
    rw [hr] at hrun
    obtain ⟨st', hr', halike, hstack⟩ := hrun
    rw [hr']
    exact ⟨congrArg Except.ok hstack, halike⟩
  | error e =>
    rw [hr] at hrun
    rcases hrun with hfalse | hr'
    · exact hfalse.elim
    · rw [hr']
      exact ⟨rfl, hm.afterFailure e⟩

theorem session_alike {cfg : Config} (hlambda : cfg.lambda ∉ fixedNames) {m m' : Machine}
    (hm : Alike m m') (calls : List Call) : Alike (session cfg m calls) (session cfg m' calls) := by
  induction calls generalizing m m' with
  | nil => exact hm
  | cons call calls ih => exact ih (evaluate_alike hlambda hm call.tokens call.stack).2

/-- **Definitions under a fixed name are dead.** If the anonymous function has no fixed name,
two machines that record alike, into a body that both have, and whose stores agree on all
names that are not fixed, answer every call of every session alike, with the same stack or
the same failure, and their stores still agree on those names. So whatever is recorded or
stored under a fixed name changes no later answer. -/
theorem definitions_under_fixed_names_dead (cfg : Config) (hlambda : cfg.lambda ∉ fixedNames)
    {m m' : Machine} (hrecorder : m.recorder = m'.recorder)
    (hcommands : ∀ name, name ∉ fixedNames → m.commands[name]? = m'.commands[name]?)
    (hrecorded : ∀ name, m.recorder = .recording name → name ∈ m.commands ∧ name ∈ m'.commands)
    (calls : List Call) (tokens : List String) (s : Stack) :
    let o := (session cfg m calls).evaluate cfg tokens s
    let o' := (session cfg m' calls).evaluate cfg tokens s
    o.result = o'.result ∧ o.machine.recorder = o'.machine.recorder ∧
      (∀ name, name ∉ fixedNames → o.machine.commands[name]? = o'.machine.commands[name]?) ∧
      ∀ name ∈ fixedNames, ∀ body,
        let shadowed := { m with commands := m.commands.insert name body }
        ((session cfg shadowed calls).evaluate cfg tokens s).result = o.result := by
  intro o o'
  have hm : m.Consistent := fun name hr => (hrecorded name hr).1
  have hm' : m'.Consistent := fun name hr => (hrecorded name (hrecorder ▸ hr)).2
  obtain ⟨hresult, halike⟩ := evaluate_alike hlambda
    (session_alike hlambda ⟨hrecorder, hcommands, hm, hm'⟩ calls) tokens s
  refine ⟨hresult, halike.recorder, halike.commands, fun name hname body => ?_⟩
  have hinsert : Commands.AgreeOff fixedNames (m.commands.insert name body) m.commands :=
    .insert_left hname body (.refl _)
  have hshadowed : Alike { m with commands := m.commands.insert name body } m :=
    ⟨rfl, hinsert, hm.insert name body, hm⟩
  exact (evaluate_alike hlambda (session_alike hlambda hshadowed calls) tokens s).1

/-- Two machines that are in the middle of different definitions of `dup` complete them and
still both duplicate. -/
theorem definitions_of_dup_dead :
    let m : Machine := ⟨(∅ : Commands).insert "dup" ["9", "9"], .recording "dup"⟩
    let m' : Machine := ⟨(∅ : Commands).insert "dup" [], .recording "dup"⟩
    let calls : List Call := [⟨["8", ")"], []⟩]
    ((session {} m calls).evaluate {} ["2", "dup"] []).result = .ok ["2", "2"] ∧
      ((session {} m calls).evaluate {} ["2", "dup"] []).result =
        ((session {} m' calls).evaluate {} ["2", "dup"] []).result := by
  intro m m' calls
  have hlambda : "_" ∉ fixedNames := by
    rw [mem_fixedNames]
    decide
  have hdup : "dup" ∈ fixedNames := by
    rw [mem_fixedNames]
    decide
  have hcommands : m.commands.AgreeOff fixedNames m'.commands :=
    .insert_left hdup _ (.symm (.insert_left hdup _ (.refl ∅)))
  have hrecorded : ∀ name, m.recorder = .recording name →
      name ∈ m.commands ∧ name ∈ m'.commands := by
    intro name hr
    obtain rfl := Recorder.recording.inj hr
    exact ⟨Std.ExtTreeMap.mem_insert_self, Std.ExtTreeMap.mem_insert_self⟩
  have hrecorder : m.recorder = m'.recorder := rfl
  exact ⟨rfl, (definitions_under_fixed_names_dead {} hlambda hrecorder hcommands hrecorded calls
    ["2", "dup"] []).1⟩

end Machine

end Rpn
