import Rpn.Proofs.Runs

/-! Definitions are recorded verbatim.

Between its markers a definition is only recorded, whatever its tokens are: names of
operators, `store`, the name under definition, no numbers. `Records` is what recording
alone makes of tokens. It can be cut at any place (`Records.append`), since the recorder
is all that a cut has to carry over, and evaluation follows it at every level and on
every stack (`Records.run`). So it does not matter how many calls a definition is spread
over (`definitions_verbatim`). -/
namespace Rpn

/-- What was inserted first under a name is gone. -/
theorem Commands.insert_insert (cs : Commands) (name : String) (body body' : List String) :
    (cs.insert name body).insert name body' = cs.insert name body' := by
  refine Std.ExtTreeMap.ext_getElem? fun other => ?_
  simp only [Std.ExtTreeMap.getElem?_insert]
  split <;> rfl

namespace Machine

/-! ### Tokens that are only recorded -/

/-- The tokens take one machine to the other by recording: each starts a definition or goes
to the one in progress, and none is run. -/
inductive Records (k : Markers) : Machine → List String → Machine → Prop
  | done {m : Machine} : Records k m [] m
  | start {m m' : Machine} {ts : List String} (idle : m.recorder.isArmed = false)
    (rest : Records k m.arm ts m') : Records k m ("(" :: ts) m'
  | feed {m between m' : Machine} {t : String} {ts : List String}
    (armed : m.recorder.isArmed = true) (fed : m.feed k t = .ok between)
    (rest : Records k between ts m') : Records k m (t :: ts) m'

namespace Records
variable {k : Markers} {m m' : Machine}

/-- Recording can be cut at any place. -/
theorem append {ts us : List String} (h : Records k m (ts ++ us) m') :
    ∃ between, Records k m ts between ∧ Records k between us m' := by
  induction ts generalizing m with
  | nil => exact ⟨m, .done, h⟩
  | cons t ts ih =>
    cases h with
    | start idle rest =>
      obtain ⟨between, hts, hus⟩ := ih rest
      exact ⟨between, .start idle hts, hus⟩
    | feed armed fed rest =>
      obtain ⟨between, hts, hus⟩ := ih rest
      exact ⟨between, .feed armed fed hts, hus⟩

/-- Evaluation of tokens that are only recorded leaves the stack alone. -/
theorem run {cfg : Config} {ts : List String} (h : Records cfg.markers m ts m')
    (levels depth : Nat) (s : Stack) : run cfg levels depth (m, s) ts = .ok (m', s) := by
  rw [run_eq_steps]
  induction h with
  | done => rfl
  | @start m _ _ idle _ ih =>
    have hmeaning : m.lookup "(" = .special .define := lookup_special_iff.mpr rfl
    rw [steps_cons, step_idle _ _ _ idle, hmeaning]
    exact ih
  | feed armed fed _ ih =>
    rw [steps_cons, step_armed _ _ _ armed, fed]
    exact ih

theorem evaluate {cfg : Config} {ts : List String} (h : Records cfg.markers m ts m') (s : Stack) :
    m.evaluate cfg ts s = ⟨m', .ok s⟩ :=
  evaluate_eq_ok_iff.mpr (h.run cfg.ceiling 0 s)

/-- Calls that only record lead to where their tokens lead, and return their stacks. -/
theorem session {cfg : Config} {calls : List Call}
    (h : Records cfg.markers m (calls.flatMap (·.tokens)) m') :
    session cfg m calls = m' ∧ ∀ before call after, calls = before ++ call :: after →
      ((Machine.session cfg m before).evaluate cfg call.tokens call.stack).result =
        .ok call.stack := by
  induction calls generalizing m with
  | nil =>
    cases h
    exact ⟨rfl, fun before _ _ hcut => by simp at hcut⟩
  | cons call calls ih =>
    obtain ⟨between, hfirst, hrest⟩ := append h
    obtain ⟨hend, hresults⟩ := ih hrest
    have hcall := hfirst.evaluate call.stack
    refine ⟨?_, fun before call' after hcut => ?_⟩
    · rw [Machine.session, hcall]
      exact hend
    · cases before with
      | nil =>
        obtain ⟨rfl, _⟩ := List.cons.inj hcut
        rw [Machine.session, hcall]
      | cons first before =>
        obtain ⟨rfl, rfl⟩ := List.cons.inj hcut
        rw [Machine.session, hcall]
        exact hresults before call' after rfl

end Records

/-! ### Definitions -/

/-- The tokens of a definition. -/
def definition (name : String) (body : List String) : List String :=
  "(" :: name :: (body ++ [")"])

section Definition
variable {cs : Commands} {name : String}

theorem records_body {body : List String} (hstart : "(" ∉ body) (hstop : ")" ∉ body)
    (recorded : List String) :
    Records {} ⟨cs.insert name recorded, .recording name⟩ (body ++ [")"])
      ⟨cs.insert name (recorded ++ body), .idle⟩ := by
  induction body generalizing recorded with
  | nil =>
    rw [List.append_nil]
    refine .feed rfl ?_ .done
    simp [Machine.feed, offer, reset]
  | cons t body ih =>
    rw [List.mem_cons, not_or] at hstart hstop
    have hfed : (⟨cs.insert name recorded, .recording name⟩ : Machine).feed {} t =
        .ok ⟨cs.insert name (recorded ++ [t]), .recording name⟩ := by
      simp [Machine.feed, offer, Ne.symm hstart.1, Ne.symm hstop.1, Commands.insert_insert]
    rw [List.cons_append, List.append_cons recorded t body]
    exact .feed rfl hfed (ih hstart.2 hstop.2 (recorded ++ [t]))

/-- A definition is recorded under its name, with the tokens of its body. -/
theorem records_definition {body : List String} (hname : name ≠ "(" ∧ name ≠ ")")
    (hstart : "(" ∉ body) (hstop : ")" ∉ body) :
    Records {} ⟨cs, .idle⟩ (definition name body) ⟨cs.insert name body, .idle⟩ := by
  have hfed : (⟨cs, .unnamed⟩ : Machine).feed {} name =
      .ok ⟨cs.insert name [], .recording name⟩ := by
    simp [Machine.feed, offer, hname]
  exact .start rfl (.feed rfl hfed (records_body hstart hstop []))

end Definition

/-- **Definitions are recorded verbatim.** However the tokens of a definition are cut into
calls, and whatever stacks the calls have, each call succeeds and returns its stack. At
the end nothing is being recorded, and the commands are those from before with the body
under its name: any earlier one is replaced, and the others are as they were. -/
theorem definitions_verbatim (cfg : Config) (hk : cfg.markers = {}) (m : Machine)
    (hidle : m.recorder = .idle) (name : String) (hname : name ≠ "(" ∧ name ≠ ")")
    (body : List String) (hstart : "(" ∉ body) (hstop : ")" ∉ body) (calls : List Call)
    (hcalls : calls.flatMap (·.tokens) = definition name body) :
    (∀ before call after, calls = before ++ call :: after →
      ((session cfg m before).evaluate cfg call.tokens call.stack).result = .ok call.stack) ∧
    session cfg m calls = ⟨m.commands.insert name body, .idle⟩ ∧
    (session cfg m calls).commands[name]? = some body ∧
    ∀ other, other ≠ name → (session cfg m calls).commands[other]? = m.commands[other]? := by
  obtain ⟨cs, r⟩ := m
  obtain rfl : r = .idle := hidle
  have hrecords : Records cfg.markers ⟨cs, .idle⟩ (calls.flatMap (·.tokens))
      ⟨cs.insert name body, .idle⟩ := by
    rw [hk, hcalls]
    exact records_definition hname hstart hstop
  obtain ⟨hend, hresults⟩ := hrecords.session
  refine ⟨hresults, hend, ?_, fun other hother => ?_⟩
  · simp [hend]
  · simp [hend, Std.ExtTreeMap.getElem?_insert, Ne.symm hother]

/-- The name of an operator, with a body that would store, map, call itself and leave a token
that is no number, spread over three calls. It takes the place of an earlier body. -/
theorem definitions_verbatim_in_three_calls :
    let m : Machine := { commands := (∅ : Commands).insert "dup" ["1"] }
    let calls := [⟨["("], ["7"]⟩, ⟨["dup", "store", "map"], []⟩, ⟨["dup", "1x", ")"], ["a", "b"]⟩]
    ((session {} m (calls.take 2)).evaluate {} ["dup", "1x", ")"] ["a", "b"]).result =
      .ok ["a", "b"] ∧
    session {} m calls = ⟨m.commands.insert "dup" ["store", "map", "dup", "1x"], .idle⟩ := by
  intro m calls
  obtain ⟨hresults, hend, _⟩ := definitions_verbatim {} rfl m rfl "dup" (by decide)
    ["store", "map", "dup", "1x"] (by decide) (by decide) calls rfl
  exact ⟨hresults (calls.take 2) ⟨["dup", "1x", ")"], ["a", "b"]⟩ [] rfl, hend⟩

end Machine

end Rpn
