import Rpn.Proofs.Runs
import Rpn.Proofs.Operators

/-! Definitions are lexical.

Where definitions start and end in the tokens of a call can be read off the tokens
alone. `Recorder.scan?` does that: it follows the markers and runs nothing. It agrees
with evaluation because nothing that is run can hold a start marker: none is in a stored
body (`Plain`), and none comes to be on the stack, from which `store` could take it. So
commands and `map` run on a machine that records nothing and leave it that way.

`definitions_lexical` is about any session of a fresh machine to which no start marker
is passed on a stack. -/
namespace Rpn

/-! ### Reading definitions off the tokens -/

namespace Recorder

/-- The recorder after one more token. None if the definition is malformed. -/
def read? (r : Recorder) (token : String) : Option Recorder :=
  match r with
  | idle => some (if token = "(" then unnamed else idle)
  | unnamed => if token = "(" ∨ token = ")" then none else some (recording token)
  | recording name =>
    if token = "(" then none else if token = ")" then some idle else some (recording name)

/-- The recorder after the tokens. -/
def scan? (r : Recorder) : List String → Option Recorder
  | [] => some r
  | t :: ts => (r.read? t).bind (scan? · ts)

/-- The commands after one more token: a name starts an empty body, and what follows it is
added to the body. -/
def record (r : Recorder) (cs : Commands) (token : String) : Commands :=
  match r with
  | idle => cs
  | unnamed => cs.insert token []
  | recording name => if token = ")" then cs else cs.insert name (cs[name]?.getD [] ++ [token])

theorem scan?_singleton (r : Recorder) (t : String) : r.scan? [t] = r.read? t :=
  Option.bind_fun_some _

/-- Tokens without a start marker start no definition. -/
theorem scan?_idle {ts : List String} (h : "(" ∉ ts) : idle.scan? ts = some idle := by
  induction ts with
  | nil => rfl
  | cons t ts ih =>
    rw [List.mem_cons, not_or] at h
    rw [scan?, read?, if_neg (Ne.symm h.1)]
    exact ih h.2

end Recorder

namespace Machine

/-- The machine after one more token that is read but not run. -/
def read? (m : Machine) (token : String) : Option Machine :=
  (m.recorder.read? token).map (⟨m.recorder.record m.commands token, ·⟩)

/-- The machine after tokens that are read but not run. -/
def scan? (m : Machine) : List String → Option Machine
  | [] => some m
  | t :: ts => (m.read? t).bind (scan? · ts)

theorem scan?_singleton (m : Machine) (t : String) : m.scan? [t] = m.read? t :=
  Option.bind_fun_some _

theorem read?_recorder {m m' : Machine} {t : String} (h : m.read? t = some m') :
    m.recorder.read? t = some m'.recorder := by
  obtain ⟨r, hr, rfl⟩ := Option.map_eq_some_iff.mp h
  exact hr

theorem scan?_idle {m : Machine} (hm : m.recorder = .idle) {ts : List String} (h : "(" ∉ ts) :
    m.scan? ts = some m := by
  obtain ⟨cs, r⟩ := m
  obtain rfl : r = .idle := hm
  induction ts with
  | nil => rfl
  | cons t ts ih =>
    rw [List.mem_cons, not_or] at h
    have hread : (⟨cs, .idle⟩ : Machine).read? t = some ⟨cs, .idle⟩ := by
      simp only [read?, Recorder.read?, Recorder.record, if_neg (Ne.symm h.1), Option.map_some]
    rw [scan?, hread]
    exact ih h.2

/-! ### Machines without stored start markers -/

/-- No stored command has a start marker for its name or in its body, and none is being
recorded. -/
structure Plain (m : Machine) : Prop where
  commands : m.commands.All fun name body => name ≠ "(" ∧ "(" ∉ body
  recorder : m.recorder ≠ .recording "("

/-- No stored command stores. -/
def StoreFree (m : Machine) : Prop := m.commands.All fun _ body => "store" ∉ body

theorem plain_fresh : Plain {} := ⟨Commands.all_empty, nofun⟩

theorem Plain.afterFailure {m : Machine} (h : m.Plain) (e : Failure) :
    (m.afterFailure e).Plain := by
  unfold Machine.afterFailure
  split
  · unfold abandon
    split
    · exact ⟨h.commands.erase _, nofun⟩
    · exact ⟨h.commands, nofun⟩
  · exact h

/-- A token that no body has is in no body that another token is added to. -/
theorem not_mem_extended {cs : Commands} {t u : String} (h : cs.All fun _ body => t ∉ body)
    (hu : u ≠ t) (name : String) : t ∉ cs[name]?.getD [] ++ [u] := by
  rw [List.mem_append, List.mem_singleton, not_or]
  refine ⟨?_, Ne.symm hu⟩
  cases hb : cs[name]? with
  | none => exact List.not_mem_nil
  | some body => exact h name body hb

/-- Reading adds to bodies what is read and nothing else. -/
theorem StoreFree.read {m m' : Machine} {t : String} (h : m.StoreFree) (ht : t ≠ "store")
    (hread : m.read? t = some m') : m'.StoreFree := by
  obtain ⟨cs, r⟩ := m
  obtain ⟨r', _, rfl⟩ := Option.map_eq_some_iff.mp hread
  unfold StoreFree at h ⊢
  cases r with
  | idle => exact h
  | unnamed => exact h.insert List.not_mem_nil
  | recording name =>
    simp only [Recorder.record]
    split
    · exact h
    · exact h.insert (not_mem_extended h ht name)

/-- No start marker is read into a definition. -/
theorem Plain.read {m m' : Machine} {t : String} (h : m.Plain) (hread : m.read? t = some m') :
    m'.Plain := by
  obtain ⟨cs, r⟩ := m
  have hc := h.commands
  obtain ⟨r', hr, rfl⟩ := Option.map_eq_some_iff.mp hread
  cases r with
  | idle =>
    refine ⟨hc, ?_⟩
    obtain rfl := Option.some.inj hr
    split <;> nofun
  | unnamed =>
    simp only [Recorder.read?] at hr
    split at hr
    · cases hr
    case isFalse hmark =>
      obtain rfl := Option.some.inj hr
      have ht : t ≠ "(" := fun ht => hmark (.inl ht)
      exact ⟨hc.insert ⟨ht, List.not_mem_nil⟩, fun heq => ht (Recorder.recording.inj heq)⟩
  | recording name =>
    have hname : name ≠ "(" := fun heq => h.recorder (congrArg Recorder.recording heq)
    simp only [Recorder.read?] at hr
    simp only [Recorder.record]
    split at hr
    · cases hr
    · split at hr
      · obtain rfl := Option.some.inj hr
        rw [if_pos ‹_›]
        exact ⟨hc, nofun⟩
      · obtain rfl := Option.some.inj hr
        rw [if_neg ‹_›]
        have hbodies := not_mem_extended (fun n b hb => (hc n b hb).2) ‹t ≠ "("› name
        exact ⟨hc.insert ⟨hname, hbodies⟩, h.recorder⟩

/-! ### Evaluation follows the text -/

/-- The state that tokens lead to, as far as definitions go: the recorder is where the
tokens alone lead, and so are the commands if nothing is stored. -/
structure Follows (m : Machine) (ts : List String) (st : State) : Prop where
  plain : st.1.Plain
  stack : "(" ∉ st.2
  recorder : m.recorder.scan? ts = some st.1.recorder
  commands : m.StoreFree → "store" ∉ ts → m.scan? ts = some st.1

/-- A definition is malformed only if the tokens alone say so. -/
def Blames (m : Machine) (ts : List String) (e : Failure) : Prop :=
  e.kind = .malformedDefinition → m.recorder.scan? ts = none

/-- Evaluation of definitions by their text. -/
def Lexical (eval : Evaluator) : Prop :=
  ∀ m s ts, m.Plain → "(" ∉ s → Ends (Follows m ts) (Blames m ts) (eval (m, s) ts)

/-- While a definition is recorded, evaluation is reading. -/
theorem read?_of_feed {m m' : Machine} (ha : m.recorder.isArmed = true) {t : String}
    (h : m.feed {} t = .ok m') : m.read? t = some m' := by
  obtain ⟨cs, r⟩ := m
  by_cases hopen : t = "("
  · simp [feed, offer, hopen] at h
  · cases r with
    | idle => cases ha
    | unnamed =>
      by_cases hclose : t = ")"
      · simp [feed, offer, hclose] at h
      · simpa [feed, offer, read?, Recorder.read?, Recorder.record, hopen, hclose] using h
    | recording name =>
      cases hb : cs[name]? with
      | none => simp [feed, offer, hopen, hb] at h
      | some body =>
        by_cases hclose : t = ")"
        · simpa [feed, offer, read?, Recorder.read?, Recorder.record, hopen, hclose, hb, reset]
            using h
        · simpa [feed, offer, read?, Recorder.read?, Recorder.record, hopen, hclose, hb] using h

theorem read?_of_feed_error {m : Machine} (ha : m.recorder.isArmed = true) {t : String} {f : Fault}
    (h : m.feed {} t = .error f) (hf : f.kind = .malformedDefinition) :
    m.recorder.read? t = none := by
  obtain ⟨cs, r⟩ := m
  by_cases hopen : t = "("
  · cases r with
    | idle => cases ha
    | unnamed => simp [Recorder.read?, hopen]
    | recording name => simp [Recorder.read?, hopen]
  · cases r with
    | idle => cases ha
    | unnamed =>
      by_cases hclose : t = ")"
      · simp [Recorder.read?, hclose]
      · simp [feed, offer, hopen, hclose] at h
    | recording name =>
      cases hb : cs[name]? with
      | none =>
        obtain rfl : Fault.noCommand (some name) = f := by simpa [feed, offer, hopen, hb] using h
        cases hf
      | some body => by_cases hclose : t = ")" <;> simp [feed, offer, hopen, hb, hclose] at h

/-- What is only read leads to where reading leads. -/
theorem follows_of_read {m m' : Machine} (hm : m.Plain) {t : String} (h : m.read? t = some m')
    {s : Stack} (hs : "(" ∉ s) : Follows m [t] (m', s) where
  plain := hm.read h
  stack := hs
  recorder := by
    rw [Recorder.scan?_singleton]
    exact read?_recorder h
  commands := by
    intro _ _
    rw [scan?_singleton]
    exact h

/-- One token and then more. -/
theorem Follows.cons {m : Machine} {t : String} {ts : List String} {st st' : State}
    (h : Follows m [t] st) (h' : Follows st.1 ts st') : Follows m (t :: ts) st' where
  plain := h'.plain
  stack := h'.stack
  recorder := by
    have hread := h.recorder
    rw [Recorder.scan?_singleton] at hread
    rw [Recorder.scan?, hread]
    exact h'.recorder
  commands := by
    intro hfree hts
    rw [List.mem_cons, not_or] at hts
    have hread := h.commands hfree (fun hmem => hts.1 (List.mem_singleton.mp hmem))
    rw [scan?_singleton] at hread
    rw [scan?, hread]
    exact h'.commands (hfree.read (Ne.symm hts.1) hread) hts.2

/-! ### What runs starts no definition -/

/-- A machine that commands have run on: it records nothing, and is the one from before
unless something was stored. -/
structure Undisturbed (m m' : Machine) : Prop where
  plain : m'.Plain
  idle : m'.recorder = .idle
  same : m.StoreFree → m' = m

theorem Undisturbed.refl {m : Machine} (hm : m.Plain) (hidle : m.recorder = .idle) :
    Undisturbed m m :=
  ⟨hm, hidle, fun _ => rfl⟩

/-- The end of what runs on the machine without a definition. -/
def Inert (m : Machine) : Except Failure State → Prop :=
  Ends (fun st => Undisturbed m st.1 ∧ "(" ∉ st.2) (·.kind ≠ .malformedDefinition)

/-- On an idle machine, what is inert follows the text. -/
theorem Inert.follows {m : Machine} {r : Except Failure State} (h : m.Inert r)
    (hidle : m.recorder = .idle) {t : String} (ht : t ≠ "(") :
    Ends (Follows m [t]) (Blames m [t]) r := by
  have hopen : "(" ∉ [t] := fun hmem => ht (List.mem_singleton.mp hmem).symm
  refine h.mono (fun st hst => ⟨hst.1.plain, hst.2, ?_, ?_⟩) (fun e he hkind => absurd hkind he)
  · rw [hidle, hst.1.idle]
    exact Recorder.scan?_idle hopen
  · intro hfree _
    rw [hst.1.same hfree]
    exact scan?_idle hidle hopen

section Nested
variable {nested : Evaluator} {m m' : Machine} {s : Stack} {name : String} {body : List String}

/-- Stored bodies are inert. -/
theorem Lexical.inert (h : Lexical nested) (hm : m.Plain) (hm' : Undisturbed m m') (hs : "(" ∉ s)
    (hbody : m.commands[name]? = some body) : m.Inert (nested (m', s) body) := by
  have hopen : "(" ∉ body := (hm.commands name body hbody).2
  have hscan : m'.recorder.scan? body = some .idle := by
    rw [hm'.idle]
    exact Recorder.scan?_idle hopen
  refine (h m' s body hm'.plain hs).mono (fun st hst => ⟨⟨hst.plain, ?_, ?_⟩, hst.stack⟩) ?_
  · have hrec := hst.recorder
    rw [hscan] at hrec
    exact (Option.some.inj hrec).symm
  · intro hfree
    obtain rfl := hm'.same hfree
    have hcommands := hst.commands hfree (hfree name body hbody)
    rw [scan?_idle hm'.idle hopen] at hcommands
    exact (Option.some.inj hcommands).symm
  · intro e he hkind
    have hnone := he hkind
    rw [hscan] at hnone
    cases hnone

theorem Lexical.enter (h : Lexical nested) (cfg : Config) (depth : Nat) (t : String) (n : Nat)
    (hm : m.Plain) (hm' : Undisturbed m m') (hs : "(" ∉ s)
    (hbody : m.commands[name]? = some body) :
    m.Inert (enter cfg depth nested (.located · t n) (m', s) body) := by
  unfold Machine.enter
  split
  · exact fun hkind => nomatch hkind
  · exact h.inert hm hm' hs hbody

/-- `map` is inert. The machines between its tokens are undisturbed. -/
theorem Lexical.map (h : Lexical nested) (cfg : Config) (depth : Nat) (t : String) (n : Nat)
    (hm : m.Plain) (hidle : m.recorder = .idle) (hs : "(" ∉ s)
    (hbody : m.commands[name]? = some body) :
    m.Inert (mapTokens (Machine.enter cfg depth nested (.located · t n) · body) m [] s) := by
  refine (mapTokens_ends (M := Undisturbed m) (P := (· ≠ "(")) ?_ s m [] (.refl hm hidle) nofun
    (List.forall_mem_ne'.mpr hs)).mono
    (fun st hst => ⟨hst.1, List.forall_mem_ne'.mp hst.2⟩) (fun e he => he)
  intro m' u hm' hu
  have hone : "(" ∉ [u] := fun hmem => hu (List.mem_singleton.mp hmem).symm
  exact (h.enter cfg depth t n hm hm' hone hbody).mono
    (fun st hst => ⟨hst.1, List.forall_mem_ne'.mpr hst.2⟩) (fun e he => he)

end Nested

theorem not_isWord_start : ¬ IsWord "(" := fun h => absurd (h.chars '(' (by decide)) (by decide)

theorem kind_ne_of_isOperand {f : Fault} (h : f.isOperand = true) :
    f.kind ≠ .malformedDefinition := by
  intro hkind
  simp [Fault.isOperand, hkind] at h

/-- Operators are inert: what they write is no start marker. -/
theorem builtin_inert {m : Machine} (hm : m.Plain) (hidle : m.recorder = .idle) {t : String}
    {b : Builtin} (h : m.lookup t = .builtin b) {s : Stack} (hs : "(" ∉ s) (n : Nat) :
    m.Inert (((b.apply s).mapError (.located · t n)).map (m, ·)) := by
  cases hr : b.apply s with
  | error f =>
    rcases Builtin.fault_of_apply (lookup_builtin h) hr with hoperands | ⟨-, xs, rfl, -⟩
    · exact kind_ne_of_isOperand hoperands.isOperand
    · exact nofun
  | ok s' =>
    refine ⟨.refl hm hidle, fun hmem => ?_⟩
    rcases Builtin.mem_of_apply (lookup_builtin h) hr _ hmem with hmem | hwrites
    · exact hs hmem
    · exact not_isWord_start hwrites.isNumeric.isWord

/-- What is stored was on the stack. -/
theorem store_yields {m : Machine} (hm : m.Plain) {s : Stack} (hs : "(" ∉ s) :
    Yields (fun st => st.1.Plain ∧ st.1.recorder = m.recorder ∧ "(" ∉ st.2) (m.store s) := by
  refine s.popToken_yields.bind fun p hp => (p.1.popToken_yields).bind fun q hq => ?_
  rw [hp, hq] at hs
  simp only [List.mem_append, List.mem_singleton, not_or] at hs
  obtain ⟨⟨hrest, hvalue⟩, hname⟩ := hs
  have hbody : "(" ∉ [q.2] := fun hmem => hvalue (List.mem_singleton.mp hmem)
  exact ⟨⟨hm.commands.insert ⟨Ne.symm hname, hbody⟩, hm.recorder⟩, rfl, hrest⟩

theorem store_follows {m : Machine} (hm : m.Plain) (hidle : m.recorder = .idle) {s : Stack}
    (hs : "(" ∉ s) (n : Nat) :
    Ends (Follows m ["store"]) (Blames m ["store"])
      ((m.store s).mapError (.located · "store" n)) := by
  have hyields := store_yields hm hs
  cases hr : m.store s with
  | error f =>
    rw [hr] at hyields
    exact fun hkind => absurd hkind (kind_ne_of_isOperand hyields.isOperand)
  | ok st =>
    rw [hr] at hyields
    obtain ⟨hplain, hrecorder, hstack⟩ := hyields
    refine ⟨hplain, hstack, ?_, fun _ hmem => absurd (List.mem_singleton_self _) hmem⟩
    rw [hrecorder, hidle]
    rfl

/-! ### Steps and runs -/

theorem step_armed_follows {cfg : Config} (hk : cfg.markers = {}) (depth : Nat)
    (nested : Evaluator) {m : Machine} (ha : m.recorder.isArmed = true) (hm : m.Plain) {s : Stack}
    (hs : "(" ∉ s) (t : String) :
    Ends (Follows m [t]) (Blames m [t]) (step cfg depth nested (m, s) t) := by
  rw [step_armed cfg depth nested ha, hk]
  cases hfeed : m.feed {} t with
  | ok m' => exact follows_of_read hm (read?_of_feed ha hfeed) hs
  | error f =>
    intro hkind
    rw [Recorder.scan?_singleton]
    exact read?_of_feed_error ha hfeed hkind

theorem step_idle_follows (cfg : Config) (depth : Nat) {nested : Evaluator} (h : Lexical nested)
    {m : Machine} (hidle : m.recorder = .idle) (hm : m.Plain) {s : Stack} (hs : "(" ∉ s)
    (t : String) : Ends (Follows m [t]) (Blames m [t]) (step cfg depth nested (m, s) t) := by
  rw [step_idle cfg depth nested (by rw [hidle]; rfl)]
  by_cases ht : t = "("
  · have hmeaning : m.lookup t = .special .define := lookup_special_iff.mpr ht
    rw [hmeaning, ht]
    refine follows_of_read hm ?_ hs
    rw [read?, hidle]
    rfl
  cases hmeaning : m.lookup t with
  | special f =>
    obtain rfl := lookup_special_iff.mp hmeaning
    cases f with
    | define => exact absurd rfl ht
    | store => exact store_follows hm hidle hs s.length
    | map =>
      refine Inert.follows ?_ hidle ht
      simp only [perform]
      cases hbody : m.commands[cfg.lambda]? with
      | none => exact fun hkind => nomatch hkind
      | some body => exact h.map cfg depth _ s.length hm hidle hs hbody
  | builtin b => exact (builtin_inert hm hidle hmeaning hs s.length).follows hidle ht
  | user body =>
    have hbody := lookup_user hmeaning
    exact (h.enter cfg depth t s.length hm (.refl hm hidle) hs hbody).follows hidle ht
  | literal =>
    have hstack : "(" ∉ s ++ [t] := by
      rw [List.mem_append, List.mem_singleton, not_or]
      exact ⟨hs, Ne.symm ht⟩
    have hinert : m.Inert (.ok (m, s ++ [t])) := ⟨.refl hm hidle, hstack⟩
    exact hinert.follows hidle ht

theorem step_follows {cfg : Config} (hk : cfg.markers = {}) (depth : Nat) {nested : Evaluator}
    (h : Lexical nested) {m : Machine} (hm : m.Plain) {s : Stack} (hs : "(" ∉ s) (t : String) :
    Ends (Follows m [t]) (Blames m [t]) (step cfg depth nested (m, s) t) := by
  cases hr : m.recorder with
  | idle => exact step_idle_follows cfg depth h hr hm hs t
  | _ => exact step_armed_follows hk depth nested (by rw [hr]; rfl) hm hs t

theorem lexical_steps {cfg : Config} (hk : cfg.markers = {}) (depth : Nat) {nested : Evaluator}
    (h : Lexical nested) : Lexical (steps (step cfg depth nested)) := by
  intro m s ts hm hs
  induction ts generalizing m s with
  | nil => exact ⟨hm, hs, rfl, fun _ _ => rfl⟩
  | cons t ts ih =>
    have hstep := step_follows hk depth h hm hs t
    rw [steps_cons]
    cases hr : step cfg depth nested (m, s) t with
    | error e =>
      rw [hr] at hstep
      intro hkind
      have hread := hstep hkind
      rw [Recorder.scan?_singleton] at hread
      rw [Recorder.scan?, hread]
      rfl
    | ok st =>
      rw [hr] at hstep
      refine (ih st.1 st.2 hstep.plain hstep.stack).mono (fun st' hst' => hstep.cons hst') ?_
      intro e he hkind
      have hread := hstep.recorder
      rw [Recorder.scan?_singleton] at hread
      rw [Recorder.scan?, hread]
      exact he hkind

/-- Every level of evaluation follows the text. -/
theorem run_lexical {cfg : Config} (hk : cfg.markers = {}) (levels depth : Nat) :
    Lexical (run cfg levels depth) :=
  run_induction cfg (fun _ _ _ _ _ hkind => nomatch hkind)
    (fun depth _ h => lexical_steps hk depth h) levels depth

/-! ### Sessions -/

theorem evaluate_plain {cfg : Config} (hk : cfg.markers = {}) {m : Machine} (hm : m.Plain)
    (tokens : List String) {s : Stack} (hs : "(" ∉ s) :
    (m.evaluate cfg tokens s).machine.Plain := by
  cases hr : (m.evaluate cfg tokens s).result with
  | ok s' =>
    have hends := run_lexical hk cfg.ceiling 0 m s tokens hm hs
    exact ((evaluate_ends hends).1 s' hr).plain
  | error e =>
    rw [evaluate_machine_of_error hr]
    exact hm.afterFailure e

theorem session_plain {cfg : Config} (hk : cfg.markers = {}) {m : Machine} (hm : m.Plain)
    {calls : List Call} (hcalls : ∀ call ∈ calls, "(" ∉ call.stack) :
    (session cfg m calls).Plain := by
  induction calls generalizing m with
  | nil => exact hm
  | cons call calls ih =>
    rw [List.forall_mem_cons] at hcalls
    exact ih (evaluate_plain hk hm call.tokens hcalls.1) hcalls.2

/-- **Definitions are lexical.** After any session to which no start marker was passed on a
stack, and one more evaluation:

* no start marker is a name, in a body, or on the stack that is returned;
* on success, the recorder is where the tokens alone lead;
* if the tokens alone are malformed there is no success, and only then is a definition
  found malformed;
* if nothing stores, on success the commands are those that the tokens alone define. -/
theorem definitions_lexical (cfg : Config) (hk : cfg.markers = {}) (calls : List Call)
    (hcalls : ∀ call ∈ calls, "(" ∉ call.stack) (tokens : List String) (s : Stack)
    (hs : "(" ∉ s) :
    let m := session cfg {} calls
    let o := m.evaluate cfg tokens s
    ((o.machine.commands.All fun name body => name ≠ "(" ∧ "(" ∉ body) ∧
      ∀ s', o.result = .ok s' → "(" ∉ s') ∧
    (∀ s', o.result = .ok s' → m.recorder.scan? tokens = some o.machine.recorder) ∧
    ((m.recorder.scan? tokens = none → ∃ e, o.result = .error e) ∧
      ∀ e, o.result = .error e → e.kind = .malformedDefinition → m.recorder.scan? tokens = none) ∧
    (m.StoreFree → "store" ∉ tokens →
      ∀ s', o.result = .ok s' → m.scan? tokens = some o.machine) := by
  intro m o
  have hm : m.Plain := session_plain hk plain_fresh hcalls
  obtain ⟨hok, hblames⟩ := evaluate_ends (run_lexical hk cfg.ceiling 0 m s tokens hm hs)
  refine ⟨⟨(evaluate_plain hk hm tokens hs).commands, fun s' h => (hok s' h).stack⟩,
    fun s' h => (hok s' h).recorder, ⟨fun hscan => ?_, hblames⟩,
    fun hfree hstore s' h => (hok s' h).commands hfree hstore⟩
  cases hr : o.result with
  | error e => exact ⟨e, rfl⟩
  | ok s' =>
    have hrecorder := (hok s' hr).recorder
    rw [hscan] at hrecorder
    cases hrecorder

/-- A definition that spans calls, of which one fails, is ended, mapped, and followed by the
start of another. -/
theorem definitions_lexical_across_calls :
    let m := session {} {} [⟨["(", "twice"], []⟩, ⟨["dup", ")", "drop"], []⟩]
    let tokens := ["dup", ")", "(", "_", "twice", ")", "map", "(", "thrice"]
    let o := m.evaluate {} tokens ["2", "3"]
    o.result = .ok ["2", "2", "3", "3"] ∧ o.machine.recorder = .recording "thrice" ∧
      m.scan? tokens = some o.machine := by
  intro m tokens o
  have hresult : o.result = .ok ["2", "2", "3", "3"] := rfl
  have hfree : m.StoreFree := Commands.all_empty.insert List.not_mem_nil
  have h := definitions_lexical {} rfl [⟨["(", "twice"], []⟩, ⟨["dup", ")", "drop"], []⟩]
    (by decide) tokens ["2", "3"] (by decide)
  exact ⟨hresult, rfl, h.2.2.2 hfree (by decide) _ hresult⟩

end Machine

end Rpn
