import Mathlib.Control.Monad.Basic
import Rpn.Proofs.Rollback

/-! `map` runs the anonymous function on every token by itself.

The tokens are run one after the other, on a machine that any of them could change for
those after it: through user commands, through a `map` in the body, and at any depth. If
no stored body has a start marker or stores, none of them does (`below_keeps`). `map` is
then what the anonymous function makes of each token alone, joined (`mapStack_eq`), and
`map_elementwise` follows from what is true of any function on lists of that form.

`mapStack` is `map` apart from the step that runs it, on a machine that is changed in
place: faults of its own have no place yet, and the machine is there after a failure
too. `step_map` says that it is the `map` of evaluation. -/
namespace Rpn.Machine

/-! ### `map` by itself -/

/-- A failure as `map` raises it: a fault of its own, or a failure that comes from inside a
body and has its place. -/
inductive Raised where
  | own (fault : Fault)
  | inside (failure : Failure)
  deriving DecidableEq

/-- The failure as the step at a token lets it through. -/
def Raised.placed (token : String) (size : Nat) : Raised → Failure
  | own f => .located f token size
  | inside e => e

/-- The machine after `map` and its result. -/
structure Mapped where
  machine : Machine
  result : Except Raised Stack

def Mapped.placed (o : Mapped) (token : String) (size : Nat) : Outcome :=
  ⟨o.machine, o.result.mapError (·.placed token size)⟩

/-- The anonymous function on one token. -/
def mapOne (cfg : Config) (depth : Nat) (nested : State → List String → Outcome)
    (body : List String) (m : Machine) (t : String) : Mapped :=
  if cfg.maxDepth ≤ depth then ⟨m, .error (.own (.nestedDeeper cfg.maxDepth))⟩
  else ⟨(nested (m, [t]) body).machine, (nested (m, [t]) body).result.mapError .inside⟩

/-- Token by token, each on the machine that the one before left. -/
def mapEach (f : Machine → String → Mapped) (m : Machine) : List String → Mapped
  | [] => ⟨m, .ok []⟩
  | t :: ts =>
    match f m t with
    | ⟨m', .ok out⟩ => ⟨(mapEach f m' ts).machine, (mapEach f m' ts).result.map (out ++ ·)⟩
    | ⟨m', .error r⟩ => ⟨m', .error r⟩

/-- `map` at a depth, with the given number of levels below. -/
def mapStack (cfg : Config) (levels depth : Nat) (m : Machine) (s : Stack) : Mapped :=
  match m.commands[cfg.lambda]? with
  | none => ⟨m, .error (.own (.noLambda cfg.lambda))⟩
  | some body => mapEach (mapOne cfg depth (InPlace.below cfg levels depth) body) m s

/-! ### The `map` of evaluation -/

section Placed
variable (cfg : Config) (depth : Nat) (nested : State → List String → Outcome)
  (token : String) (size : Nat) (body : List String)

theorem enter_eq_placed (m : Machine) (t : String) :
    InPlace.enter cfg depth nested (.located · token size) (m, [t]) body =
      (mapOne cfg depth nested body m t).placed token size := by
  unfold InPlace.enter mapOne
  by_cases hroom : cfg.maxDepth ≤ depth
  · rw [if_pos hroom, if_pos hroom]
    rfl
  · rw [if_neg hroom, if_neg hroom]
    obtain ⟨m', result⟩ := nested (m, [t]) body
    cases result <;> rfl

theorem mapTokens_eq_placed (ts : List String) (m : Machine) (done : Stack) :
    InPlace.mapTokens (InPlace.enter cfg depth nested (.located · token size) · body) m done ts =
      let each := mapEach (mapOne cfg depth nested body) m ts
      Mapped.placed ⟨each.machine, each.result.map (done.reverse ++ ·)⟩ token size := by
  induction ts generalizing m done with
  | nil =>
    show (⟨m, .ok done.reverse⟩ : Outcome) = ⟨m, .ok (done.reverse ++ [])⟩
    rw [List.append_nil]
  | cons t ts ih =>
    unfold InPlace.mapTokens mapEach
    rw [enter_eq_placed]
    obtain ⟨m', result⟩ := mapOne cfg depth nested body m t
    cases result with
    | error r => rfl
    | ok out =>
      refine (ih m' (out.reverse ++ done)).trans ?_
      simp only [List.reverse_append, List.reverse_reverse]
      cases (mapEach (mapOne cfg depth nested body) m' ts).result <;> simp [Except.map]

end Placed

/-- A step that maps does what `map` does by itself, and gives its faults their place. -/
theorem step_map (cfg : Config) (levels depth : Nat) {m : Machine}
    (hidle : m.recorder = .idle) (s : Stack) :
    InPlace.step cfg depth (InPlace.below cfg levels depth) (m, s) "map" =
      (mapStack cfg levels depth m s).placed "map" s.length := by
  have hmeaning : m.lookup "map" = .special .map := lookup_special_iff.mpr rfl
  simp only [InPlace.step, hidle, Recorder.isArmed, Bool.false_eq_true, if_false, hmeaning,
    mapStack]
  cases m.commands[cfg.lambda]? with
  | none => rfl
  | some body =>
    simp only [mapTokens_eq_placed, List.reverse_nil, List.nil_append, Mapped.placed]
    cases (mapEach (mapOne cfg depth (InPlace.below cfg levels depth) body) m s).result <;> rfl

/-! ### Bodies that change nothing -/

/-- Nothing is being recorded, and no stored body starts a definition or stores. -/
structure Passive (m : Machine) : Prop where
  idle : m.recorder = .idle
  bodies : m.commands.All fun _ body => "(" ∉ body ∧ "store" ∉ body

namespace InPlace

/-- Stored bodies leave the machine as it is, also when they fail. -/
def Keeps (m : Machine) (nested : State → List String → Outcome) : Prop :=
  ∀ (name : String) (body : List String), m.commands[name]? = some body →
    ∀ s, (nested (m, s) body).machine = m

section Keeps
variable {cfg : Config} {depth : Nat} {nested : State → List String → Outcome} {m : Machine}

theorem enter_machine {body : List String} (h : ∀ s, (nested (m, s) body).machine = m)
    (here : Fault → Failure) (s : Stack) :
    (enter cfg depth nested here (m, s) body).machine = m := by
  unfold enter
  split
  · rfl
  · exact h s

theorem mapTokens_machine {f : State → Outcome} (h : ∀ s, (f (m, s)).machine = m)
    (ts : List String) (done : Stack) : (mapTokens f m done ts).machine = m := by
  induction ts generalizing done with
  | nil => rfl
  | cons t ts ih =>
    have ht := h [t]
    unfold mapTokens
    generalize f (m, [t]) = o at ht ⊢
    obtain ⟨m', result⟩ := o
    obtain rfl : m' = m := ht
    cases result with
    | ok out => exact ih _
    | error e => rfl

/-- A token that neither starts a definition nor stores leaves a passive machine as it is, if
stored bodies do. -/
theorem step_machine (hm : m.Passive) (hn : Keeps m nested) (s : Stack) {t : String}
    (hstart : t ≠ "(") (hstore : t ≠ "store") : (step cfg depth nested (m, s) t).machine = m := by
  simp only [step, hm.idle, Recorder.isArmed, Bool.false_eq_true, if_false]
  cases hmeaning : m.lookup t with
  | special f =>
    obtain rfl := lookup_special_iff.mp hmeaning
    cases f with
    | define => exact absurd rfl hstart
    | store => exact absurd rfl hstore
    | map =>
      cases hbody : m.commands[cfg.lambda]? with
      | none => rfl
      | some body => exact mapTokens_machine (enter_machine (hn _ body hbody) _) s []
  | builtin b => rfl
  | user body => exact enter_machine (hn t body (lookup_user hmeaning)) _ s
  | literal => rfl

theorem steps_machine {f : State → String → Outcome} (ts : List String)
    (h : ∀ t ∈ ts, ∀ s, (f (m, s) t).machine = m) (s : Stack) :
    (steps f (m, s) ts).machine = m := by
  induction ts generalizing s with
  | nil => rfl
  | cons t ts ih =>
    rw [List.forall_mem_cons] at h
    have ht := h.1 s
    unfold steps
    generalize f (m, s) t = o at ht ⊢
    obtain ⟨m', result⟩ := o
    obtain rfl : m' = m := ht
    cases result with
    | ok s' => exact ih h.2 s'
    | error e => rfl

theorem steps_keeps (hm : m.Passive) (hn : Keeps m nested) :
    Keeps m (steps (step cfg depth nested)) := by
  intro name body hbody s
  obtain ⟨hstart, hstore⟩ := hm.bodies name body hbody
  refine steps_machine body (fun t ht s => step_machine hm hn s ?_ ?_) s
  · rintro rfl
    exact hstart ht
  · rintro rfl
    exact hstore ht

end Keeps

/-- The stored bodies of a passive machine leave it as it is, whatever is below them. -/
theorem below_keeps (cfg : Config) {m : Machine} (hm : m.Passive) (levels depth : Nat) :
    Keeps m (below cfg levels depth) := by
  induction levels generalizing depth with
  | zero => exact fun _ _ _ _ => rfl
  | succ levels ih =>
    -- bodies may call and map again, so the induction is on the levels that are left
    show Keeps m (run cfg levels (depth + 1))
    rw [run_eq_steps]
    exact steps_keeps hm (ih (depth + 1))

end InPlace

/-! ### Tokens that are mapped alone -/

/-- What `f` makes of each token, joined, or the first failure. -/
def joined (f : String → Except Raised Stack) (s : Stack) : Except Raised Stack :=
  (s.mapM f).map List.flatten

section Joined
variable {f : String → Except Raised Stack}

theorem joined_cons (t : String) (s : Stack) :
    joined f (t :: s) = (f t).bind fun out => (joined f s).map (out ++ ·) := by
  unfold joined
  rw [List.mapM_cons]
  cases f t with
  | error r => rfl
  | ok out => cases s.mapM f <;> rfl

theorem joined_singleton (t : String) : joined f [t] = f t := by
  rw [joined_cons]
  cases f t with
  | error r => rfl
  | ok out => exact congrArg Except.ok (List.append_nil out)

theorem joined_append_eq_ok_iff {s u out : Stack} :
    joined f (s ++ u) = .ok out ↔
      ∃ out₁ out₂, joined f s = .ok out₁ ∧ joined f u = .ok out₂ ∧ out = out₁ ++ out₂ := by
  unfold joined
  rw [List.mapM_append]
  cases s.mapM f with
  | error r => simp [bind, Except.bind, Except.map]
  | ok outs =>
    cases u.mapM f <;>
      simp [bind, Except.bind, pure, Except.pure, Except.map, eq_comm]

/-- The first token that fails decides how. -/
theorem joined_eq_error_iff {s : Stack} {r : Raised} :
    joined f s = .error r ↔ ∃ before t after, s = before ++ t :: after ∧
      (∀ u ∈ before, ∃ out, f u = .ok out) ∧ f t = .error r := by
  induction s with
  | nil => simp [joined, Except.map, pure, Except.pure]
  | cons u s ih =>
    rw [joined_cons]
    cases hu : f u with
    | error r' =>
      constructor
      · intro h
        obtain rfl := Except.error.inj h
        exact ⟨[], u, s, rfl, nofun, hu⟩
      · rintro ⟨before, t, after, hs, hbefore, ht⟩
        cases before with
        | nil =>
          obtain ⟨rfl, rfl⟩ := List.cons.inj hs
          exact hu.symm.trans ht
        | cons v before =>
          obtain ⟨rfl, rfl⟩ := List.cons.inj hs
          obtain ⟨out, hout⟩ := hbefore u (List.mem_cons_self ..)
          rw [hu] at hout
          cases hout
    | ok out =>
      have hrest : ((joined f s).map (out ++ ·)) = .error r ↔ joined f s = .error r := by
        cases joined f s <;> simp [Except.map]
      rw [Except.bind, hrest, ih]
      constructor
      · rintro ⟨before, t, after, rfl, hbefore, ht⟩
        exact ⟨u :: before, t, after, rfl, List.forall_mem_cons.mpr ⟨⟨out, hu⟩, hbefore⟩, ht⟩
      · rintro ⟨before, t, after, hs, hbefore, ht⟩
        cases before with
        | nil =>
          obtain ⟨rfl, rfl⟩ := List.cons.inj hs
          rw [hu] at ht
          cases ht
        | cons v before =>
          obtain ⟨rfl, rfl⟩ := List.cons.inj hs
          exact ⟨before, t, after, rfl, (List.forall_mem_cons.mp hbefore).2, ht⟩

end Joined

theorem mapEach_eq_joined {f : Machine → String → Mapped} {m : Machine}
    (h : ∀ t, (f m t).machine = m) (s : Stack) :
    mapEach f m s = ⟨m, joined (fun t => (f m t).result) s⟩ := by
  induction s with
  | nil => rfl
  | cons t s ih =>
    have ht := h t
    rw [joined_cons]
    unfold mapEach
    generalize f m t = o at ht ⊢
    obtain ⟨m', result⟩ := o
    obtain rfl : m' = m := ht
    cases result with
    | error r => rfl
    | ok out => simp only [ih, Except.bind]

theorem mapOne_machine (cfg : Config) {m : Machine} (hm : m.Passive) (levels depth : Nat)
    {body : List String} (hbody : m.commands[cfg.lambda]? = some body) (t : String) :
    (mapOne cfg depth (InPlace.below cfg levels depth) body m t).machine = m := by
  unfold mapOne
  split
  · rfl
  · exact InPlace.below_keeps cfg hm levels depth _ body hbody [t]

/-- On a passive machine `map` joins what the anonymous function makes of each token alone. -/
theorem mapStack_eq (cfg : Config) {m : Machine} (hm : m.Passive) (levels depth : Nat)
    {body : List String} (hbody : m.commands[cfg.lambda]? = some body) (s : Stack) :
    mapStack cfg levels depth m s = ⟨m, joined (fun t =>
      (mapOne cfg depth (InPlace.below cfg levels depth) body m t).result) s⟩ := by
  simp only [mapStack, hbody]
  exact mapEach_eq_joined (mapOne_machine cfg hm levels depth hbody) s

/-- **`map` is element-wise.** On a machine that records nothing and whose stored bodies
neither start definitions nor store, at any depth:

* the step at `map` does what `map` does, and gives its own faults their place;
* `map` leaves the machine as it is, whether it succeeds or fails;
* it succeeds on joined stacks exactly if it does on each, with the results joined;
* without an anonymous function it fails for that, the empty stack included;
* with one, it fails as it does on the first token, alone, that it fails on. -/
theorem map_elementwise (cfg : Config) (levels depth : Nat) (m : Machine) (hm : m.Passive) :
    let map := mapStack cfg levels depth m
    (∀ s, InPlace.step cfg depth (InPlace.below cfg levels depth) (m, s) "map" =
        (map s).placed "map" s.length ∧
      step cfg depth (below cfg levels depth) (m, s) "map" =
        ((map s).placed "map" s.length).state) ∧
    (∀ s, (map s).machine = m) ∧
    (∀ s₁ s₂ out, (map (s₁ ++ s₂)).result = .ok out ↔ ∃ out₁ out₂,
      (map s₁).result = .ok out₁ ∧ (map s₂).result = .ok out₂ ∧ out = out₁ ++ out₂) ∧
    (m.commands[cfg.lambda]? = none →
      ∀ s, (map s).result = .error (.own (.noLambda cfg.lambda))) ∧
    (m.commands[cfg.lambda]? ≠ none → ∀ s r, (map s).result = .error r ↔
      ∃ before t after, s = before ++ t :: after ∧
        (∀ u ∈ before, ∃ out, (map [u]).result = .ok out) ∧ (map [t]).result = .error r) := by
  intro map
  have hstep (s : Stack) := step_map cfg levels depth hm.idle s
  refine ⟨fun s => ⟨hstep s, ?_⟩, ?_⟩
  · rw [← hstep s]
    exact (InPlace.step_state (InPlace.below_state cfg levels depth) cfg depth (m, s) "map").symm
  cases hbody : m.commands[cfg.lambda]? with
  | none =>
    have hmap (s : Stack) : map s = ⟨m, .error (.own (.noLambda cfg.lambda))⟩ := by
      simp only [map, mapStack, hbody]
    simp [hmap]
  | some body =>
    have hmap (s : Stack) : map s = ⟨m, joined (fun t => _) s⟩ :=
      mapStack_eq cfg hm levels depth hbody s
    simp only [hmap, joined_singleton]
    exact ⟨fun _ => trivial, fun _ _ _ => joined_append_eq_ok_iff, nofun,
      fun _ _ _ => joined_eq_error_iff⟩

/-- Squares, of stacks with and without a token that is no number. -/
theorem map_elementwise_squares :
    let m : Machine := { commands := (∅ : Commands).insert "_" ["dup", "x"] }
    (mapStack {} 3 0 m (["3"] ++ ["4", "5"])).result = .ok (["9"] ++ ["16", "25"]) ∧
      (mapStack {} 3 0 m ["3", "y", "z"]).result =
        .error (.inside (.located (.notANumber "y") "x" 2)) := by
  intro m
  have hm : m.Passive := ⟨rfl, Commands.all_empty.insert (by decide)⟩
  obtain ⟨_, _, hjoined, _, hfails⟩ := map_elementwise {} 3 0 m hm
  have hthree : (mapStack {} 3 0 m ["3"]).result = .ok ["9"] := by decide +kernel
  have hrest : (mapStack {} 3 0 m ["4", "5"]).result = .ok ["16", "25"] := by decide +kernel
  have hfirst : (mapStack {} 3 0 m ["y"]).result =
      .error (.inside (.located (.notANumber "y") "x" 2)) := by decide +kernel
  refine ⟨(hjoined ["3"] ["4", "5"] _).mpr ⟨["9"], ["16", "25"], hthree, hrest, rfl⟩, ?_⟩
  refine (hfails (by simp [m]) ["3", "y", "z"] _).mpr ⟨["3"], "y", ["z"], rfl, ?_, hfirst⟩
  exact List.forall_mem_singleton.mpr ⟨["9"], hthree⟩

end Rpn.Machine
