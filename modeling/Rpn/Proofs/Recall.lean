import Rpn.Proofs.Nesting
import Rpn.Proofs.Radixes

/-! Recall of stored values.

`store` makes the value the body of a command, and a body is run. So a recalled value is
not pushed but looked up like any other token, and comes back as it was stored only if it
stands for itself. What else it can stand for is decided by two things. No operator writes
the name of an operator, except that fourteen in base 16 is `e`, and no operator stays on
the stack as a token; so among the fixed names a stored value can only be that one
(`Reached.isValue`). And it can name a user command, which is then called; the name that it
is stored under is such a name itself, and the command then calls nothing but itself
(`run_self_limited`). `stored_values_recalled_as_tokens` puts the cases together. -/
namespace Rpn

/-! ### What operators write names no operator, except `e` -/

/-- A token that is no fixed name, unless it is the `e` that spells fourteen in base 16. -/
def IsValue (t : String) : Prop := t ∈ Machine.fixedNames → t = "e"

/-- In the characters of numbers there are three fixed names. -/
theorem IsNumeric.fixedNames {t : String} (h : IsNumeric t) (ht : t ∈ Machine.fixedNames) :
    t ∈ ["e", "+", "-"] := by
  have hnames : ∀ name ∈ Builtin.names ++ Special.names, name.toList ⊆ Numeral.alphabet →
      name ∈ ["e", "+", "-"] := by decide
  exact hnames t (List.mem_append.mpr (Machine.mem_fixedNames.mp ht)) fun c hc => h.chars c hc

/-- What operators write can be read as a number, in base ten or in another base. -/
theorem Builtin.Writes.reads {b : Builtin} {t : String} (h : b.Writes t) :
    (∃ x, Binary64.parse? t = some x) ∨ ∃ (r : Radix) (n : Int), r.parse? t.toList = some n := by
  have hdecimal : IsDecimal t → ∃ x, Binary64.parse? t = some x := by
    rintro (⟨n, _, rfl⟩ | ⟨x, rfl⟩)
    · exact ⟨_, Binary64.parse?_intText n⟩
    · exact ⟨x, Binary64.parse?_text x⟩
  cases b with
  | spell r =>
    obtain ⟨n, rfl⟩ := h
    by_cases hr : r = .decimal
    · obtain rfl := hr
      exact .inl ⟨_, Binary64.parse?_intText n⟩
    · exact .inr ⟨r, n, Radix.parse?_spell hr n⟩
  | unspell r =>
    obtain ⟨n, _, rfl⟩ := h
    exact .inl ⟨_, Binary64.parse?_intText n⟩
  | _ => exact .inl (hdecimal h)

/-- A sign alone is no number. -/
theorem Builtin.Writes.isValue {b : Builtin} {t : String} (h : b.Writes t) : IsValue t := by
  intro ht
  have hsigns : ∀ u ∈ ["+", "-"], Binary64.parse? u = none ∧
      ∀ r : Radix, r.parse? u.toList = none := by
    simp only [List.forall_mem_cons, List.not_mem_nil, false_implies, implies_true, and_true]
    refine ⟨⟨by decide +kernel, ?_⟩, by decide +kernel, ?_⟩ <;> intro r <;> cases r <;>
      decide +kernel
  rcases List.mem_cons.mp (h.isNumeric.fixedNames ht) with he | hsign
  · exact he
  · obtain ⟨hreal, hint⟩ := hsigns t hsign
    rcases h.reads with ⟨x, hx⟩ | ⟨r, n, hn⟩
    · rw [hreal] at hx
      cases hx
    · rw [hint r] at hn
      cases hn

namespace Machine

theorem isValue_of_lookup_literal {m : Machine} {t : String} (h : m.lookup t = .literal) :
    IsValue t := by
  intro ht
  unfold lookup at h
  cases hs : Special.named? t with
  | some f => simp [hs] at h
  | none =>
    cases hb : Builtin.named? t with
    | some b => simp [hs, hb] at h
    | none => exact absurd ht (not_mem_fixedNames_iff.mpr ⟨hs, hb⟩)

/-! ### What gets on the stack -/

/-- A run that leaves values on the stack, if it does not fail. -/
abbrev EndsInValues : Except Failure State → Prop :=
  Ends (fun st => ∀ u ∈ st.2, IsValue u) fun _ => True

/-- Evaluation that leaves values on a stack of values. -/
def KeepsValues (eval : Evaluator) : Prop :=
  ∀ m s ts, (∀ u ∈ s, IsValue u) → EndsInValues (eval (m, s) ts)

section Nested
variable {nested : Evaluator}

theorem KeepsValues.enter (h : KeepsValues nested) (cfg : Config) (depth : Nat)
    (here : Fault → Failure) (m : Machine) {s : Stack} (hs : ∀ u ∈ s, IsValue u)
    (body : List String) : EndsInValues (enter cfg depth nested here (m, s) body) := by
  unfold Machine.enter
  split
  · trivial
  · exact h m s body hs

theorem KeepsValues.step (h : KeepsValues nested) (cfg : Config) (depth : Nat) (m : Machine)
    {s : Stack} (hs : ∀ u ∈ s, IsValue u) (t : String) :
    EndsInValues (step cfg depth nested (m, s) t) := by
  cases ha : m.recorder.isArmed with
  | true =>
    rw [step_armed cfg depth nested ha]
    cases m.feed cfg.markers t with
    | ok m' => exact hs
    | error f => trivial
  | false =>
    rw [step_idle cfg depth nested ha]
    cases hmeaning : m.lookup t with
    | special f =>
      cases f with
      | define => exact hs
      | store =>
        rcases store_cases s with ⟨rest, value, name, rfl⟩ | herror
        · simp only [perform, store_append]
          exact (List.forall_mem_append.mp hs).1
        · simp only [perform, herror]
          trivial
      | map =>
        simp only [perform]
        cases m.commands[cfg.lambda]? with
        | none => trivial
        | some body =>
          refine (mapTokens_ends (M := fun _ => True) (P := IsValue) (fun m' u _ hu => ?_) s m []
            trivial nofun hs).mono (fun _ hst => hst.2) (fun _ he => he)
          exact (h.enter cfg depth _ m' (List.forall_mem_singleton.mpr hu) body).mono
            (fun _ hst => ⟨trivial, hst⟩) (fun _ he => he)
    | builtin b =>
      simp only [perform]
      cases hr : b.apply s with
      | error f => trivial
      | ok s' =>
        intro u hu
        have hkept := Builtin.mem_of_apply (lookup_builtin hmeaning) hr u hu
        exact hkept.elim (hs u) Builtin.Writes.isValue
    | user body => exact h.enter cfg depth (.located · t s.length) m hs body
    | literal =>
      -- a token gets on the stack by itself only if it was looked up in vain
      have ht := isValue_of_lookup_literal hmeaning
      exact List.forall_mem_append.mpr ⟨hs, List.forall_mem_singleton.mpr ht⟩

end Nested

theorem run_keepsValues (cfg : Config) (levels depth : Nat) :
    KeepsValues (run cfg levels depth) := by
  apply run_induction
  · exact fun _ _ _ _ => trivial
  · intro depth nested h m s ts hs
    exact steps_ends ts (fun st hst t _ => h.step cfg depth st.1 hst t) (m, s) hs

/-- A machine, and a stack that it returned at some time or the empty one that it started
with. Any of these stacks may be worked on next, also after a failure. -/
inductive Reached (cfg : Config) : Machine → Stack → Prop
  | fresh : Reached cfg {} []
  | returned {m m' : Machine} {s s' : Stack} {tokens : List String} (before : Reached cfg m s)
    (success : m.evaluate cfg tokens s = ⟨m', .ok s'⟩) : Reached cfg m' s'
  | kept {m : Machine} {s r : Stack} (tokens : List String) (before : Reached cfg m s)
    (other : Reached cfg m r) : Reached cfg (m.evaluate cfg tokens s).machine r

theorem Reached.isValue {cfg : Config} {m : Machine} {s : Stack} (h : Reached cfg m s) :
    ∀ u ∈ s, IsValue u := by
  induction h with
  | fresh => exact nofun
  | @returned m m' s s' tokens _ success ih =>
    have hends := (evaluate_ends (run_keepsValues cfg cfg.ceiling 0 m s tokens ih)).1 s'
    rw [success] at hends
    exact hends rfl
  | kept _ _ _ _ ih => exact ih

/-! ### Storing and calling -/

/-- The machine after `store`, with the value under the name. -/
def stored (m : Machine) (value name : String) : Machine :=
  { m with commands := m.commands.insert name [value] }

theorem evaluate_store (cfg : Config) {m : Machine} (hidle : m.recorder = .idle) (s : Stack)
    (value name : String) :
    m.evaluate cfg ["store"] (s ++ [value, name]) = ⟨m.stored value name, .ok s⟩ := by
  have hstore : m.lookup "store" = .special .store := lookup_special_iff.mpr rfl
  rw [evaluate_eq_ok_iff, run_singleton cfg _ _ hidle, hstore]
  simp only [perform, store_append]
  rfl

theorem lookup_stored (m : Machine) (value : String) {name : String} (h : name ∉ fixedNames) :
    (m.stored value name).lookup name = .user [value] := by
  rw [lookup_of_not_mem_fixedNames h, stored, Std.ExtTreeMap.getElem?_insert_self]
  rfl

/-- Other names mean what they meant. -/
theorem lookup_stored_of_ne (m : Machine) (value : String) {name t : String} (h : t ≠ name)
    (ht : t ∉ fixedNames) : (m.stored value name).lookup t = m.lookup t := by
  have hne : ¬compare name t = .eq := fun heq => h (Std.LawfulEqCmp.eq_of_compare heq).symm
  rw [lookup_of_not_mem_fixedNames ht, lookup_of_not_mem_fixedNames ht, stored,
    Std.ExtTreeMap.getElem?_insert, if_neg hne]

section Calls
variable {cfg : Config} {m : Machine} {n v : String}

/-- A command that stands for a single token runs the token, one level deeper. -/
theorem run_recall {levels depth : Nat} (hdepth : depth < cfg.maxDepth)
    (hidle : m.recorder = .idle) (hn : m.lookup n = .user [v]) (t : Stack) :
    run cfg (levels + 1) depth (m, t) [n] =
      perform cfg (depth + 1) (below cfg levels (depth + 1)) m t v (m.lookup v) := by
  rw [run_user cfg _ depth hidle hn]
  unfold enter
  rw [if_neg (Int.not_le.mpr hdepth), below, run_singleton cfg _ _ hidle]

/-- A command that stands for itself ends at the limit. -/
theorem run_self_limited (hidle : m.recorder = .idle) (hn : m.lookup n = .user [n])
    (levels depth : Nat) (t : Stack) :
    isLimited (run cfg levels depth (m, t) [n]) = true := by
  induction levels generalizing depth with
  | zero =>
    rw [run_user cfg _ depth hidle hn]
    unfold enter
    split <;> rfl
  | succ levels ih =>
    rw [run_user cfg _ depth hidle hn]
    unfold enter
    split
    · rfl
    · exact ih (depth + 1)

end Calls

/-- **A stored value is recalled as a token.** On every stack that an idle machine can have
returned, with a name on top that is not fixed, `store` succeeds. From then on the name does
what the value itself would do as a token, unless it meets the limit on nesting:

* a value that stands for itself, being neither `e` nor the name of a command, comes back
  as it was stored;
* the value `e`, which is how fourteen is written in base 16, comes back as the number e;
* a value stored under itself never comes back, the limit is met. -/
theorem stored_values_recalled_as_tokens (cfg : Config) (hdepth : 1 ≤ cfg.maxDepth)
    (hceiling : 1 ≤ cfg.ceiling) {m : Machine} {s : Stack} {v n : String}
    (hreached : Reached cfg m (s ++ [v, n])) (hidle : m.recorder = .idle)
    (hn : n ∉ fixedNames) :
    ∃ m', m.evaluate cfg ["store"] (s ++ [v, n]) = ⟨m', .ok s⟩ ∧ ∀ t,
      (isLimited (m'.evaluate cfg [n] t).result = true ∨
        m'.evaluate cfg [n] t = m'.evaluate cfg [v] t) ∧
      (v ≠ "e" → v ≠ n → m.commands[v]? = none →
        m'.evaluate cfg [n] t = ⟨m', .ok (t ++ [v])⟩) ∧
      (v = "e" → m'.evaluate cfg [n] t = ⟨m', .ok (t ++ ["2.718281828459045"])⟩) ∧
      (v = n → isLimited (m'.evaluate cfg [n] t).result = true) := by
  obtain ⟨levels, hlevels⟩ : ∃ levels, cfg.ceiling = levels + 1 := ⟨cfg.ceiling - 1, by omega⟩
  have hcall := m.lookup_stored v hn
  have hstored : (m.stored v n).recorder = .idle := hidle
  have hrecall : ∀ t, run cfg (levels + 1) 0 (m.stored v n, t) [n] =
      perform cfg 1 (below cfg levels 1) (m.stored v n) t v ((m.stored v n).lookup v) :=
    run_recall (by omega) hstored hcall
  refine ⟨m.stored v n, evaluate_store cfg hidle s v n, fun t => ⟨?_, ?_, ?_, ?_⟩⟩
  · rw [evaluate_eq_settle, evaluate_eq_settle]
    exact (run_call cfg _ 0 hstored hcall t).settle _
  · intro he hvn hnone
    have hv : v ∉ fixedNames := fun hmem => he (hreached.isValue v (by simp) hmem)
    have hliteral : (m.stored v n).lookup v = .literal := by
      rw [lookup_stored_of_ne m v hvn hv, lookup_of_not_mem_fixedNames hv, hnone]
      rfl
    rw [evaluate_eq_ok_iff, hlevels, hrecall, hliteral]
    rfl
  · rintro rfl
    have he : (m.stored "e" n).lookup "e" = .builtin (.constant Operator.e) := rfl
    have htext : (Number.real Operator.e).token = "2.718281828459045" := by decide +kernel
    rw [evaluate_eq_ok_iff, hlevels, hrecall, he, ← htext]
    rfl
  · rintro rfl
    rw [evaluate_eq_settle, isLimited_settle]
    exact run_self_limited hstored hcall cfg.ceiling 0 t

/-- With a command defined and another token under the value. The text of the value stays
as it was written. -/
theorem stored_values_recalled_as_tokens_of_numeral :
    let m := (evaluate {} {} ["(", "f", "1", ")", "7", "1.50", "rate"] []).machine
    ∃ m', m.evaluate {} ["store"] ["7", "1.50", "rate"] = ⟨m', .ok ["7"]⟩ ∧
      ∀ t, m'.evaluate {} ["rate"] t = ⟨m', .ok (t ++ ["1.50"])⟩ := by
  intro m
  have hsuccess : evaluate {} {} ["(", "f", "1", ")", "7", "1.50", "rate"] [] =
      ⟨m, .ok (["7"] ++ ["1.50", "rate"])⟩ := rfl
  have hrate : "rate" ∉ fixedNames := by
    rw [mem_fixedNames]
    decide
  have hnone : m.commands["1.50"]? = none := rfl
  obtain ⟨m', hstore, hrecall⟩ := stored_values_recalled_as_tokens {} (by decide) (by decide)
    (.returned .fresh hsuccess) rfl hrate
  exact ⟨m', hstore, fun t => (hrecall t).2.1 (by decide) (by decide) hnone⟩

/-- Fourteen in base 16 is written, stored and recalled, and the number e comes back. -/
theorem fourteen_not_recalled :
    let m := (evaluate {} {} ["14", "dec_hex", "k"] []).machine
    let m' := (m.evaluate {} ["store"] ["e", "k"]).machine
    Reached {} m ["e", "k"] ∧ m.recorder = .idle ∧ "k" ∉ fixedNames ∧
      (m.evaluate {} ["store"] ["e", "k"]).result = .ok [] ∧
      (m'.evaluate {} ["k"] []).result = .ok ["2.718281828459045"] ∧
      (m'.evaluate {} ["k"] []).result ≠ .ok ["e"] := by
  intro m m'
  have hwritten : (evaluate {} {} ["14", "dec_hex", "k"] []).result = .ok ["e", "k"] := by
    decide +kernel
  have hrecalled : (m'.evaluate {} ["k"] []).result = .ok ["2.718281828459045"] := by
    decide +kernel
  refine ⟨.returned .fresh (by rw [← hwritten]), ?_, ?_, ?_, hrecalled, ?_⟩
  · decide +kernel
  · rw [mem_fixedNames]
    decide
  · decide +kernel
  · rw [hrecalled]
    decide

end Machine

end Rpn
