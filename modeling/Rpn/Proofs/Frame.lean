import Rpn.Proofs.Runs
import Rpn.Proofs.Operators

/-! Programs do not see below what they consume.

A few operators work on the whole stack (`wholeOperators`). Every other one takes its
operands off the top, in number fixed or counted by a token, and leaves the rest alone:
on a deeper stack it does the same above the deeper part, unless there were too few
tokens without it (`Local`). That carries over to evaluation as long as no whole-stack
operator can come to be run, which takes that none is among the tokens, in a stored
body, or on the stack, where `store` could turn it into a body. The deeper part itself
may hold anything (`evaluate_on_deeper_stack`). -/
namespace Rpn

/-! ### Attempts on a deeper stack -/

/-- How an attempt on a deeper stack follows the one on the stack itself. A result becomes
what `f` makes of it, and a fault stays the same, unless it was for too few tokens. -/
def Deepens {α β : Type} (f : α → β) (x : Except Fault α) (y : Except Fault β) : Prop :=
  match x with
  | .ok a => y = .ok (f a)
  | .error e => e.kind = .stackUnderflow ∨ y = .error e

theorem Deepens.bind {α α' β β' : Type} {f : α → α'} {g : β → β'} {x : Except Fault α}
    {y : Except Fault α'} {k : α → Except Fault β} {l : α' → Except Fault β'}
    (h : Deepens f x y) (hk : ∀ a, Deepens g (k a) (l (f a))) : Deepens g (x >>= k) (y >>= l) := by
  cases x with
  | ok a =>
    obtain rfl : y = .ok (f a) := h
    exact hk a
  | error e =>
    rcases h with he | rfl
    · exact .inl he
    · exact .inr rfl

/-- An attempt that does not depend on the stack. -/
theorem deepens_refl {α : Type} (x : Except Fault α) : Deepens id x x := by
  cases x with
  | ok a => rfl
  | error e => exact .inr rfl

namespace Stack

section Parts
variable (r s : Stack)

/-- A part of the stack that is asked for after its size was checked. -/
theorem part_deepens {n : Int} {f : Stack → Stack} {x y : Stack} (h : n ≤ s.length → y = f x) :
    Deepens f (do s.require n; return x) (do (r ++ s).require n; return y) := by
  by_cases hn : (s.length : Int) < n
  · simp only [require, if_pos hn]
    exact .inl rfl
  · have hmore : ¬((r ++ s).length : Int) < n := by
      rw [List.length_append]
      omega
    simp only [require, if_neg hn, if_neg hmore]
    exact congrArg Except.ok (h (by omega))

theorem length_append_sub {n : Int} (hn : n ≤ s.length) :
    ((r ++ s).length - n).toNat = r.length + (s.length - n).toNat := by
  rw [List.length_append]
  omega

theorem top_deepens (n : Int) : Deepens id (s.top n) ((r ++ s).top n) := by
  refine part_deepens r s fun hn => ?_
  rw [length_append_sub r s hn, List.drop_length_add_append]
  rfl

theorem dropTop_deepens (n : Int) : Deepens (r ++ ·) (s.dropTop n) ((r ++ s).dropTop n) := by
  refine part_deepens r s fun hn => ?_
  rw [length_append_sub r s hn, List.take_length_add_append]

/-- What is left goes on top of the deeper part. -/
abbrev onTop {α : Type} (r : Stack) (p : Stack × α) : Stack × α := (r ++ p.1, p.2)

theorem popToken_deepens : Deepens (onTop r) s.popToken (r ++ s).popToken := by
  rcases List.eq_nil_or_concat s with rfl | ⟨rest, t, rfl⟩
  · exact .inl rfl
  · rw [List.concat_eq_append, ← List.append_assoc, Machine.popToken_concat,
      Machine.popToken_concat]
    rfl

theorem popNumber_deepens : Deepens (onTop r) s.popNumber (r ++ s).popNumber :=
  (popToken_deepens r s).bind fun p => (deepens_refl (number p.2)).bind fun _ => rfl

theorem popNumbers_deepens (n : Int) :
    Deepens (onTop r) (s.popNumbers n) ((r ++ s).popNumbers n) :=
  (dropTop_deepens r s n).bind fun _ => (top_deepens r s n).bind fun ts =>
    (deepens_refl (ts.mapM number)).bind fun _ => rfl

theorem popCount_deepens : Deepens (onTop r) s.popCount (r ++ s).popCount := by
  refine (popNumber_deepens r s).bind fun p => ?_
  simp only
  split
  · rfl
  · exact .inr rfl

end Parts

/-! ### Operators -/

/-- On a deeper stack the operator does the same above the deeper part, unless it had too
few tokens. -/
def Local (f : Stack → Except Fault Stack) : Prop :=
  ∀ r s, Deepens (r ++ ·) (f s) (f (r ++ s))

theorem discard_local : Local discard := fun r s => dropTop_deepens r s 1

theorem discardCounted_local : Local discardCounted :=
  fun r s => (popCount_deepens r s).bind fun p => dropTop_deepens r p.1 p.2

theorem duplicate_local : Local duplicate := by
  intro r s
  refine (top_deepens r s 1).bind fun t => ?_
  exact congrArg Except.ok (List.append_assoc r s t)

theorem exchange_local : Local exchange := by
  intro r s
  refine (dropTop_deepens r s 2).bind fun rest => (top_deepens r s 2).bind fun ts => ?_
  exact congrArg Except.ok (List.append_assoc r rest ts.reverse)

theorem iota_local : Local iota := by
  intro r s
  refine (popCount_deepens r s).bind fun p => ?_
  simp only
  split
  · exact .inr rfl
  · exact congrArg Except.ok (List.append_assoc r p.1 (oneTo p.2))

end Stack

namespace Builtin

theorem constant_local (x : Binary64) : Stack.Local (constant x).apply :=
  fun r s => congrArg Except.ok (List.append_assoc r s [(Number.real x).token])

theorem unary_local (f : Binary64 → Option Number) : Stack.Local (unary f).apply := by
  intro r s
  refine (Stack.popNumber_deepens r s).bind fun p => (deepens_refl _).bind fun n => ?_
  exact congrArg Except.ok (List.append_assoc r p.1 [n.token])

theorem binary_local (f : Binary64 → Binary64 → Option Number) :
    Stack.Local (binary f).apply := by
  intro r s
  refine (Stack.popNumbers_deepens r s 2).bind fun p => ?_
  obtain ⟨rest, xs⟩ := p
  match xs with
  | [a, b] =>
    refine (deepens_refl (guarded (.refused (cannotApply 2) [a, b]) (.ok (f a b)))).bind fun n => ?_
    exact congrArg Except.ok (List.append_assoc r rest [n.token])
  | [] | [_] | _ :: _ :: _ :: _ => exact .inl rfl

theorem looping_local (ends : Binary64 → Binary64 → Bool)
    (f : Binary64 → Binary64 → Option Number) : Stack.Local (looping ends f).apply := by
  intro r s
  refine (Stack.popNumbers_deepens r s 2).bind fun p => ?_
  obtain ⟨rest, xs⟩ := p
  match xs with
  | [a, b] =>
    simp only
    split
    · exact .inr rfl
    · refine (deepens_refl (guarded (.refused (cannotApply 2) [a, b])
        (.ok (f a b)))).bind fun n => ?_
      exact congrArg Except.ok (List.append_assoc r rest [n.token])
  | [] | [_] | _ :: _ :: _ :: _ => exact .inl rfl

theorem ternary_local (f : Binary64 → Binary64 → Binary64 → Option (List Number)) :
    Stack.Local (ternary f).apply := by
  intro r s
  refine (Stack.popNumbers_deepens r s 3).bind fun p => ?_
  obtain ⟨rest, xs⟩ := p
  match xs with
  | [a, b, c] =>
    refine (deepens_refl (guarded (.refused (cannotApply 3) [a, b, c])
      (.ok (f a b c)))).bind fun ns => ?_
    exact congrArg Except.ok (List.append_assoc r rest (ns.map Number.token))
  | [] | [_] | [_, _] | _ :: _ :: _ :: _ :: _ => exact .inl rfl

theorem spell_local (b : Radix) : Stack.Local (spell b).apply := by
  intro r s
  refine (Stack.popNumber_deepens r s).bind fun p => (deepens_refl _).bind fun n => ?_
  exact congrArg Except.ok (List.append_assoc r p.1 [b.spell n])

theorem unspell_local (b : Radix) : Stack.Local (unspell b).apply := by
  intro r s
  refine (Stack.popToken_deepens r s).bind fun p => ?_
  refine (deepens_refl (unspelled b p.2)).bind fun t => ?_
  exact congrArg Except.ok (List.append_assoc r p.1 [t])

end Builtin

/-! ### The operators on the whole stack -/

/-- The names of the operators that reach below their operands. -/
def wholeOperators : List String := ["cls", "roll", "rolln", "rot", "rotn", "sum", "prod", "map"]

theorem Builtin.catalogue_local :
    ∀ entry ∈ catalogue, entry.1 ∉ wholeOperators → Stack.Local entry.2.apply := by
  have hstack : ∀ f, Stack.Local (stack f).apply ↔ Stack.Local f := fun _ => Iff.rfl
  simp only [catalogue, List.forall_mem_cons, constant_local, unary_local, binary_local,
    looping_local, ternary_local, spell_local, unspell_local, hstack, Stack.discard_local,
    Stack.discardCounted_local, Stack.duplicate_local, Stack.exchange_local, Stack.iota_local,
    List.not_mem_nil, false_implies, implies_true, and_self, true_and, and_true]
  -- what is left are the entries of the list
  simp [wholeOperators]

/-- Each of the names has a letter that no number has. -/
theorem IsNumeric.not_mem_wholeOperators {t : String} (h : IsNumeric t) : t ∉ wholeOperators := by
  have hletter : ∀ name ∈ wholeOperators, ¬name.toList ⊆ Numeral.alphabet := by decide
  exact fun hmem => hletter t hmem fun c hc => h.chars c hc

/-- Tokens without operators on the whole stack. -/
def Narrow (ts : List String) : Prop := ∀ t ∈ ts, t ∉ wholeOperators

instance (ts : List String) : Decidable (Narrow ts) :=
  inferInstanceAs (Decidable (∀ t ∈ ts, t ∉ wholeOperators))

theorem Narrow.append {ts us : List String} (ht : Narrow ts) (hu : Narrow us) :
    Narrow (ts ++ us) :=
  List.forall_mem_append.mpr ⟨ht, hu⟩

theorem narrow_singleton {t : String} (h : t ∉ wholeOperators) : Narrow [t] :=
  List.forall_mem_singleton.mpr h

/-- What operators write is no operator. -/
theorem Builtin.apply_narrow {t : String} {b : Builtin} (hb : (t, b) ∈ catalogue) {s s' : Stack}
    (hs : Narrow s) (h : b.apply s = .ok s') : Narrow s' := by
  intro u hu
  rcases mem_of_apply hb h u hu with hold | hwrites
  · exact hs u hold
  · exact hwrites.isNumeric.not_mem_wholeOperators

/-! ### Evaluation on a deeper stack -/

/-- The failure that is met with more tokens on the stack. -/
def Failure.deeper (n : Nat) : Failure → Failure
  | located f t size => located f t (n + size)
  | exhausted => exhausted

theorem Failure.report_deeper (n : Nat) (e : Failure) :
    (e.deeper n).report = { e.report with depth := e.report.depth.map (n + ·) } := by
  cases e <;> rfl

namespace Machine

/-- Stored bodies without operators on the whole stack. -/
def IsNarrow (m : Machine) : Prop := m.commands.All fun _ body => Narrow body

/-- The same machine over a deeper stack, none of it wider than its operands. -/
structure Above (r : Stack) (st st' : State) : Prop where
  eq : st' = (st.1, r ++ st.2)
  machine : st.1.IsNarrow
  stack : Narrow st.2

/-- A run on a deeper stack that follows one on the stack itself. -/
abbrev Rests (r : Stack) (x y : Except Failure State) : Prop :=
  Tracks (Above r) (·.kind = .stackUnderflow) (·.deeper r.length) x y

theorem rests_ok {r s : Stack} {m : Machine} (hm : m.IsNarrow) (hs : Narrow s) :
    Rests r (.ok (m, s)) (.ok (m, r ++ s)) :=
  ⟨(m, r ++ s), rfl, rfl, hm, hs⟩

/-- A fault at a token, with the stack as it is in either run. -/
theorem rests_fault (r s : Stack) (f : Fault) (t : String) :
    Rests r (.error (.located f t s.length)) (.error (.located f t (r ++ s).length)) := by
  rw [List.length_append]
  exact .inr rfl

/-- Evaluation that does not depend on what is deeper in the stack. -/
def Framed (r : Stack) (eval : Evaluator) : Prop :=
  ∀ m s ts, m.IsNarrow → Narrow s → Narrow ts → Rests r (eval (m, s) ts) (eval (m, r ++ s) ts)

theorem IsNarrow.feed {m m' : Machine} (h : m.IsNarrow) {k : Markers} {t : String}
    (ht : t ∉ wholeOperators) (hfeed : m.feed k t = .ok m') : m'.IsNarrow := by
  rcases feed_cases hfeed with ⟨_, rfl⟩ | ⟨name, body, _, hbody, rfl | rfl⟩
  · exact h.insert fun _ => nofun
  · exact h
  · exact h.insert ((h name body hbody).append (narrow_singleton ht))

theorem IsNarrow.store {m : Machine} (h : m.IsNarrow) {value : String}
    (hvalue : value ∉ wholeOperators) (name : String) :
    IsNarrow { m with commands := m.commands.insert name [value] } :=
  Commands.All.insert h (narrow_singleton hvalue)

theorem Framed.enter {r : Stack} {nested : Evaluator} (h : Framed r nested) (cfg : Config)
    (depth : Nat) {m : Machine} (hm : m.IsNarrow) {s : Stack} (hs : Narrow s) (t : String)
    {body : List String} (hbody : Narrow body) :
    Rests r (enter cfg depth nested (.located · t s.length) (m, s) body)
      (enter cfg depth nested (.located · t (r ++ s).length) (m, r ++ s) body) := by
  unfold Machine.enter
  split
  · exact rests_fault r s _ t
  · exact h m s body hm hs hbody

theorem step_rests {r : Stack} (cfg : Config) (depth : Nat) {nested : Evaluator}
    (h : Framed r nested) {m : Machine} (hm : m.IsNarrow) {s : Stack} (hs : Narrow s) {t : String}
    (ht : t ∉ wholeOperators) :
    Rests r (step cfg depth nested (m, s) t) (step cfg depth nested (m, r ++ s) t) := by
  cases ha : m.recorder.isArmed with
  | true =>
    rw [step_armed cfg depth nested ha, step_armed cfg depth nested ha]
    cases hfeed : m.feed cfg.markers t with
    | ok m' => exact rests_ok (hm.feed ht hfeed) hs
    | error f => exact rests_fault r s f t
  | false =>
    rw [step_idle cfg depth nested ha, step_idle cfg depth nested ha]
    cases hmeaning : m.lookup t with
    | special f =>
      obtain rfl := lookup_special_iff.mp hmeaning
      cases f with
      | define => exact rests_ok hm hs
      | store =>
        rcases store_cases s with ⟨rest, value, name, rfl⟩ | herror
        · -- the value, which becomes a body, comes from `s` and never from `r`
          have hparts := List.forall_mem_append.mp hs
          rw [← List.append_assoc]
          simp only [perform, store_append]
          exact rests_ok (hm.store (hparts.2 value (by simp)) name) hparts.1
        · simp only [perform, herror]
          exact .inl rfl
      | map => exact absurd (by decide) ht
    | builtin b =>
      have hb := lookup_builtin hmeaning
      have hlocal := Builtin.catalogue_local _ hb ht r s
      simp only [perform]
      cases hr : b.apply s with
      | ok s' =>
        rw [hr] at hlocal
        have hdeep : b.apply (r ++ s) = .ok (r ++ s') := hlocal
        rw [hdeep]
        exact rests_ok hm (Builtin.apply_narrow hb hs hr)
      | error f =>
        rw [hr] at hlocal
        rcases hlocal with hfew | hsame
        · exact .inl hfew
        · rw [hsame]
          exact rests_fault r s f t
    | user body =>
      exact h.enter cfg depth hm hs t (hm t body (lookup_user hmeaning))
    | literal =>
      have hpush := rests_ok (r := r) hm (hs.append (narrow_singleton ht))
      rwa [← List.append_assoc] at hpush

theorem run_framed (r : Stack) (cfg : Config) (levels depth : Nat) :
    Framed r (run cfg levels depth) := by
  apply run_induction
  · exact fun _ _ _ _ _ _ => .inr rfl
  · intro depth nested h m s ts hm hs hts
    refine steps_tracks ts (fun st st' hst t ht => ?_) ⟨rfl, hm, hs⟩
    obtain rfl := hst.eq
    exact step_rests cfg depth h hst.machine hst.stack (hts t ht)

/-- **Programs do not see below what they consume.** If no operator on the whole stack is
among the tokens, in a stored body or on the stack, then on a stack with anything under it
the evaluation gives the same stack with the same under it and leaves the same machine. If it
fails, for another reason than too few tokens, it fails for the same reason at the same
token, with as many more tokens on the stack as there are under it. -/
theorem evaluate_on_deeper_stack (cfg : Config) {m : Machine} (hm : m.IsNarrow)
    (tokens : List String) (htokens : Narrow tokens) (s : Stack) (hs : Narrow s) (r : Stack) :
    let o := m.evaluate cfg tokens s
    (∀ s', o.result = .ok s' → m.evaluate cfg tokens (r ++ s) = ⟨o.machine, .ok (r ++ s')⟩) ∧
    ∀ e, o.result = .error e → e.kind ≠ .stackUnderflow →
      ∃ e', m.evaluate cfg tokens (r ++ s) = ⟨o.machine, .error e'⟩ ∧
        e'.report = { e.report with depth := e.report.depth.map (r.length + ·) } := by
  intro o
  have hrun := run_framed r cfg cfg.ceiling 0 m s tokens hm hs htokens
  have ho : o = m.settle (run cfg cfg.ceiling 0 (m, s) tokens) := evaluate_eq_settle ..
  rw [evaluate_eq_settle, ho]
  cases hr : run cfg cfg.ceiling 0 (m, s) tokens with
  | ok st =>
    rw [hr] at hrun
    obtain ⟨st', hr', habove⟩ := hrun
    obtain rfl := habove.eq
    rw [hr']
    refine ⟨fun s' h => ?_, nofun⟩
    obtain rfl := Except.ok.inj h
    rfl
  | error e =>
    rw [hr] at hrun
    refine ⟨nofun, fun e' h hkind => ?_⟩
    obtain rfl := Except.error.inj h
    rcases hrun with hfew | hr'
    · exact absurd hfew hkind
    · rw [hr']
      refine ⟨e.deeper r.length, ?_, e.report_deeper r.length⟩
      cases e <;> rfl

/-- Names of operators on the whole stack may lie under what a command takes and stores. A
definition without a name is met with two tokens more. -/
theorem evaluate_on_deeper_stack_of_operators :
    let m : Machine := { commands := (∅ : Commands).insert "twice" ["dup", "swap"] }
    let tokens := ["twice", "g", "store", "g"]
    m.evaluate {} tokens ["map", "cls", "1"] =
      ⟨(m.evaluate {} tokens ["1"]).machine, .ok ["map", "cls", "1", "1"]⟩ ∧
    ∃ e, (m.evaluate {} ["twice", "(", ")"] ["map", "cls", "1"]).result = .error e ∧
      e.report.depth = some 4 := by
  intro m tokens
  have hm : m.IsNarrow := Commands.all_empty.insert (by decide)
  have hresult := evaluate_on_deeper_stack {} hm tokens (by decide) ["1"] (by decide)
    ["map", "cls"]
  have hfailure := evaluate_on_deeper_stack {} hm ["twice", "(", ")"] (by decide) ["1"]
    (by decide) ["map", "cls"]
  obtain ⟨e, he, hreport⟩ := hfailure.2 (.located .unnamedDefinition ")" 2) rfl (by decide)
  refine ⟨hresult.1 ["1", "1"] rfl, e, congrArg Outcome.result he, ?_⟩
  rw [hreport]
  rfl

end Machine

end Rpn
