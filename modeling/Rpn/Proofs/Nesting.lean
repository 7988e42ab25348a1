import Rpn.Proofs.Runs

/-! Nesting of user commands.

The limit on nesting is only a cut-off. Two runs of the same tokens, of which one has no
less room for nesting than the other, end alike unless the one with less room meets the
limit (`run_upToLimit`). Room is what is left of `maxDepth` and of the levels, so this
compares two limits at one depth as well as two depths under one limit. The first gives
`evaluate_raise_limit`: a higher limit keeps every outcome but failures at the limit. The second
gives `evaluate_call`: a call of a user command, whose body runs one level deeper, does
what the body written out in its place would do. -/
namespace Rpn.Machine

/-! ### Results up to the limit -/

/-- Did an evaluation fail at the limit on nesting? -/
def isLimited {α : Type} : Except Failure α → Bool
  | .ok _ => false
  | .error e => e.kind = .recursionLimit

/-- The same result, unless the first is a failure at the limit. -/
def UpToLimit (r r' : Except Failure State) : Prop := isLimited r = true ∨ r = r'

theorem UpToLimit.bind {r r' : Except Failure State} {f g : State → Except Failure State}
    (h : UpToLimit r r') (hfg : ∀ st, UpToLimit (f st) (g st)) :
    UpToLimit (r.bind f) (r'.bind g) := by
  rcases h with h | rfl
  · cases r with
    | ok st => cases h
    | error e => exact .inl h
  · cases r with
    | ok st => exact hfg st
    | error e => exact .inr rfl

theorem isLimited_settle (m : Machine) (r : Except Failure State) :
    isLimited (m.settle r).result = isLimited r := by
  cases r <;> rfl

/-- The outcomes are the same too, the machines they leave included. -/
theorem UpToLimit.settle {r r' : Except Failure State} (h : UpToLimit r r') (m : Machine) :
    isLimited (m.settle r).result = true ∨ m.settle r = m.settle r' := by
  rcases h with h | rfl
  · exact .inl ((isLimited_settle m r).trans h)
  · exact .inr rfl

/-! ### Two runs side by side -/

/-- A body may be entered wherever it may be entered with less room. -/
theorem enter_upToLimit {cfg cfg' : Config} {depth depth' : Nat} {nested nested' : Evaluator}
    (hroom : cfg.maxDepth - depth ≤ cfg'.maxDepth - depth')
    (hn : ∀ st ts, UpToLimit (nested st ts) (nested' st ts)) (token : String) (size : Nat)
    (st : State) (body : List String) :
    UpToLimit (enter cfg depth nested (.located · token size) st body)
      (enter cfg' depth' nested' (.located · token size) st body) := by
  unfold enter
  by_cases hd : cfg.maxDepth ≤ depth
  · rw [if_pos hd]
    exact .inl rfl
  · rw [if_neg hd, if_neg (by omega)]
    exact hn st body

theorem mapTokens_upToLimit {f g : State → Except Failure State}
    (hfg : ∀ st, UpToLimit (f st) (g st)) (ts : List String) (m : Machine) (done : Stack) :
    UpToLimit (mapTokens f m done ts) (mapTokens g m done ts) := by
  induction ts generalizing m done with
  | nil => exact .inr rfl
  | cons t ts ih =>
    rw [mapTokens_cons, mapTokens_cons]
    exact (hfg (m, [t])).bind fun st => ih st.1 _

/-- Only bodies depend on the room, those that a user command runs and those that `map`
runs. -/
theorem step_upToLimit {cfg cfg' : Config} {depth depth' : Nat} {nested nested' : Evaluator}
    (hmarkers : cfg.markers = cfg'.markers) (hlambda : cfg.lambda = cfg'.lambda)
    (hroom : cfg.maxDepth - depth ≤ cfg'.maxDepth - depth')
    (hn : ∀ st ts, UpToLimit (nested st ts) (nested' st ts)) (st : State) (token : String) :
    UpToLimit (step cfg depth nested st token) (step cfg' depth' nested' st token) := by
  obtain ⟨m, s⟩ := st
  have hbody := enter_upToLimit hroom hn token s.length
  cases ha : m.recorder.isArmed with
  | true =>
    rw [step_armed _ _ _ ha, step_armed _ _ _ ha, hmarkers]
    exact .inr rfl
  | false =>
    rw [step_idle _ _ _ ha, step_idle _ _ _ ha]
    cases m.lookup token with
    | special f =>
      cases f with
      | define => exact .inr rfl
      | store => exact .inr rfl
      | map =>
        unfold perform
        rw [← hlambda]
        cases m.commands[cfg.lambda]? with
        | none => exact .inr rfl
        | some body => exact mapTokens_upToLimit (hbody · body) s m []
    | builtin b => exact .inr rfl
    | user body => exact hbody (m, s) body
    | literal => exact .inr rfl

theorem steps_upToLimit {f g : State → String → Except Failure State}
    (hfg : ∀ st t, UpToLimit (f st t) (g st t)) (st : State) (ts : List String) :
    UpToLimit (steps f st ts) (steps g st ts) := by
  induction ts generalizing st with
  | nil => exact .inr rfl
  | cons t ts ih =>
    rw [steps_cons, steps_cons]
    exact (hfg st t).bind ih

/-- More room for nesting changes no result but that of meeting the limit. -/
theorem run_upToLimit {cfg cfg' : Config} (hmarkers : cfg.markers = cfg'.markers)
    (hlambda : cfg.lambda = cfg'.lambda) (levels levels' depth depth' : Nat)
    (hlevels : levels ≤ levels') (hroom : cfg.maxDepth - depth ≤ cfg'.maxDepth - depth')
    (st : State) (ts : List String) :
    UpToLimit (run cfg levels depth st ts) (run cfg' levels' depth' st ts) := by
  induction levels generalizing levels' depth depth' st ts with
  | zero =>
    rw [run_eq_steps, run_eq_steps]
    apply steps_upToLimit
    exact step_upToLimit hmarkers hlambda hroom fun _ _ => .inl rfl
  | succ levels ih =>
    obtain ⟨levels', rfl⟩ : ∃ l, levels' = l + 1 := ⟨levels' - 1, by omega⟩
    apply steps_upToLimit
    apply step_upToLimit hmarkers hlambda hroom
    exact ih levels' (depth + 1) (depth' + 1) (by omega) (by omega)

/-! ### The limit -/

/-- **The limit is only a cut-off.** Under a higher limit an evaluation has the same
outcome, in machine, stack and failure alike, unless the lower limit was met. -/
theorem evaluate_raise_limit (cfg : Config) {low high : Int} (h : low ≤ high) (m : Machine)
    (tokens : List String) (s : Stack) :
    isLimited (m.evaluate { cfg with maxDepth := low } tokens s).result = true ∨
      m.evaluate { cfg with maxDepth := low } tokens s =
        m.evaluate { cfg with maxDepth := high } tokens s := by
  rw [evaluate_eq_settle, evaluate_eq_settle]
  apply UpToLimit.settle
  refine run_upToLimit ?_ ?_ _ _ 0 0 ?_ (Int.sub_le_sub_right h _) (m, s) tokens
  · rfl
  · rfl
  · exact Nat.le_refl _

/-- Two levels are enough for a command that calls another, so seven do the same. -/
theorem evaluate_raise_limit_two_levels :
    isLimited (evaluate { maxDepth := 2 } {} ["(", "f", "2", ")", "(", "g", "f", "f", ")", "g"]
      []).result = false ∧
    evaluate { maxDepth := 2 } {} ["(", "f", "2", ")", "(", "g", "f", "f", ")", "g"] [] =
      evaluate { maxDepth := 7 } {} ["(", "f", "2", ")", "(", "g", "f", "f", ")", "g"] [] := by
  have hlow : isLimited (evaluate { maxDepth := 2 } {}
      ["(", "f", "2", ")", "(", "g", "f", "f", ")", "g"] []).result = false := rfl
  refine ⟨hlow, (evaluate_raise_limit {} (by decide) {} _ []).resolve_left fun h => ?_⟩
  rw [hlow] at h
  cases h

/-! ### Calls -/

/-- A call runs the body with less room than the body itself would have in its place. -/
theorem run_call (cfg : Config) (levels depth : Nat) {m : Machine} {f : String}
    {body : List String} (hidle : m.recorder = .idle) (hf : m.lookup f = .user body) (s : Stack) :
    UpToLimit (run cfg levels depth (m, s) [f]) (run cfg levels depth (m, s) body) := by
  rw [run_user cfg levels depth hidle hf]
  unfold enter
  by_cases hd : cfg.maxDepth ≤ depth
  · rw [if_pos hd]
    exact .inl rfl
  · rw [if_neg hd]
    cases levels with
    | zero => exact .inl rfl
    | succ levels => exact run_upToLimit rfl rfl _ _ _ _ (by omega) (by omega) (m, s) body

/-- **A call is its body written out.** Where a token means a user command, evaluation
with the token has the outcome of evaluation with the body in its place, in machine,
stack and failure alike, unless the call meets the limit on nesting. What comes before
may have defined the command, and the body may redefine it or start a definition that
what comes after goes into. -/
theorem evaluate_call (cfg : Config) {m m' : Machine} {s s' : Stack}
    {before body : List String} {f : String}
    (hbefore : m.evaluate cfg before s = ⟨m', .ok s'⟩) (hidle : m'.recorder = .idle)
    (hf : m'.lookup f = .user body) (after : List String) :
    isLimited (m.evaluate cfg (before ++ [f] ++ after) s).result = true ∨
      m.evaluate cfg (before ++ [f] ++ after) s =
        m.evaluate cfg (before ++ body ++ after) s := by
  have hrun := evaluate_eq_ok_iff.mp hbefore
  rw [evaluate_eq_settle, evaluate_eq_settle]
  apply UpToLimit.settle
  simp only [run_append, hrun]
  exact (run_call cfg _ _ hidle hf s').bind fun _ => .inr rfl

/-- A stored start marker: the call starts a definition, which the tokens after it
complete. -/
theorem evaluate_call_of_marker :
    (evaluate {} {} ["arm", "store"] ["("]).machine.lookup "arm" = .user ["("] ∧
    evaluate {} {} (["arm", "store"] ++ ["arm"] ++ ["g", "1", ")"]) ["("] =
      evaluate {} {} (["arm", "store"] ++ ["("] ++ ["g", "1", ")"]) ["("] := by
  have hbefore : evaluate {} {} ["arm", "store"] ["("] =
      ⟨(evaluate {} {} ["arm", "store"] ["("]).machine, .ok []⟩ := rfl
  have hf : (evaluate {} {} ["arm", "store"] ["("]).machine.lookup "arm" = .user ["("] := rfl
  refine ⟨hf, (evaluate_call {} hbefore rfl hf ["g", "1", ")"]).resolve_left fun h => ?_⟩
  cases h

end Rpn.Machine
