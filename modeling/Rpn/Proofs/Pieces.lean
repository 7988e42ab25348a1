import Rpn.Proofs.Runs

/-! Programs cut into calls.

A call takes the machine as the call before left it, with the commands stored so far and
the definition in progress, and the stack that the call before returned. So what goes
from piece to piece is all that goes from token to token inside a call, and it does not
matter where a program is cut (`evaluate_in_pieces`), also not in the middle of a
definition. Only how much a failure takes back depends on it: a single call gives back
the machine from before the program, and the call that fails the machine from before its
piece. -/
namespace Rpn.Machine

/-- A call for each piece, each on the stack that the call before returned, up to the first
that fails. -/
def evaluatePieces (cfg : Config) (m : Machine) (s : Stack) : List (List String) → Outcome
  | [] => ⟨m, .ok s⟩
  | p :: ps =>
    match m.evaluate cfg p s with
    | ⟨m', .ok s'⟩ => evaluatePieces cfg m' s' ps
    | ⟨m', .error e⟩ => ⟨m', .error e⟩

variable {cfg : Config} {m m' : Machine} {s s' : Stack}

/-- The machine and the stack between two calls are those that a single call has between
the same tokens. -/
theorem evaluatePieces_eq_ok_iff {pieces : List (List String)} :
    evaluatePieces cfg m s pieces = ⟨m', .ok s'⟩ ↔
      run cfg cfg.ceiling 0 (m, s) pieces.flatten = .ok (m', s') := by
  induction pieces generalizing m s with
  | nil => simp [evaluatePieces, run_eq_steps, steps]
  | cons p ps ih =>
    rw [evaluatePieces, evaluate_eq_settle, List.flatten_cons, run_append]
    cases run cfg cfg.ceiling 0 (m, s) p with
    | ok st => exact ih
    | error e => simp [settle, Except.bind]

theorem evaluatePieces_append {before : List (List String)}
    (h : evaluatePieces cfg m s before = ⟨m', .ok s'⟩) (after : List (List String)) :
    evaluatePieces cfg m s (before ++ after) = evaluatePieces cfg m' s' after := by
  induction before generalizing m s with
  | nil =>
    obtain ⟨rfl, hs⟩ := Outcome.mk.inj h
    obtain rfl := Except.ok.inj hs
    rfl
  | cons p ps ih =>
    rw [evaluatePieces] at h
    rw [List.cons_append, evaluatePieces]
    generalize m.evaluate cfg p s = o at h ⊢
    obtain ⟨m₁, result⟩ := o
    cases result with
    | ok s₁ => exact ih h
    | error e => simp at h

/-- A piece that fails is the last. -/
theorem evaluatePieces_of_error {p : List String} {e : Failure}
    (h : (m.evaluate cfg p s).result = .error e) (after : List (List String)) :
    (evaluatePieces cfg m s (p :: after)).result = .error e := by
  rw [evaluatePieces, evaluate_eq_settle, evaluate_error_iff.mp h]
  rfl

/-- **Where a program is cut into calls does not matter.** Calls on the pieces, each on
the stack that the call before returned, end in a machine and a stack if a single call on
the whole program does, and these are the same. If the calls come to a piece that fails,
the single call fails with the same failure, reported with the same kind, message, token
and depth. -/
theorem evaluate_in_pieces (cfg : Config) (m : Machine) (s : Stack)
    (pieces : List (List String)) :
    (∀ m' s', evaluatePieces cfg m s pieces = ⟨m', .ok s'⟩ ↔
      m.evaluate cfg pieces.flatten s = ⟨m', .ok s'⟩) ∧
    ∀ before p after m' s' e, pieces = before ++ p :: after →
      evaluatePieces cfg m s before = ⟨m', .ok s'⟩ → (m'.evaluate cfg p s').result = .error e →
      (evaluatePieces cfg m s pieces).result = .error e ∧
        (m.evaluate cfg pieces.flatten s).result = .error e := by
  constructor
  · intro m' s'
    rw [evaluatePieces_eq_ok_iff, evaluate_eq_ok_iff]
  · rintro before p after m' s' e rfl hbefore hp
    constructor
    · rw [evaluatePieces_append hbefore]
      exact evaluatePieces_of_error hp after
    · rw [evaluate_error_iff, List.flatten_append, List.flatten_cons, run_append,
        evaluatePieces_eq_ok_iff.mp hbefore]
      show run cfg cfg.ceiling 0 (m', s') (p ++ after.flatten) = .error e
      rw [run_append, evaluate_error_iff.mp hp]
      rfl

/-- A definition cut in its body and before its end answers as in one piece. A start marker
in a later piece of a definition fails as in one piece. -/
theorem evaluate_in_pieces_of_definition :
    (∃ m, evaluatePieces {} {} ["4"] [["(", "twin"], ["dup"], [")", "twin"]] =
        ⟨m, .ok ["4", "4"]⟩ ∧
      evaluate {} {} ["(", "twin", "dup", ")", "twin"] ["4"] = ⟨m, .ok ["4", "4"]⟩) ∧
    (evaluatePieces {} {} [] [["7", "n", "store", "(", "f"], ["1", "("], ["n"]]).result =
      .error (.located .nestedDefinition "(" 0) ∧
    (evaluate {} {} ["7", "n", "store", "(", "f", "1", "(", "n"] []).result =
      .error (.located .nestedDefinition "(" 0) := by
  constructor
  · have hcalls : evaluatePieces {} {} ["4"] [["(", "twin"], ["dup"], [")", "twin"]] =
        ⟨{ commands := (∅ : Commands).insert "twin" ["dup"] }, .ok ["4", "4"]⟩ := rfl
    exact ⟨_, hcalls, ((evaluate_in_pieces _ _ _ _).1 _ _).mp hcalls⟩
  · have hbefore : evaluatePieces {} {} [] [["7", "n", "store", "(", "f"]] =
        ⟨(evaluate {} {} ["7", "n", "store", "(", "f"] []).machine, .ok []⟩ := rfl
    exact (evaluate_in_pieces {} {} [] _).2 _ ["1", "("] [["n"]] _ [] _ rfl hbefore rfl

end Rpn.Machine
