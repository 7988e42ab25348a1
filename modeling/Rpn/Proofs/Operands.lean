import Rpn.Proofs.Runs

/-! Operators on a stack with their operands on top.

What an operator does is clear once its operands are known as numbers: it leaves the
stack below them and pushes its results, or it refuses them. One statement for each way
operands are taken, and from these one for each shape of operator that is met with
known operands. -/
namespace Rpn

/-! ### Taking operands -/

namespace Stack

theorem number_of_parse? {t : String} {x : Binary64} (h : Binary64.parse? t = some x) :
    number t = .ok x := by
  rw [number, h]

theorem popNumber_concat (s : Stack) {t : String} {x : Binary64} (h : number t = .ok x) :
    popNumber (s ++ [t]) = .ok (s, x) := by
  simp [popNumber, Machine.popToken_concat, h, bind, Except.bind, pure, Except.pure]

/-- As many tokens as there are numbers to take. -/
theorem popNumbers_eq (s ts : Stack) :
    popNumbers (s ++ ts) ts.length = return (s, ← ts.mapM number) := by
  have hlength : ((s ++ ts).length - (ts.length : Int)).toNat = s.length := by
    rw [List.length_append]
    omega
  have hrequire : require (s ++ ts) ts.length = .ok () := by
    rw [require, if_neg]
    rw [List.length_append]
    omega
  simp only [popNumbers, dropTop, top, hrequire, hlength, List.take_left', List.drop_left']
  rfl

theorem popNumbers_append (s : Stack) {ts : List String} {xs : List Binary64}
    (h : ts.mapM number = .ok xs) : popNumbers (s ++ ts) ts.length = .ok (s, xs) := by
  rw [popNumbers_eq, h]
  rfl

theorem popNumbers_pair (s : Stack) {a b : String} {x y : Binary64} (ha : number a = .ok x)
    (hb : number b = .ok y) : popNumbers (s ++ [a, b]) 2 = .ok (s, [x, y]) := by
  have hnumbers : [a, b].mapM number = .ok [x, y] := by
    simp [ha, hb, bind, Except.bind, pure, Except.pure]
  exact popNumbers_append s hnumbers

theorem popCount_concat (s : Stack) {t : String} {x : Binary64} {n : Nat} (h : number t = .ok x)
    (hn : x.toInt? = some n) : popCount (s ++ [t]) = .ok (s, n) := by
  simp only [popCount, popNumber_concat s h, bind, Except.bind, hn]
  rfl

/-- A token that is taken as a count is a whole number that is not negative. -/
theorem number_of_popCount {s rest : Stack} {t : String} {n : Nat}
    (h : popCount (s ++ [t]) = .ok (rest, n)) :
    ∃ x : Binary64, number t = .ok x ∧ x.toInt? = some n := by
  cases hx : number t with
  | error f =>
    simp [popCount, popNumber, Machine.popToken_concat, hx, bind, Except.bind] at h
  | ok x =>
    refine ⟨x, rfl, ?_⟩
    simp only [popCount, popNumber_concat s hx, bind, Except.bind] at h
    split at h
    case h_1 m hm =>
      obtain ⟨-, rfl⟩ := Prod.mk.inj (Except.ok.inj h)
      exact hm
    case h_2 => cases h

theorem iota_concat (s : Stack) {t : String} {x : Binary64} {n : Nat} (h : number t = .ok x)
    (hn : x.toInt? = some n) :
    iota (s ++ [t]) = if Operator.maxRange < n then .error (.rangeTooLong Operator.maxRange)
      else .ok (s ++ oneTo n) := by
  simp only [iota, popCount_concat s h hn, bind, Except.bind]
  split <;> rfl

end Stack

/-! ### Shapes of operators -/

namespace Builtin

/-- A call failed because of operands outside the domain of the operator. -/
def OutOfDomain (result : Except Fault Stack) : Prop := ∃ f, result = .error f ∧ f.kind = .domain

theorem OutOfDomain.ne_ok {result : Except Fault Stack} (h : OutOfDomain result) (r : Stack) :
    result ≠ .ok r := by
  obtain ⟨f, rfl, -⟩ := h
  exact nofun

/-- What is left below the operands, and the result or the refusal. -/
theorem unary_apply (f : Binary64 → Option Number) (s : Stack) {a : String} {x : Binary64}
    (ha : Stack.number a = .ok x) :
    (unary f).apply (s ++ [a]) = match f x with
      | some r => .ok (s ++ [r.token])
      | none => .error (.refused (cannotApply 1) [x]) := by
  simp only [apply, Stack.popNumber_concat s ha, bind, Except.bind]
  cases f x <;> rfl

@[inherit_doc unary_apply]
theorem binary_apply (f : Binary64 → Binary64 → Option Number) (s : Stack) {a b : String}
    {x y : Binary64} (ha : Stack.number a = .ok x) (hb : Stack.number b = .ok y) :
    (binary f).apply (s ++ [a, b]) = match f x y with
      | some r => .ok (s ++ [r.token])
      | none => .error (.refused (cannotApply 2) [x, y]) := by
  simp only [apply, Stack.popNumbers_pair s ha hb, bind, Except.bind]
  cases f x y <;> rfl

/-- A function of two numbers, if the repetition ends. -/
theorem looping_apply {ends : Binary64 → Binary64 → Bool}
    (f : Binary64 → Binary64 → Option Number) (s : Stack) {a b : String} {x y : Binary64}
    (ha : Stack.number a = .ok x) (hb : Stack.number b = .ok y) :
    (looping ends f).apply (s ++ [a, b]) =
      if ends x y then (binary f).apply (s ++ [a, b]) else .error (.endless [x, y]) := by
  simp only [apply, Stack.popNumbers_pair s ha hb, bind, Except.bind]
  cases ends x y <;> rfl

@[inherit_doc unary_apply]
theorem ternary_apply (f : Binary64 → Binary64 → Binary64 → Option (List Number)) (s : Stack)
    {a b c : String} {x y z : Binary64} (ha : Stack.number a = .ok x)
    (hb : Stack.number b = .ok y) (hc : Stack.number c = .ok z) :
    (ternary f).apply (s ++ [a, b, c]) = match f x y z with
      | some rs => .ok (s ++ rs.map Number.token)
      | none => .error (.refused (cannotApply 3) [x, y, z]) := by
  have hnumbers : [a, b, c].mapM Stack.number = .ok [x, y, z] := by
    simp [ha, hb, hc, bind, Except.bind, pure, Except.pure]
  have hpop : Stack.popNumbers (s ++ [a, b, c]) 3 = .ok (s, [x, y, z]) :=
    Stack.popNumbers_append s hnumbers
  simp only [apply, hpop, bind, Except.bind]
  cases f x y z <;> rfl

/-- Operands that are not refused are numbers. -/
theorem numbers_of_ternary {f : Binary64 → Binary64 → Binary64 → Option (List Number)}
    {s r : Stack} {a b c : String} (h : (ternary f).apply (s ++ [a, b, c]) = .ok r) :
    ∃ x y z, Stack.number a = .ok x ∧ Stack.number b = .ok y ∧ Stack.number c = .ok z := by
  have hpop : Stack.popNumbers (s ++ [a, b, c]) 3 = return (s, ← [a, b, c].mapM Stack.number) :=
    Stack.popNumbers_eq s [a, b, c]
  simp only [apply, hpop] at h
  cases ha : Stack.number a with
  | error f => simp [ha, bind, Except.bind] at h
  | ok x =>
    cases hb : Stack.number b with
    | error f => simp [ha, hb, bind, Except.bind] at h
    | ok y =>
      cases hc : Stack.number c with
      | error f => simp [ha, hb, hc, bind, Except.bind] at h
      | ok z => exact ⟨x, y, z, rfl, rfl, rfl⟩

theorem spell_apply (r : Radix) (s : Stack) {t : String} {x : Binary64} {n : Int}
    (h : Stack.number t = .ok x) (hn : x.toInt? = some n) :
    (spell r).apply (s ++ [t]) = .ok (s ++ [r.spell n]) := by
  simp only [apply, Stack.popNumber_concat s h, hn, bind, Except.bind]
  rfl

theorem unspell_apply (r : Radix) (s : Stack) {t : String} {n : Int}
    (h : r.parse? t.toList = some n) (hn : n.natAbs < Nat.pow 10 maxDecimalDigits) :
    (unspell r).apply (s ++ [t]) = .ok (s ++ [Numeral.intText n]) := by
  simp only [apply, Machine.popToken_concat, unspelled, h, hn, if_true, bind, Except.bind]
  rfl

end Builtin

end Rpn
