import Mathlib.Data.List.Induction
import Rpn.Proofs.Operands

/-! Counted operators are the plain ones, repeated.

A count cuts the stack below it in two, and what a counted operator does is said in terms
of the two parts: the parts change places, or the upper one goes. A plain operator moves
one token from one part to the other, so that many of them move the whole part, by
induction on it. The operators that exchange the parts are each other's inverses because
each cuts where the other has joined. -/
namespace Rpn

namespace Stack

/-! ### Cutting a stack in two -/

theorem require_of_le {s : Stack} {n : Nat} (h : n ≤ s.length) : require s n = .ok () := by
  rw [require, if_neg (by omega)]

theorem require_of_lt {s : Stack} {n : Nat} (h : s.length < n) :
    require s n = .error (.underflow n) := by
  rw [require, if_pos (by omega)]

section Parts
variable (lower upper : Stack)

theorem top_append : top (lower ++ upper) upper.length = .ok upper := by
  have hplace : ((lower ++ upper).length - (upper.length : Int)).toNat = lower.length := by
    rw [List.length_append]
    omega
  rw [top, require_of_le (by simp), hplace, List.drop_left]
  rfl

theorem dropTop_append : dropTop (lower ++ upper) upper.length = .ok lower := by
  have hplace : ((lower ++ upper).length - (upper.length : Int)).toNat = lower.length := by
    rw [List.length_append]
    omega
  rw [dropTop, require_of_le (by simp), hplace, List.take_left]
  rfl

theorem bottom_append : bottom (lower ++ upper) lower.length = .ok lower := by
  have hplace : place (lower ++ upper) lower.length = lower.length := by simp [place]
  rw [bottom, require_of_le (by simp), hplace, List.take_left]
  rfl

theorem dropBottom_append : dropBottom (lower ++ upper) lower.length = .ok upper := by
  have hplace : place (lower ++ upper) lower.length = lower.length := by simp [place]
  rw [dropBottom, require_of_le (by simp), hplace, List.drop_left]
  rfl

end Parts

theorem exists_upper {s : Stack} {n : Nat} (h : n ≤ s.length) :
    ∃ lower upper, s = lower ++ upper ∧ upper.length = n := by
  refine ⟨s.take (s.length - n), s.drop (s.length - n), (List.take_append_drop _ s).symm, ?_⟩
  rw [List.length_drop]
  omega

theorem exists_lower {s : Stack} {n : Nat} (h : n ≤ s.length) :
    ∃ lower upper, s = lower ++ upper ∧ lower.length = n :=
  ⟨s.take n, s.drop n, (List.take_append_drop n s).symm, List.length_take_of_le h⟩

/-! ### One token at a time -/

theorem discard_concat (s : Stack) (t : String) : discard (s ++ [t]) = .ok s :=
  dropTop_append s [t]

theorem roll_concat (s : Stack) (t : String) : roll (s ++ [t]) = .ok (t :: s) := by
  have htop : top (s ++ [t]) 1 = .ok [t] := top_append s [t]
  have hrest : dropTop (s ++ [t]) 1 = .ok s := dropTop_append s [t]
  rw [roll, htop, hrest]
  rfl

theorem rotate_cons (s : Stack) (t : String) : rotate (t :: s) = .ok (s ++ [t]) := by
  have hbottom : bottom (t :: s) 1 = .ok [t] := bottom_append [t] s
  have hrest : dropBottom (t :: s) 1 = .ok s := dropBottom_append [t] s
  rw [rotate, hbottom, hrest]
  rfl

/-- An operator, applied so many times. -/
def repeated (f : Stack → Except Fault Stack) : Nat → Stack → Except Fault Stack
  | 0, s => .ok s
  | n + 1, s => f s >>= repeated f n

theorem repeated_succ {f : Stack → Except Fault Stack} {s r : Stack} (h : f s = .ok r) (n : Nat) :
    repeated f (n + 1) s = repeated f n r := by
  rw [repeated, h]
  rfl

theorem repeated_discard (lower upper : Stack) :
    repeated discard upper.length (lower ++ upper) = .ok lower := by
  -- from the top down
  induction upper using List.reverseRecOn with
  | nil => simp [repeated]
  | append_singleton upper t ih =>
    rw [List.length_append, List.length_singleton, ← List.append_assoc,
      repeated_succ (discard_concat _ t), ih]

/-- Moving the top to the bottom moves the upper part below the lower. -/
theorem repeated_roll (lower upper : Stack) :
    repeated roll upper.length (lower ++ upper) = .ok (upper ++ lower) := by
  induction upper using List.reverseRecOn generalizing lower with
  | nil => simp [repeated]
  | append_singleton upper t ih =>
    rw [List.length_append, List.length_singleton, ← List.append_assoc,
      repeated_succ (roll_concat _ t), ← List.cons_append, ih, List.append_assoc,
      List.singleton_append]

/-- Moving the bottom to the top moves the lower part above the upper. -/
theorem repeated_rotate (lower upper : Stack) :
    repeated rotate lower.length (lower ++ upper) = .ok (upper ++ lower) := by
  induction lower generalizing upper with
  | nil => simp [repeated]
  | cons t lower ih =>
    rw [List.length_cons, List.cons_append, repeated_succ (rotate_cons _ t), List.append_assoc,
      ih, List.append_assoc, List.singleton_append]

/-! ### As many as the count says -/

section Counts
variable {k : String} {n : Nat} (hk : popCount [k] = .ok ([], n))
include hk

/-- A count is read alike on every stack. -/
theorem popCount_append (s : Stack) : popCount (s ++ [k]) = .ok (s, n) := by
  obtain ⟨x, hx, hn⟩ := number_of_popCount (s := []) hk
  exact popCount_concat s hx hn

theorem discardCounted_append {lower upper : Stack} (h : upper.length = n) :
    discardCounted (lower ++ upper ++ [k]) = .ok lower := by
  subst h
  rw [discardCounted, popCount_append hk]
  exact dropTop_append lower upper

theorem rollCounted_append {lower upper : Stack} (h : upper.length = n) :
    rollCounted (lower ++ upper ++ [k]) = .ok (upper ++ lower) := by
  subst h
  simp only [rollCounted, popCount_append hk, top_append, dropTop_append, bind, Except.bind]
  rfl

theorem rotateCounted_append {lower upper : Stack} (h : lower.length = n) :
    rotateCounted (lower ++ upper ++ [k]) = .ok (upper ++ lower) := by
  subst h
  simp only [rotateCounted, popCount_append hk, bottom_append, dropBottom_append, bind,
    Except.bind]
  rfl

/-- More than there are is refused before anything is moved. -/
theorem counted_of_lt {s : Stack} (h : s.length < n) :
    discardCounted (s ++ [k]) = .error (.underflow n) ∧
      rollCounted (s ++ [k]) = .error (.underflow n) ∧
      rotateCounted (s ++ [k]) = .error (.underflow n) := by
  simp [discardCounted, rollCounted, rotateCounted, dropTop, top, dropBottom,
    popCount_append hk, require_of_lt h, bind, Except.bind]

end Counts

end Stack

namespace Builtin

/-- Counted operators, each with the plain one that it repeats. -/
def countedOperators : List (String × String) :=
  [("rolln", "roll"), ("rotn", "rot"), ("dropn", "drop")]

/-- Counted operators, each with the one that undoes it. -/
def countedInverses : List (String × String) := [("rolln", "rotn"), ("rotn", "rolln")]

/-- A call failed because the stack had too few tokens. -/
def Underflows (result : Except Fault Stack) : Prop :=
  ∃ f, result = .error f ∧ f.kind = .stackUnderflow

/-- **Counted operators are iterations of the plain ones.** With a count of at most the
tokens below it, each does what the plain operator does if applied so many times, and
those that move tokens are each other's inverses and keep all tokens. With a larger count
each finds too few tokens. -/
theorem counted_operators_iterate (s : Stack) {k : String} {n : Nat}
    (hk : Stack.popCount [k] = .ok ([], n)) :
    (∀ counted plain, (counted, plain) ∈ countedOperators →
      (n ≤ s.length → ∃ r, call counted (s ++ [k]) = .ok r ∧
        Stack.repeated (call plain) n s = .ok r) ∧
      (s.length < n → Underflows (call counted (s ++ [k])))) ∧
    ∀ counted inverse, (counted, inverse) ∈ countedInverses → n ≤ s.length →
      ∃ r, call counted (s ++ [k]) = .ok r ∧ call inverse (r ++ [k]) = .ok s ∧ r.Perm s := by
  refine ⟨fun counted plain hmem => ⟨fun hn => ?_, fun hn => ?_⟩,
    fun counted inverse hmem hn => ?_⟩
  · obtain ⟨below, top, htop, hlast⟩ := Stack.exists_upper hn
    obtain ⟨bottom, above, hbottom, hfirst⟩ := Stack.exists_lower hn
    simp only [countedOperators, List.mem_cons, Prod.mk.injEq, List.not_mem_nil, or_false] at hmem
    rcases hmem with ⟨rfl, rfl⟩ | ⟨rfl, rfl⟩ | ⟨rfl, rfl⟩
    · subst htop hlast
      exact ⟨_, Stack.rollCounted_append hk rfl, Stack.repeated_roll below top⟩
    · subst hbottom hfirst
      exact ⟨_, Stack.rotateCounted_append hk rfl, Stack.repeated_rotate bottom above⟩
    · subst htop hlast
      exact ⟨_, Stack.discardCounted_append hk rfl, Stack.repeated_discard below top⟩
  · obtain ⟨hdiscard, hroll, hrotate⟩ := Stack.counted_of_lt hk hn
    simp only [countedOperators, List.mem_cons, Prod.mk.injEq, List.not_mem_nil, or_false] at hmem
    rcases hmem with ⟨rfl, rfl⟩ | ⟨rfl, rfl⟩ | ⟨rfl, rfl⟩
    · exact ⟨_, hroll, rfl⟩
    · exact ⟨_, hrotate, rfl⟩
    · exact ⟨_, hdiscard, rfl⟩
  · simp only [countedInverses, List.mem_cons, Prod.mk.injEq, List.not_mem_nil, or_false] at hmem
    rcases hmem with ⟨rfl, rfl⟩ | ⟨rfl, rfl⟩
    · obtain ⟨lower, upper, rfl, hlength⟩ := Stack.exists_upper hn
      exact ⟨upper ++ lower, Stack.rollCounted_append hk hlength,
        Stack.rotateCounted_append hk hlength, List.perm_append_comm⟩
    · obtain ⟨lower, upper, rfl, hlength⟩ := Stack.exists_lower hn
      exact ⟨upper ++ lower, Stack.rotateCounted_append hk hlength,
        Stack.rollCounted_append hk hlength, List.perm_append_comm⟩

/-- Two tokens moved down and up again, with a count that is spelled with an exponent, and
a count past the end. -/
theorem counted_operators_iterate_of_exponent :
    Stack.popCount ["0.2e1"] = .ok ([], 2) ∧
      call "rolln" ["a", "b", "c", "0.2e1"] = .ok ["b", "c", "a"] ∧
      Stack.repeated (call "roll") 2 ["a", "b", "c"] = .ok ["b", "c", "a"] ∧
      call "rotn" ["b", "c", "a", "0.2e1"] = .ok ["a", "b", "c"] ∧
      Underflows (call "dropn" ["a", "0.2e1"]) := by
  have hcount : Stack.popCount ["0.2e1"] = .ok ([], 2) := by
    have hnumber : Stack.number "0.2e1" = .ok 2 := Stack.number_of_parse? (by decide +kernel)
    exact Stack.popCount_concat [] hnumber (by decide +kernel)
  obtain ⟨hiterates, hinverts⟩ := counted_operators_iterate ["a", "b", "c"] hcount
  obtain ⟨r, hcall, hrepeated⟩ := (hiterates "rolln" "roll" (by decide)).1 (by decide)
  obtain ⟨r', hcall', hback, -⟩ := hinverts "rolln" "rotn" (by decide) (by decide)
  obtain ⟨hshort, -⟩ := counted_operators_iterate ["a"] hcount
  have hmoved : Stack.repeated (call "roll") 2 ["a", "b", "c"] = .ok ["b", "c", "a"] := rfl
  obtain rfl : ["b", "c", "a"] = r := Except.ok.inj (hmoved.symm.trans hrepeated)
  obtain rfl : ["b", "c", "a"] = r' := Except.ok.inj (hcall.symm.trans hcall')
  exact ⟨hcount, hcall, hmoved, hback, (hshort "dropn" "drop" (by decide)).2 (by decide)⟩

end Builtin

end Rpn
