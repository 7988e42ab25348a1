import Rpn.Proofs.Integers
import Rpn.Proofs.Ranges

/-! Ranges of integers are exact.

Between integers of at most 52 bits every step is exact, so the rounds of a range take
the numbers of an arithmetic progression (`rounds_progression`), and as they can take
nothing else (`Rounds.unique`), that is the range. The quotient that guards against long
ranges is rounded, but it counts the steps well enough: a range that is too long is
always refused, and one whose steps fit is not. -/
namespace Rpn.Operator
open Binary64

/-! ### Progressions -/

/-- The integers from `a` on in steps of `d`, `k` steps. -/
def progression (a d : Int) (k : Nat) : List Int :=
  (List.range (k + 1)).map fun i : Nat => a + i * d

theorem progression_zero (a d : Int) : progression a d 0 = [a] := by
  simp [progression]

theorem progression_succ (a d : Int) (k : Nat) :
    progression a d (k + 1) = a :: progression (a + d) d k := by
  have hnext : (fun i : Nat => a + i * d) ∘ Nat.succ = fun i : Nat => a + d + i * d := by
    funext i
    show a + (i + 1 : Nat) * d = a + d + i * d
    push_cast
    ring
  rw [progression, List.range_succ_eq_map, List.map_cons, List.map_map, hnext]
  simp [progression]

/-! ### Integer steps -/

/-- A step of `c`, up or down. -/
def stride (up : Bool) (c : Nat) : Int := if up then c else -c

/-- How far it is from `z` to `b`, up or down. -/
def distance (up : Bool) (b z : Int) : Int := if up then b - z else z - b

theorem distance_stride (up : Bool) (b z : Int) (c : Nat) :
    distance up b (z + stride up c) = distance up b z - c := by
  cases up <;> simp only [distance, stride, Bool.false_eq_true, if_false, if_true] <;> omega

section Steps
variable {up : Bool} {b z : Int} {c : Nat}

theorem advance_ofInt (hz : z.natAbs ≤ 2 ^ 53) (hc : c ≤ 2 ^ 53) :
    advance up (ofInt c) (ofInt z) = ofInt (z + stride up c) := by
  -- by rewriting: to compare by evaluation would count the units of `z`
  unfold advance stride
  cases up
  · rw [if_neg Bool.false_ne_true, if_neg Bool.false_ne_true, ofInt_sub hz (y := c) hc,
      Int.sub_eq_add_neg]
  · rw [if_pos rfl, if_pos rfl, ofInt_add hz (y := c) hc]

theorem within_ofInt (hb : b.natAbs ≤ 2 ^ 53) (hz : z.natAbs ≤ 2 ^ 53) :
    within up (ofInt b) (ofInt z) = decide (0 ≤ distance up b z) := by
  cases up
  · show (ofInt b).le (ofInt z) = decide (0 ≤ z - b)
    rw [ofInt_le hb hz]
    exact decide_eq_decide.mpr Int.sub_nonneg.symm
  · show (ofInt z).le (ofInt b) = decide (0 ≤ b - z)
    rw [ofInt_le hz hb]
    exact decide_eq_decide.mpr Int.sub_nonneg.symm

theorem natAbs_stride (up : Bool) (c : Nat) : (stride up c).natAbs = c := by
  cases up
  · exact Int.natAbs_neg _
  · rfl

/-- A step that does not lead past the end stays within the bounds of the ends. -/
theorem natAbs_add_stride_le (hb : b.natAbs ≤ 2 ^ 52) (hz : z.natAbs ≤ 2 ^ 52)
    (h : 0 ≤ distance up b (z + stride up c)) : (z + stride up c).natAbs ≤ 2 ^ 52 := by
  cases up <;> simp only [distance, stride, Bool.false_eq_true, if_false, if_true] at h ⊢ <;> omega

/-- One round takes an integer that is not past the end. -/
theorem round_ofInt (hb : b.natAbs ≤ 2 ^ 52) (hc : 0 < c) (hcle : c ≤ 2 ^ 52)
    (hz : z.natAbs ≤ 2 ^ 52) (hwithin : 0 ≤ distance up b z) {r : Option (List Binary64)}
    (hrest : Rounds up (ofInt b) (ofInt c) (ofInt (z + stride up c)) r) :
    Rounds up (ofInt b) (ofInt c) (ofInt z) (r.map (ofInt z :: ·)) := by
  have hstride := natAbs_stride up c
  have hadvance : advance up (ofInt c) (ofInt z) = ofInt (z + stride up c) :=
    advance_ofInt (by omega) (by omega)
  refine .round ?_ ?_ ?_
  · rw [within_ofInt (by omega) (by omega)]
    exact decide_eq_true hwithin
  · rw [hadvance, ofInt_beq (by omega) (by omega)]
    exact decide_eq_false (by omega)
  · rwa [hadvance]

/-- From an integer that is not past the end, the rounds take a progression. -/
theorem rounds_progression (hb : b.natAbs ≤ 2 ^ 52) (hc : 0 < c) (hcle : c ≤ 2 ^ 52)
    (hz : z.natAbs ≤ 2 ^ 52) {k : Nat} (hlow : (k * c : Nat) ≤ distance up b z)
    (hhigh : distance up b z < ((k + 1) * c : Nat)) :
    Rounds up (ofInt b) (ofInt c) (ofInt z) (some ((progression z (stride up c) k).map ofInt)) := by
  have hdistance := distance_stride up b z c
  have hstride := natAbs_stride up c
  -- by the steps that are left: after none, the next step leads past the end
  induction k generalizing z with
  | zero =>
    have hpast : within up (ofInt b) (ofInt (z + stride up c)) = false := by
      rw [within_ofInt (by omega) (by omega)]
      exact decide_eq_false (by omega)
    rw [progression_zero]
    exact round_ofInt hb hc hcle hz (by omega) (.past hpast)
  | succ k ih =>
    rw [Nat.succ_mul] at hlow hhigh
    have hnext := natAbs_add_stride_le hb hz (show 0 ≤ distance up b (z + stride up c) by omega)
    rw [progression_succ]
    exact round_ofInt hb hc hcle hz (by omega)
      (ih hnext (by omega) (by omega) (distance_stride up b _ c))

end Steps

/-! ### Integer ranges -/

/-- The operands of a range that is exact. -/
structure Exact (a b c : Int) : Prop where
  start : a.natAbs ≤ 2 ^ 52
  stop : b.natAbs ≤ 2 ^ 52
  step : c.natAbs ≤ 2 ^ 52
  nonzero : c ≠ 0

/-- The integers of a range. -/
def integers (a b c : Int) : List Int :=
  progression a (stride (decide (a < b)) c.natAbs) ((b - a).natAbs / c.natAbs)

theorem toString_integers (a b c : Int) : (integers a b c).map toString =
    (List.range ((b - a).natAbs / c.natAbs + 1)).map fun i : Nat =>
      toString (a + i * if a < b then (c.natAbs : Int) else -c.natAbs) := by
  simp only [integers, progression, stride, List.map_map, Function.comp_def, decide_eq_true_eq]

/-- Is the range from `a` to `b` too long, by the quotient that is computed? -/
def tooLong (a b c : Int) : Bool :=
  lt (ofInt maxRange) (ofInt (b - a).natAbs / ofInt c.natAbs + ofInt 1)

namespace Exact
variable {a b c : Int} (h : Exact a b c)
include h

theorem step_pos : 0 < c.natAbs := Int.natAbs_pos.mpr h.nonzero

theorem step_le : c.natAbs ≤ 2 ^ 53 := Nat.le_trans h.step (by norm_num)

theorem span_le : (b - a).natAbs ≤ 2 ^ 53 := by
  have hstart := h.start
  have hstop := h.stop
  omega

theorem rounds : Rounds (decide (a < b)) (ofInt b) (ofInt c.natAbs) (ofInt a)
    (some ((integers a b c).map ofInt)) := by
  have hdistance : distance (decide (a < b)) b a = (b - a).natAbs := by
    unfold distance
    by_cases hup : a < b
    · rw [if_pos (by simpa using hup)]
      omega
    · rw [if_neg (by simpa using hup)]
      omega
  refine rounds_progression h.stop h.step_pos h.step h.start ?_ ?_
  · rw [hdistance]
    exact Int.ofNat_le.mpr (Nat.div_mul_le_self _ _)
  · rw [hdistance]
    exact Int.ofNat_lt.mpr ((Nat.div_lt_iff_lt_mul h.step_pos).mp (Nat.lt_succ_self _))

/-- A range of integers is exact unless it counts as too long. -/
theorem range?_ofInt : range? (ofInt a) (ofInt b) (ofInt c) =
    if tooLong a b c then none else some ((integers a b c).map ofInt) := by
  obtain ⟨hstart, hstop, hstep, hnonzero⟩ := h
  have habs : (ofInt c).abs = ofInt c.natAbs := abs_ofInt (by omega)
  have hsub : (ofInt b - ofInt a).abs = ofInt (b - a).natAbs := by
    rw [ofInt_sub (by omega) (by omega), abs_ofInt (by omega)]
  have hzero : (ofInt c).abs.eq 0 = false := by
    rw [habs, show (0 : Binary64) = ofInt 0 from ofNat_eq_ofInt 0,
      ofInt_beq (by omega) (by omega)]
    exact decide_eq_false (by omega)
  have hone : (1 : Binary64) = ofInt 1 := ofNat_eq_ofInt 1
  have hwalk : walk (decide (a < b)) (ofInt b) (ofInt c.natAbs) (ofInt a) [] =
      some ((integers a b c).map ofInt) := by
    have hrange := rounds_range (isFinite_ofInt (z := a) (by omega))
      (isFinite_ofInt (z := b) (by omega)) (ofInt c)
    rw [habs, ofInt_lt (by omega) (by omega)] at hrange
    exact hrange.unique (rounds ⟨hstart, hstop, hstep, hnonzero⟩)
  rw [range?_eq hzero (isFinite_ofInt (by omega)) (isFinite_ofInt (by omega)), habs, hsub, hone,
    ofNat_eq_ofInt, ofInt_beq (by omega) (by omega), ofInt_lt (by omega) (by omega), hwalk]
  by_cases hab : a = b
  · subst hab
    have hpoint : integers a a c = [a] := by simp [integers, progression_zero]
    simp [hpoint, tooLong]
  · simp [hab, tooLong]

theorem tooLong_of_lt (hlong : maxRange < (b - a).natAbs / c.natAbs + 1) :
    tooLong a b c = true := by
  have hsteps : maxRange * c.natAbs ≤ (b - a).natAbs :=
    (Nat.le_div_iff_mul_le h.step_pos).mp (Nat.le_of_lt_succ hlong)
  have hbound : maxRange < 2 ^ 53 := by norm_num [maxRange]
  have hless : (ofInt maxRange).lt (ofInt (maxRange + 1 : Nat)) = true := by
    rw [ofInt_lt (by omega) (by omega)]
    exact decide_eq_true (by omega)
  have hcount := le_div_add_one h.step_pos h.step_le h.span_le hbound hsteps
  exact lt_of_lt_of_le hless hcount

theorem tooLong_of_le (hfits : (b - a).natAbs ≤ (maxRange - 1) * c.natAbs) :
    tooLong a b c = false := by
  have hbound : maxRange - 1 < 2 ^ 53 := by norm_num [maxRange]
  have hcount := div_add_one_le h.step_pos h.step_le h.span_le hbound hfits
  rw [Nat.sub_add_cancel (by decide)] at hcount
  exact lt_eq_false_of_le hcount

/-- The numbers of a range lie between its ends. -/
theorem natAbs_le_of_mem {z : Int} (hz : z ∈ integers a b c) : z.natAbs ≤ 2 ^ 52 := by
  obtain ⟨hstart, hstop, -, -⟩ := h
  obtain ⟨i, hi, rfl⟩ := List.mem_map.mp hz
  have hle : i * c.natAbs ≤ (b - a).natAbs := by
    have hsteps : i ≤ (b - a).natAbs / c.natAbs := Nat.le_of_lt_succ (List.mem_range.mp hi)
    exact Nat.le_trans (Nat.mul_le_mul_right _ hsteps) (Nat.div_mul_le_self _ _)
  have hcast : ((i * c.natAbs : Nat) : Int) = i * c.natAbs := Int.natCast_mul _ _
  unfold stride
  by_cases hup : a < b
  · rw [if_pos (by simpa using hup)]
    omega
  · rw [if_neg (by simpa using hup), Int.mul_neg]
    omega

theorem call_to_of_tooLong (s : Stack) (hlong : tooLong a b c = true) :
    Builtin.OutOfDomain (Builtin.call "to" (s ++ [toString a, toString b, toString c])) := by
  have hrange := h.range?_ofInt
  rw [if_pos hlong] at hrange
  exact call_to_of_none s (Stack.number_toString a) (Stack.number_toString b)
    (Stack.number_toString c) hrange

/-- The operator pushes the integers of a range as they would be typed. -/
theorem call_to_of_not_tooLong (s : Stack) (hfits : tooLong a b c = false) :
    Builtin.call "to" (s ++ [toString a, toString b, toString c]) =
      .ok (s ++ (integers a b c).map toString) := by
  have hrange := h.range?_ofInt
  rw [if_neg (by simp [hfits])] at hrange
  have htokens : ((integers a b c).map ofInt).map (fun x => (Number.real x).token) =
      (integers a b c).map toString := by
    rw [List.map_map, Function.comp_def]
    refine List.map_congr_left fun z hz => ?_
    exact token_ofInt (Nat.le_trans (h.natAbs_le_of_mem hz) (by norm_num))
  rw [call_to_of_some s (Stack.number_toString a) (Stack.number_toString b)
    (Stack.number_toString c) hrange, htokens]

end Exact

/-! ### Counting from one -/

/-- Counting is refused past the longest range. -/
theorem call_io (s : Stack) {n : Nat} (hn : n ≤ 2 ^ 53) :
    Builtin.call "io" (s ++ [toString n]) =
      if maxRange < n then .error (.rangeTooLong maxRange)
      else .ok (s ++ (List.range n).map fun i => toString (i + 1)) := by
  have hone : Stack.oneTo n = (List.range n).map fun i => toString (i + 1) := by
    refine List.map_congr_left fun i _ => ?_
    exact Numeral.intText_eq_toString (i + 1 : Nat)
  rw [← hone]
  exact Stack.iota_concat s (Stack.number_toString n) (toInt?_ofInt (z := n) hn)

theorem steps_from_one {n : Nat} (hn : 1 ≤ n) : ((n : Int) - 1).natAbs / 1 + 1 = n := by
  rw [Nat.div_one]
  omega

/-- Counting to `n` is the range from 1 to `n`. -/
theorem toString_integers_one {n : Nat} (hn : 1 ≤ n) :
    (integers 1 n 1).map toString = (List.range n).map fun i => toString (i + 1) := by
  rw [toString_integers, Int.natAbs_one, steps_from_one hn]
  refine List.map_congr_left fun i hi => ?_
  -- a single number is a range down, but one without steps
  have hterm : 1 + (i : Int) * (if (1 : Int) < n then ((1 : Nat) : Int) else -(1 : Nat)) =
      (i + 1 : Nat) := by
    have hlt := List.mem_range.mp hi
    split <;> omega
  rw [hterm]
  rfl

/-- **Ranges of integers are exact.** From `a` towards `b` the operator pushes `a`,
`a + d` and so on, to the last that is not past `b`, or refuses its operands; it refuses
if these are too many, and not if the steps fit. Counting to `n` and the range from 1 to
`n` are the same, up to the most that a range may push, and past it both are refused. -/
theorem integer_ranges_exact (s : Stack) :
    (∀ a b c : Int, a.natAbs ≤ 2 ^ 52 → b.natAbs ≤ 2 ^ 52 → c.natAbs ≤ 2 ^ 52 → c ≠ 0 →
      let d : Int := if a < b then c.natAbs else -c.natAbs
      let k := (b - a).natAbs / c.natAbs
      let pushed := Builtin.call "to" (s ++ [toString a, toString b, toString c])
      let expected := s ++ (List.range (k + 1)).map fun i : Nat => toString (a + i * d)
      (pushed = .ok expected ∨ Builtin.OutOfDomain pushed) ∧
      ((b - a).natAbs ≤ (maxRange - 1) * c.natAbs → pushed = .ok expected) ∧
      (maxRange < k + 1 → Builtin.OutOfDomain pushed)) ∧
    ∀ n : Nat, 1 ≤ n → n ≤ 2 ^ 52 →
      let counted := Builtin.call "io" (s ++ [toString n])
      let pushed := Builtin.call "to" (s ++ ["1", toString n, "1"])
      let expected := s ++ (List.range n).map fun i => toString (i + 1)
      (n ≤ maxRange → counted = .ok expected ∧ pushed = .ok expected) ∧
      (maxRange < n → Builtin.OutOfDomain counted ∧ Builtin.OutOfDomain pushed) := by
  refine ⟨?_, ?_⟩
  · intro a b c ha hb hc hnonzero d k pushed expected
    have hexact : Exact a b c := ⟨ha, hb, hc, hnonzero⟩
    have hpushed (hfits : tooLong a b c = false) : pushed = .ok expected := by
      have hcall := hexact.call_to_of_not_tooLong s hfits
      rwa [toString_integers] at hcall
    have hrefused := hexact.call_to_of_tooLong s
    refine ⟨?_, fun hfits => hpushed (hexact.tooLong_of_le hfits),
      fun hlong => hrefused (hexact.tooLong_of_lt hlong)⟩
    cases hlong : tooLong a b c with
    | true => exact .inr (hrefused hlong)
    | false => exact .inl (hpushed hlong)
  · intro n hpos hn counted pushed expected
    have hexact : Exact 1 n 1 := ⟨by norm_num, hn, by norm_num, by decide⟩
    have hcounted := call_io s (Nat.le_trans hn (by norm_num))
    refine ⟨fun hfits => ⟨?_, ?_⟩, fun hlong => ⟨?_, ?_⟩⟩
    · rwa [if_neg (Nat.not_lt.mpr hfits)] at hcounted
    · have hsteps : ((n : Int) - 1).natAbs ≤ (maxRange - 1) * 1 := by omega
      have hpushed := hexact.call_to_of_not_tooLong s (hexact.tooLong_of_le hsteps)
      rwa [toString_integers_one hpos] at hpushed
    · rw [if_pos hlong] at hcounted
      exact ⟨_, hcounted, rfl⟩
    · have hsteps : maxRange < ((n : Int) - 1).natAbs / 1 + 1 := by rwa [steps_from_one hpos]
      exact hexact.call_to_of_tooLong s (hexact.tooLong_of_lt hsteps)

/-- A range down that stops short of its end, a count, and one number too many. -/
theorem integer_ranges_exact_of_descent :
    Builtin.call "to" ["7", "5", "-2", "3"] = .ok ["7", "5", "2", "-1"] ∧
      Builtin.call "io" ["7", "3"] = .ok ["7", "1", "2", "3"] ∧
      Builtin.OutOfDomain (Builtin.call "to" ["7", "1", "1000001", "1"]) := by
  obtain ⟨hrange, hcount⟩ := integer_ranges_exact ["7"]
  obtain ⟨-, hpushed, -⟩ := hrange 5 (-2) 3 (by norm_num) (by norm_num) (by norm_num) (by decide)
  obtain ⟨hfits, -⟩ := hcount 3 (by decide) (by norm_num)
  obtain ⟨-, hlong⟩ := hcount 1000001 (by decide) (by norm_num)
  exact ⟨hpushed (by norm_num [maxRange]), (hfits (by decide)).1, (hlong (by decide)).2⟩

end Rpn.Operator
