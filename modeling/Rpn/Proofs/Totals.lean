import Mathlib.Algebra.BigOperators.Group.List.Lemmas
import Mathlib.Algebra.Order.BigOperators.Group.List
import Mathlib.Algebra.Order.BigOperators.GroupWithZero.List
import Mathlib.Data.List.Perm.Basic
import Rpn.Proofs.Counted
import Rpn.Proofs.Divisors
import Rpn.Proofs.Integers

/-! Totals of integers.

A total of the whole stack is computed from the bottom, on numbers; the operator for two
numbers, applied until one token is left, computes it from the top, and writes and reads
each result on the way. On integers both are exact while no part of them has a total past
2^53. That is so if a size of all of them is below 2^53 that bounds the total of every part:
the sum of the magnitudes, or the product of those that are not zero. Sums and products
differ in nothing else, and so they are two cases of one statement (`Totals`). -/
namespace Rpn

namespace Binary64

/-! ### Sums and products of integers -/

theorem signed_xor_mul (s t : Bool) (m n : Nat) :
    signed (s ^^ t) (m * n) = signed s m * signed t n := by
  cases s <;> cases t <;> simp [signed]

section Exact
variable {x y : Binary64} {a b : Int} (hx : x.toInt? = some a) (hy : y.toInt? = some b)
include hx hy

theorem toInt?_add (h : (a + b).natAbs ≤ 2 ^ 53) : (x + y).toInt? = some (a + b) := by
  rw [toInt?_eq_some_iff] at hx hy ⊢
  obtain ⟨hxfinite, hxunits⟩ := hx
  obtain ⟨hyfinite, hyunits⟩ := hy
  have hposition : (x + y).position = (a + b) * one := by
    rw [position_add hxfinite hyfinite, hxunits, hyunits, ← Int.add_mul, roundPosition_int h]
  refine ⟨isFinite_of_position (isNaN_add hxfinite (isNaN_of_isFinite hyfinite)) ?_, hposition⟩
  rw [hposition]
  exact (representable_natAbs_mul_one h).lt_threshold

theorem toInt?_mul (h : (a * b).natAbs ≤ 2 ^ 53) : (x * y).toInt? = some (a * b) := by
  rw [toInt?_eq_some_iff] at hx hy
  obtain ⟨hxfinite, hxunits⟩ := hx
  obtain ⟨hyfinite, hyunits⟩ := hy
  cases x <;> cases hxfinite
  cases y <;> cases hyfinite
  case finite.refl.finite.refl s m hm t n hn =>
    rw [position] at hxunits hyunits
    have hone : (one : Int) ≠ 0 := Int.natCast_ne_zero.mpr (Nat.ne_of_gt one_pos)
    have hm : m = a.natAbs * one := by
      rw [← natAbs_signed s m, hxunits, natAbs_mul_one]
    have hn : n = b.natAbs * one := by
      rw [← natAbs_signed t n, hyunits, natAbs_mul_one]
    have hunits : m * n = (a * b).natAbs * one * one := by
      rw [hm, hn, Int.natAbs_mul]
      ring
    have hproduct : finite s m ‹_› * finite t n ‹_› =
        finite (s ^^ t) ((a * b).natAbs * one) (representable_int h) := by
      show ofRatio (s ^^ t) (m * n) one = _
      rw [hunits, ofRatio_mul _ one_pos]
    rw [hproduct, toInt?_eq_some_iff]
    refine ⟨rfl, Int.eq_of_mul_eq_mul_right hone ?_⟩
    calc signed (s ^^ t) ((a * b).natAbs * one) * one
        = signed s m * signed t n := by rw [← signed_mul, ← hunits, signed_xor_mul]
      _ = a * b * one * one := by
        rw [hxunits, hyunits]
        ring

end Exact

end Binary64

namespace Stack

/-! ### Integers on the stack -/

/-- A token is read as a number whose value is the integer. -/
def IsInteger (t : String) (z : Int) : Prop := ∃ x, number t = .ok x ∧ x.toInt? = some z

/-- The tokens of a stack are read as integers. -/
def Denotes (s : Stack) (zs : List Int) : Prop := List.Forall₂ IsInteger s zs

theorem isInteger_toString {z : Int} (h : z.natAbs ≤ 2 ^ 53) : IsInteger (toString z) z :=
  ⟨_, number_toString z, Binary64.toInt?_ofInt h⟩

/-- The top of a stack apart. -/
theorem denotes_concat {s : Stack} {zs : List Int} {z : Int} (h : Denotes s (zs ++ [z])) :
    ∃ rest t, s = rest ++ [t] ∧ Denotes rest zs ∧ IsInteger t z := by
  obtain ⟨rest, top, rfl, hrest, htop⟩ : ∃ rest top, s = rest ++ top ∧ Denotes rest zs ∧
      Denotes top [z] :=
    ⟨_, _, (List.take_append_drop zs.length s).symm, List.forall₂_take_append s zs [z] h,
      List.forall₂_drop_append s zs [z] h⟩
  obtain ⟨t, _, ht, hnil, rfl⟩ := List.forall₂_cons_right_iff.mp htop
  obtain rfl := List.forall₂_nil_right_iff.mp hnil
  exact ⟨rest, t, rfl, hrest, ht⟩

end Stack

namespace Builtin
open Stack

/-! ### Totals -/

/-- An operator on the whole stack and one on its top two tokens that compute a total of
integers, and the size that bounds the totals of parts. -/
structure Totals (whole plain : String) (total : List Int → Int) (size : List Int → Nat) where
  /-- What both compute on numbers. -/
  on : Binary64 → Binary64 → Binary64
  /-- The number that a total starts from. -/
  start : Binary64
  /-- What is computed on integers. -/
  join : Int → Int → Int
  call_whole : ∀ s, call whole s = combine on start s
  call_plain : ∀ s, call plain s = (binary (Operator.total₂ on)).apply s
  start_eq : start.toInt? = some (total [])
  on_eq : ∀ {x y a b}, x.toInt? = some a → y.toInt? = some b → (join a b).natAbs ≤ 2 ^ 53 →
    (on x y).toInt? = some (join a b)
  total_singleton : ∀ z, total [z] = z
  total_cons : ∀ z zs, total (z :: zs) = join z (total zs)
  total_concat : ∀ zs z, total (zs ++ [z]) = join (total zs) z
  natAbs_total_le : ∀ zs, (total zs).natAbs ≤ size zs
  size_sublist : ∀ {zs ws}, List.Sublist zs ws → size zs ≤ size ws
  perm : ∀ {zs ws}, List.Perm zs ws → total zs = total ws ∧ size zs = size ws

namespace Totals
variable {whole plain : String} {total : List Int → Int} {size : List Int → Nat}
  (h : Totals whole plain total size)
include h

theorem natAbs_le {zs ws : List Int} (hsub : List.Sublist zs ws) (hsize : size ws < 2 ^ 53) :
    (total zs).natAbs ≤ 2 ^ 53 :=
  Nat.le_trans (Nat.le_trans (h.natAbs_total_le zs) (h.size_sublist hsub)) (Nat.le_of_lt hsize)

/-- From the bottom: one token more. -/
theorem on_concat {x y : Binary64} {zs : List Int} {z : Int} (hx : x.toInt? = some (total zs))
    (hy : y.toInt? = some z) (hbound : (total (zs ++ [z])).natAbs ≤ 2 ^ 53) :
    (h.on x y).toInt? = some (total (zs ++ [z])) := by
  rw [h.total_concat] at hbound ⊢
  exact h.on_eq hx hy hbound

/-- From the bottom: the rest of the stack, after the integers in `done`. -/
theorem foldlM_on (done : List Int) {s : Stack} {zs : List Int} (hs : Denotes s zs)
    (hsize : size (done ++ zs) < 2 ^ 53) {x : Binary64} (hx : x.toInt? = some (total done)) :
    ∃ r, s.foldlM (fun acc t => return h.on acc (← number t)) x = Except.ok r ∧
      r.toInt? = some (total (done ++ zs)) := by
  induction hs generalizing done x with
  | nil => exact ⟨x, rfl, by rwa [List.append_nil]⟩
  | @cons t z s zs ht _ ih =>
    obtain ⟨y, hy, hz⟩ := ht
    have hsplit : done ++ z :: zs = done ++ [z] ++ zs := by simp
    rw [hsplit] at hsize ⊢
    have hpart : (total (done ++ [z])).natAbs ≤ 2 ^ 53 :=
      h.natAbs_le (List.sublist_append_left _ zs) hsize
    obtain ⟨r, hr, htotal⟩ := ih (done ++ [z]) hsize (h.on_concat hx hz hpart)
    refine ⟨r, ?_, htotal⟩
    rw [List.foldlM_cons, hy]
    exact hr

/-- The operator on the whole stack leaves the total. -/
theorem call_whole_eq {s : Stack} {zs : List Int} (hs : Denotes s zs) (hsize : size zs < 2 ^ 53) :
    call whole s = .ok [toString (total zs)] := by
  obtain ⟨r, hr, htotal⟩ := h.foldlM_on [] hs hsize h.start_eq
  rw [List.nil_append] at htotal
  have htoken := Number.token_eq_toString htotal (h.natAbs_le (List.Sublist.refl zs) hsize)
  rw [h.call_whole, combine, hr, ← htoken]
  rfl

/-- From the top: the operator on two tokens, of which the upper is a total already. -/
theorem call_plain_eq (s : Stack) {t u : String} {z : Int} {zs : List Int} (ht : IsInteger t z)
    (hu : IsInteger u (total zs)) (hbound : (total (z :: zs)).natAbs ≤ 2 ^ 53) :
    call plain (s ++ [t, u]) = .ok (s ++ [toString (total (z :: zs))]) := by
  obtain ⟨x, hx, hz⟩ := ht
  obtain ⟨y, hy, hzs⟩ := hu
  have hjoin : (h.on x y).toInt? = some (total (z :: zs)) := by
    rw [h.total_cons] at hbound ⊢
    exact h.on_eq hz hzs hbound
  rw [h.call_plain, binary_apply _ s hx hy, ← Number.token_eq_toString hjoin hbound]
  rfl

/-- From the top: all tokens, the top one being the total of the integers in `done`. -/
theorem repeated_plain {s : Stack} {zs done : List Int} (hs : Denotes s zs) {t : String}
    (ht : IsInteger t (total done)) (hsize : size (zs ++ done) < 2 ^ 53) (hne : zs ≠ []) :
    repeated (call plain) s.length (s ++ [t]) = .ok [toString (total (zs ++ done))] := by
  induction zs using List.reverseRecOn generalizing s t done with
  | nil => exact absurd rfl hne
  | append_singleton zs z ih =>
    obtain ⟨rest, u, rfl, hrest, hu⟩ := denotes_concat hs
    have hsplit : zs ++ [z] ++ done = zs ++ z :: done := by simp
    rw [hsplit] at hsize ⊢
    have hpart : (total (z :: done)).natAbs ≤ 2 ^ 53 :=
      h.natAbs_le (List.sublist_append_right zs _) hsize
    have hstep : call plain (rest ++ [u] ++ [t]) =
        .ok (rest ++ [toString (total (z :: done))]) := by
      rw [List.append_assoc]
      exact h.call_plain_eq rest hu ht hpart
    rw [List.length_append, List.length_singleton, repeated_succ hstep]
    by_cases hempty : zs = []
    · subst hempty
      obtain rfl := List.forall₂_nil_right_iff.mp hrest
      rfl
    · exact ih hrest (isInteger_toString hpart) hsize hempty

/-- Both ways to the total, on the stack as it is and in any other order. -/
theorem agree {s : Stack} {zs : List Int} (hs : Denotes s zs) (hsize : size zs < 2 ^ 53) :
    ∀ s', s'.Perm s → call whole s' = .ok [toString (total zs)] ∧
      (2 ≤ s.length → repeated (call plain) (s.length - 1) s' = .ok [toString (total zs)]) := by
  intro s' hperm
  obtain ⟨ws, hws, horder⟩ := List.perm_comp_forall₂ hperm hs
  obtain ⟨htotal, hsame⟩ := h.perm horder
  rw [← hsame] at hsize
  rw [← htotal, ← hperm.length_eq]
  refine ⟨h.call_whole_eq hws hsize, fun hlength => ?_⟩
  -- the top token is a total by itself
  rcases List.eq_nil_or_concat ws with rfl | ⟨below, z, rfl⟩
  · rw [List.forall₂_nil_right_iff.mp hws] at hlength
    cases hlength
  · rw [List.concat_eq_append] at hws hsize ⊢
    obtain ⟨rest, t, rfl, hrest, ht⟩ := denotes_concat hws
    rw [← h.total_singleton z] at ht
    rw [List.length_append, List.length_singleton, Nat.add_sub_cancel]
    refine h.repeated_plain hrest ht hsize ?_
    rintro rfl
    rw [List.forall₂_nil_right_iff.mp hrest] at hlength
    simp at hlength

end Totals

/-! ### Sums and products -/

theorem natAbs_sum_le (zs : List Int) : zs.sum.natAbs ≤ (zs.map Int.natAbs).sum := by
  induction zs with
  | nil => exact Nat.le_refl 0
  | cons z zs ih =>
    rw [List.sum_cons, List.map_cons, List.sum_cons]
    exact Nat.le_trans (Int.natAbs_add_le z zs.sum) (Nat.add_le_add_left ih _)

theorem natAbs_prod_le (zs : List Int) :
    zs.prod.natAbs ≤ (zs.map fun z => max 1 z.natAbs).prod := by
  induction zs with
  | nil => exact Nat.le_refl 1
  | cons z zs ih =>
    rw [List.prod_cons, List.map_cons, List.prod_cons, Int.natAbs_mul]
    exact Nat.mul_le_mul (Nat.le_max_right 1 _) ih

/-- Without its zeros a product does not get larger when factors are left out. -/
theorem prod_magnitudes_le {zs ws : List Int} (h : List.Sublist zs ws) :
    (zs.map fun z => max 1 z.natAbs).prod ≤ (ws.map fun z => max 1 z.natAbs).prod := by
  refine Nat.le_of_dvd (List.prod_pos fun n hn => ?_) (h.map _).prod_dvd_prod
  obtain ⟨z, -, rfl⟩ := List.mem_map.mp hn
  exact Nat.lt_of_lt_of_le Nat.one_pos (Nat.le_max_left 1 _)

def sums : Totals "sum" "+" List.sum fun zs => (zs.map Int.natAbs).sum where
  on := Binary64.add
  start := 0
  join := (· + ·)
  call_whole _ := rfl
  call_plain _ := rfl
  start_eq := Binary64.toInt?_ofInt (z := 0) (by norm_num)
  on_eq := Binary64.toInt?_add
  total_singleton _ := List.sum_singleton
  total_cons _ _ := List.sum_cons
  total_concat zs z := by rw [List.sum_append, List.sum_singleton]
  natAbs_total_le := natAbs_sum_le
  size_sublist h := (h.map _).sum_le_sum fun _ _ => Nat.zero_le _
  perm h := ⟨h.sum_eq, (h.map _).sum_eq⟩

def products : Totals "prod" "x" List.prod fun zs => (zs.map fun z => max 1 z.natAbs).prod where
  on := Binary64.mul
  start := 1
  join := (· * ·)
  call_whole _ := rfl
  call_plain _ := rfl
  start_eq := Binary64.toInt?_ofInt (z := 1) (by norm_num)
  on_eq := Binary64.toInt?_mul
  total_singleton _ := List.prod_singleton
  total_cons _ _ := List.prod_cons
  total_concat zs z := by rw [List.prod_append, List.prod_singleton]
  natAbs_total_le := natAbs_prod_le
  size_sublist := prod_magnitudes_le
  perm h := ⟨h.prod_eq, (h.map _).prod_eq⟩

/-- **Totals of integers are exact.** If the magnitudes of the integers on the stack add up
to less than 2^53, then `sum` leaves their sum alone on the stack, in whatever order they
stand there, and so does `+` if it is applied until one token is left. The same holds of
`prod` and `x`, if the product of the magnitudes other than zero is less than 2^53. -/
theorem totals_of_integers_exact {s : Stack} {zs : List Int} (hs : Denotes s zs) :
    ((zs.map Int.natAbs).sum < 2 ^ 53 → ∀ s', s'.Perm s →
      call "sum" s' = .ok [toString zs.sum] ∧
      (2 ≤ s.length → repeated (call "+") (s.length - 1) s' = .ok [toString zs.sum])) ∧
    ((zs.map fun z => max 1 z.natAbs).prod < 2 ^ 53 → ∀ s', s'.Perm s →
      call "prod" s' = .ok [toString zs.prod] ∧
      (2 ≤ s.length → repeated (call "x") (s.length - 1) s' = .ok [toString zs.prod])) :=
  ⟨sums.agree hs, products.agree hs⟩

/-- Minus zero among integers in several spellings, and the stack turned round. -/
theorem totals_of_integers_exact_of_minus_zero :
    call "sum" ["2e0", "-0", "-5.0"] = .ok ["-3"] ∧
      repeated (call "+") 2 ["2e0", "-0", "-5.0"] = .ok ["-3"] ∧
      call "prod" ["2e0", "-0", "-5.0"] = .ok ["0"] ∧
      repeated (call "x") 2 ["-5.0", "-0", "2e0"] = .ok ["0"] := by
  have htwo : IsInteger "2e0" 2 :=
    ⟨.ofInt 2, number_of_parse? (by decide +kernel), Binary64.toInt?_ofInt (by norm_num)⟩
  have hzero : IsInteger "-0" 0 :=
    ⟨.zero true, number_of_parse? (by decide +kernel), Binary64.toInt?_zero true⟩
  have hfive : IsInteger "-5.0" (-5) :=
    ⟨.ofInt (-5), number_of_parse? (by decide +kernel), Binary64.toInt?_ofInt (by norm_num)⟩
  have hs : Denotes ["2e0", "-0", "-5.0"] [2, 0, -5] := .cons htwo (.cons hzero (.cons hfive .nil))
  obtain ⟨hsum, hprod⟩ := totals_of_integers_exact hs
  obtain ⟨hwhole, hplain⟩ := hsum (by norm_num) _ (List.Perm.refl _)
  obtain ⟨hproduct, -⟩ := hprod (by norm_num) _ (List.Perm.refl _)
  obtain ⟨-, hturned⟩ := hprod (by norm_num) ["-5.0", "-0", "2e0"] (by decide)
  exact ⟨hwhole, hplain (by decide), hproduct, hturned (by decide)⟩

end Builtin

end Rpn
