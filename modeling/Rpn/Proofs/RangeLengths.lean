import Rpn.Proofs.IntegerRanges
import Rpn.Proofs.RoundingErrors

/-! How many numbers a range has.

A range is limited beforehand, by the way to its end over the step, and one. Each of these
is rounded, but not by enough to let a range pass whose steps are too many
(`lt_count_of_le`). The steps are rounded too, however. A step that comes out shorter than
it is does so by half at most (`covers_half`), and the way to the end is the sum of the
steps, so a range never has more than twice as many numbers as the limit. It has more than
the limit only if steps come out short by more than a small part (`length_range_le`), and
not if it starts near zero, where they do not (`covers_most`). -/
namespace Rpn.Binary64

/-! ### Quotients and counts -/

/-- The quotient of magnitudes is rounded to at least a number that is at most it. -/
theorem le_position_quotient {x y : Binary64} {m : Nat} (hx : x.isNaN = false)
    (hy : y.isFinite = true) (hy0 : y.position ≠ 0) (hm : Representable m)
    (h : x.isFinite = true → m * y.position.natAbs ≤ x.position.natAbs * one) :
    (x.abs / y.abs).isNaN = false ∧ m ≤ (x.abs / y.abs).position := by
  have hbound := hm.lt_threshold
  cases y <;> cases hy
  case finite.refl t c hc =>
    have hc0 : c ≠ 0 := by
      rintro rfl
      exact hy0 (by simp [position, signed])
    cases x with
    | nan => cases hx
    | inf s =>
      refine ⟨rfl, ?_⟩
      show (m : Int) ≤ (threshold : Int)
      omega
    | finite s a ha =>
      have hle : m * c ≤ a * one := by simpa [position, natAbs_signed] using h rfl
      have hdiv : (finite s a ha).abs / (finite t c hc).abs = ofRatio false (a * one) c := by
        show (if c = 0 then _ else ofRatio _ (a * one) c) = _
        rw [if_neg hc0]
        rfl
      have hround := le_roundRatio (Nat.pos_of_ne_zero hc0) hm.onGrid hle
      rw [hdiv, position_ofRatio]
      refine ⟨isNaN_ofRatio _ _ _, ?_⟩
      show (m : Int) ≤ ((min (roundRatio (a * one) c) threshold : Nat) : Int)
      omega

/-- One more than a number is rounded to at least a number that is at most it. -/
theorem le_position_succ {q : Binary64} {m : Nat} (hq : q.isNaN = false) (hm : Representable m)
    (h : m ≤ q.position + one) : (q + 1).isNaN = false ∧ m ≤ (q + 1).position := by
  have hbound := hm.lt_threshold
  have hone : (1 : Binary64) = ofInt 1 := ofNat_eq_ofInt 1
  have hfinite : (ofInt 1).isFinite = true := isFinite_ofInt (by norm_num)
  have hposition : (ofInt 1).position = one := by rw [position_ofInt (by norm_num), Int.one_mul]
  rw [hone]
  generalize ofInt 1 = y at hfinite hposition
  cases q with
  | nan => cases hq
  | inf s =>
    cases y <;> cases hfinite
    refine ⟨rfl, ?_⟩
    cases s with
    | false =>
      show (m : Int) ≤ (threshold : Int)
      omega
    | true =>
      have hlt := (representable_int (n := 1) (by norm_num)).lt_threshold
      simp only [position, signed, if_true] at h
      omega
  | finite s a ha =>
    refine ⟨isNaN_add rfl (isNaN_of_isFinite hfinite), ?_⟩
    rw [position_add rfl hfinite, hposition]
    exact le_roundPosition hm.onGrid (Nat.le_of_lt hbound) h

end Rpn.Binary64

namespace Rpn.Operator
open Binary64

/-! ### The way that steps cover -/

/-- From `x` on to `y` it is at least `u` of the `w` parts of the step. -/
def Covers (u w : Nat) (up : Bool) (step x y : Binary64) : Prop :=
  u * step.position ≤ w * (along up y - along up x)

theorem along_sub {up : Bool} {x y : Binary64} (h : along up x ≤ along up y) :
    along up y - along up x = (y.position - x.position).natAbs := by
  cases up <;> simp only [along, Bool.false_eq_true, if_false, if_true] at h ⊢ <;> omega

theorem along_advance (up : Bool) {step n : Binary64} (hn : n.isFinite = true)
    (hstep : step.isFinite = true) :
    along up (advance up step n) = roundPosition (along up n + step.position) := by
  cases up with
  | true => exact position_add hn hstep
  | false =>
    show -(n - step).position = roundPosition (-n.position + step.position)
    rw [(position_sub hn hstep).2, ← roundPosition_neg]
    congr 1
    omega

/-- Only a finite step leads from a finite number to one. -/
theorem isFinite_of_advance {up : Bool} {step n : Binary64} (hn : n.isFinite = true)
    (h : (advance up step n).isFinite = true) : step.isFinite = true := by
  cases step with
  | finite => rfl
  | nan => rw [advance_nan] at h; exact h
  | inf s => cases n <;> cases hn; cases up <;> exact h

/-- A step that leads ahead covers half of itself at least. -/
theorem covers_half {up : Bool} {step n : Binary64} (hn : n.isFinite = true)
    (h : (advance up step n).isFinite = true) (hahead : Ahead up n (advance up step n)) :
    Covers 1 2 up step n (advance up step n) := by
  have halong := along_advance up hn (isFinite_of_advance hn h)
  obtain ⟨-, -, hlt⟩ := ahead_iff.mp hahead
  have hgrid : OnGrid (along up n).natAbs := by
    rw [natAbs_along]
    exact (onGrid_position hn).1
  have hbound := natAbs_along_lt h up
  unfold Covers
  rw [halong] at hlt hbound ⊢
  have hle := le_two_mul_roundPosition_sub hgrid hbound hlt
  omega

/-- A step that leads to a place not too many steps from zero covers nearly all of itself. -/
theorem covers_most {up : Bool} {step n : Binary64} (hn : n.isFinite = true)
    (h : (advance up step n).isFinite = true)
    (hnear : (along up n + step.position).natAbs ≤ 2 ^ 31 * step.position) :
    Covers (2 ^ 22 - 1) (2 ^ 22) up step n (advance up step n) := by
  have halong := along_advance up hn (isFinite_of_advance hn h)
  have hbound := natAbs_along_lt h up
  unfold Covers
  rw [halong] at hbound ⊢
  have herror := roundPosition_sub_le hbound
  omega

/-- The steps of a chain add up to at most the way to its end. -/
theorem length_mul_le_of_covers {u w : Nat} {up : Bool} {step x : Binary64} {l : List Binary64}
    {b : Int} (h : (x :: l).IsChain (Covers u w up step)) (hb : ∀ y ∈ x :: l, along up y ≤ b) :
    l.length * (u * step.position) ≤ w * (b - along up x) := by
  induction l generalizing x with
  | nil =>
    have hx := hb x (List.mem_singleton_self x)
    rw [List.length_nil, Int.natCast_zero, Int.zero_mul]
    exact Int.mul_nonneg (Int.natCast_nonneg w) (by omega)
  | cons y l ih =>
    obtain ⟨hfirst, hrest⟩ := List.isChain_cons_cons.mp h
    have hle := ih hrest fun z hz => hb z (List.mem_cons_of_mem x hz)
    unfold Covers at hfirst
    have hway : (w : Int) * (b - along up x) =
        w * (b - along up y) + w * (along up y - along up x) := by ring
    rw [List.length_cons, Int.natCast_succ, Int.add_mul, Int.one_mul, hway]
    omega

/-! ### The count made beforehand -/

section Count
variable {start stop : Binary64} (hstart : start.isFinite = true) (hstop : stop.isFinite = true)
include hstart hstop

/-- Of steps that are too many, rounding the way takes less than half of one. -/
theorem steps_le_span {c : Nat} (hspan : (stop - start).isFinite = true)
    (h : (4 * maxRange - 1) * c ≤ 4 * (stop.position - start.position).natAbs) :
    (2 * maxRange - 1) * half * c ≤ (stop - start).position.natAbs * one := by
  have hlt := (onGrid_position hspan).2
  rw [(position_sub hstop hstart).2] at hlt ⊢
  have herror := roundPosition_sub_le hlt
  have htwice : (2 * maxRange - 1) * c ≤
      2 * (roundPosition (stop.position - start.position)).natAbs := by
    unfold maxRange at h ⊢
    omega
  calc (2 * maxRange - 1) * half * c
    _ = (2 * maxRange - 1) * c * half := Nat.mul_right_comm _ _ _
    _ ≤ 2 * (roundPosition (stop.position - start.position)).natAbs * half :=
      Nat.mul_le_mul_right _ htwice
    _ = (roundPosition (stop.position - start.position)).natAbs * one := by
      rw [one_eq]
      ring

/-- A range whose exact steps are too many is refused, and so is one that lacks a quarter of
a step to be. -/
theorem lt_count_of_le {step : Binary64} (hstep : step.isFinite = true)
    (hstep0 : step.position ≠ 0)
    (h : (4 * maxRange - 1) * step.position.natAbs ≤
      4 * (stop.position - start.position).natAbs) :
    lt (.ofNat maxRange) ((stop - start).abs / step.abs + 1) = true := by
  have hhalf := half_pos
  have hone := one_eq
  obtain ⟨hspan, -⟩ := position_sub hstop hstart
  obtain ⟨hratio, hquotient⟩ := le_position_quotient hspan hstep hstep0
    (representable_half (by norm_num [maxRange]))
    fun hfinite => steps_le_span hstart hstop hfinite h
  obtain ⟨hcount, hmany⟩ := le_position_succ (m := (2 * maxRange + 1) * half) hratio
    (representable_half (by norm_num [maxRange])) (by
      unfold maxRange at hquotient ⊢
      omega)
  have hlimit : (ofNat maxRange).position = maxRange * one := by
    rw [ofNat_eq_ofInt, position_ofInt (by norm_num [maxRange])]
  have hless : (maxRange * one : Int) < ((2 * maxRange + 1) * half : Nat) := by
    unfold maxRange
    omega
  have hnumber : (ofNat maxRange).isNaN = false := isNaN_ofRatio _ _ _
  refine lt_of_position hnumber hcount ?_
  rw [hlimit]
  exact Int.lt_of_lt_of_le hless hmany

end Count

/-! ### The length of a range -/

/-- A range that is not refused has finite ends and a step, and the count admits it. -/
theorem count_of_range? {start stop step : Binary64} {l : List Binary64}
    (h : range? start stop step = some l) :
    step.abs.eq 0 = false ∧ start.isFinite = true ∧ stop.isFinite = true ∧
      lt (.ofNat maxRange) ((stop - start).abs / step.abs + 1) = false := by
  unfold range? at h
  simp only at h
  split at h
  · cases h
  case isFalse hoperands =>
    split at h
    · cases h
    case isFalse hcount =>
      simp only [Bool.or_eq_true, Bool.not_eq_true', not_or, Bool.not_eq_false,
        Bool.not_eq_true] at hoperands hcount
      exact ⟨hoperands.1.1, hoperands.1.2, hoperands.2, hcount⟩

/-- The way to the end of a range that is not refused. -/
theorem span_lt_of_range? {start stop step : Binary64} {l : List Binary64}
    (h : range? start stop step = some l) (hstep : step.isFinite = true) :
    4 * (stop.position - start.position).natAbs < (4 * maxRange - 1) * step.position.natAbs := by
  obtain ⟨hzero, hstart, hstop, hcount⟩ := count_of_range? h
  have hstep0 : step.position ≠ 0 := by
    rw [← Bool.not_eq_true, eq_zero_iff (by rwa [isFinite_abs]), position_abs] at hzero
    omega
  by_contra hlong
  rw [lt_count_of_le hstart hstop hstep hstep0 (Nat.le_of_not_lt hlong)] at hcount
  cases hcount

namespace IsRange
variable {start stop step : Binary64} {l : List Binary64} (h : IsRange start stop step l)
include h

/-- On the way from the start to the end. -/
theorem along_le {x : Binary64} (hx : x ∈ l) : x.isNaN = false ∧
    along (start.lt stop) start ≤ along (start.lt stop) x ∧
    along (start.lt stop) x ≤ along (start.lt stop) stop := by
  have hbetween := h.between x hx
  cases hup : start.lt stop <;>
    simp only [hup, Bool.false_eq_true, if_true, if_false, Binary64.le, Bool.and_eq_true,
      Bool.not_eq_true', decide_eq_true_eq] at hbetween
  · simp only [along, Bool.false_eq_true, if_false]
    exact ⟨hbetween.1.1.2, by omega, by omega⟩
  · simp only [along, if_true]
    exact ⟨hbetween.1.1.2, by omega, by omega⟩

variable (hstart : start.isFinite = true) (hstop : stop.isFinite = true)
include hstart hstop

theorem isFinite {x : Binary64} (hx : x ∈ l) : x.isFinite = true := by
  obtain ⟨hnumber, hlow, hhigh⟩ := h.along_le hx
  have hstart := natAbs_along_lt hstart (start.lt stop)
  have hstop := natAbs_along_lt hstop (start.lt stop)
  refine isFinite_of_position hnumber ?_
  rw [← natAbs_along (start.lt stop)]
  omega

/-- What is covered by each step that leads on. -/
theorem isChain_covers {u w : Nat}
    (hcovers : ∀ x ∈ l, (advance (start.lt stop) step x).isFinite = true →
      Ahead (start.lt stop) x (advance (start.lt stop) step x) →
      Covers u w (start.lt stop) step x (advance (start.lt stop) step x)) :
    l.IsChain (Covers u w (start.lt stop) step) := by
  rw [List.isChain_iff_getElem]
  intro i hi
  have hnext := h.steps.getElem i hi
  have hahead := h.monotone.isChain.getElem i hi
  have hfinite := h.isFinite hstart hstop (List.getElem_mem hi)
  rw [hnext] at hahead hfinite ⊢
  exact hcovers _ (List.getElem_mem _) hfinite hahead

end IsRange

/-- If each step covers `u` of its `w` parts, then there are so many steps at most. -/
theorem length_range_lt {start stop step : Binary64} {l : List Binary64} {u w : Nat} (hw : 0 < w)
    (h : range? start stop step = some l)
    (hcovers : l.IsChain (Covers u w (start.lt stop) step.abs)) :
    4 * (u * (l.length - 1)) < w * (4 * maxRange - 1) := by
  obtain ⟨-, hstart, hstop, -⟩ := count_of_range? h
  have hrange := isRange_of_range? h
  obtain ⟨rest, rfl⟩ := List.head?_eq_some_iff.mp hrange.first
  cases rest with
  | nil => exact Nat.mul_pos hw (by decide)
  | cons y rest =>
    have hstep : step.isFinite = true := by
      have hy : y.isFinite = true := hrange.isFinite hstart hstop (by simp)
      rw [(List.isChain_cons_cons.mp hrange.steps).1] at hy
      rw [← isFinite_abs]
      exact isFinite_of_advance hstart hy
    have hfits := span_lt_of_range? h hstep
    have hsum := length_mul_le_of_covers hcovers fun x hx => (hrange.along_le hx).2.2
    rw [along_sub (hrange.along_le (by simp)).2.2, position_abs] at hsum
    have hless : 4 * (u * (y :: rest).length) * step.position.natAbs <
        w * (4 * maxRange - 1) * step.position.natAbs := by
      calc 4 * (u * (y :: rest).length) * step.position.natAbs
        _ = 4 * ((y :: rest).length * (u * step.position.natAbs)) := by ring
        _ ≤ 4 * (w * (stop.position - start.position).natAbs) :=
          Nat.mul_le_mul_left 4 (by exact_mod_cast hsum)
        _ = w * (4 * (stop.position - start.position).natAbs) := Nat.mul_left_comm _ _ _
        _ < w * ((4 * maxRange - 1) * step.position.natAbs) := Nat.mul_lt_mul_of_pos_left hfits hw
        _ = w * (4 * maxRange - 1) * step.position.natAbs := (Nat.mul_assoc _ _ _).symm
    exact Nat.lt_of_mul_lt_mul_right hless

section Lengths
variable {start stop step : Binary64} {l : List Binary64} (h : range? start stop step = some l)
include h

theorem length_range_le_twice : l.length ≤ 2 * maxRange := by
  obtain ⟨-, hstart, hstop, -⟩ := count_of_range? h
  have hrange := isRange_of_range? h
  have hcovers := hrange.isChain_covers hstart hstop fun x hx hfinite hahead =>
    covers_half (hrange.isFinite hstart hstop hx) hfinite hahead
  have hlength := length_range_lt (by decide) h hcovers
  unfold maxRange at hlength ⊢
  omega

theorem length_range_le
    (hcovers : l.IsChain (Covers (2 ^ 22 - 1) (2 ^ 22) (start.lt stop) step.abs)) :
    l.length ≤ maxRange := by
  have hlength := length_range_lt (by decide) h hcovers
  unfold maxRange at hlength ⊢
  omega

/-- The numbers of a range that starts near zero are all near zero. -/
theorem length_range_le_of_near
    (hnear : start.position.natAbs ≤ 2 ^ 30 * step.position.natAbs) : l.length ≤ maxRange := by
  obtain ⟨-, hstart, hstop, -⟩ := count_of_range? h
  have hrange := isRange_of_range? h
  refine length_range_le h (hrange.isChain_covers hstart hstop fun x hx hfinite _ => ?_)
  have hx' := hrange.isFinite hstart hstop hx
  refine covers_most hx' hfinite ?_
  have hstep := isFinite_of_advance hx' hfinite
  rw [isFinite_abs] at hstep
  have hspan := span_lt_of_range? h hstep
  obtain ⟨-, hlow, hhigh⟩ := hrange.along_le hx
  have hway := along_sub (Int.le_trans hlow hhigh)
  have hfirst := natAbs_along (start.lt stop) start
  rw [position_abs]
  unfold maxRange at hspan
  omega

end Lengths

/-- Counting takes a count, and pushes as many numbers if they are within the limit. -/
theorem call_io_cases (s : Stack) (k : String) :
    (∃ f, Stack.popCount (s ++ [k]) = .error f ∧ Builtin.call "io" (s ++ [k]) = .error f) ∨
      ∃ n, Stack.popCount (s ++ [k]) = .ok (s, n) ∧
        Builtin.call "io" (s ++ [k]) = if maxRange < n then .error (.rangeTooLong maxRange)
          else .ok (s ++ Stack.oneTo n) := by
  cases hpop : Stack.popCount (s ++ [k]) with
  | error f =>
    refine .inl ⟨f, rfl, ?_⟩
    show Stack.iota (s ++ [k]) = _
    rw [Stack.iota, hpop]
    rfl
  | ok taken =>
    obtain ⟨x, hx, hn⟩ := Stack.number_of_popCount hpop
    have hcount := Stack.popCount_concat s hx hn
    exact .inr ⟨taken.2, hpop.symm.trans hcount, Stack.iota_concat s hx hn⟩

/-- What the operator pushes is the range of its operands. -/
theorem range_of_call_to {s r : Stack} {a b c : String}
    (h : Builtin.call "to" (s ++ [a, b, c]) = .ok r) :
    ∃ start stop step l, Stack.number a = .ok start ∧ Stack.number b = .ok stop ∧
      Stack.number c = .ok step ∧ range? start stop step = some l ∧
      r = s ++ l.map fun x => (Number.real x).token := by
  obtain ⟨start, stop, step, ha, hb, hc⟩ := Builtin.numbers_of_ternary h
  cases hrange : range? start stop step with
  | none =>
    exact absurd h ((call_to_of_none s ha hb hc hrange).ne_ok r)
  | some l =>
    have hcall := call_to_of_some s ha hb hc hrange
    rw [h] at hcall
    exact ⟨start, stop, step, l, ha, hb, hc, hrange, Except.ok.inj hcall⟩

/-- **Ranges and the limit on their length.** Counting pushes as many numbers as the count
says, at most as many as the limit, and a larger count is refused. A range pushes at most
twice the limit. It pushes at most the limit itself if none of its steps comes out short by
more than one part in 2^22, and so if it starts at most 2^30 steps from zero. -/
theorem ranges_capped_without_short_steps (s : Stack) :
    (∀ k r, Builtin.call "io" (s ++ [k]) = .ok r → r.length ≤ s.length + maxRange) ∧
    (∀ k n, Stack.popCount (s ++ [k]) = .ok (s, n) → maxRange < n →
      Builtin.OutOfDomain (Builtin.call "io" (s ++ [k]))) ∧
    ∀ a b c r, Builtin.call "to" (s ++ [a, b, c]) = .ok r →
      ∃ start stop step l, Stack.number a = .ok start ∧ Stack.number b = .ok stop ∧
        Stack.number c = .ok step ∧ IsRange start stop step.abs l ∧
        r = s ++ (l.map fun x => (Number.real x).token) ∧
        r.length ≤ s.length + 2 * maxRange ∧
        (l.IsChain (Covers (2 ^ 22 - 1) (2 ^ 22) (start.lt stop) step.abs) →
          r.length ≤ s.length + maxRange) ∧
        (start.position.natAbs ≤ 2 ^ 30 * step.position.natAbs →
          r.length ≤ s.length + maxRange) := by
  refine ⟨fun k r hcall => ?_, fun k n hk hn => ?_, fun a b c r hcall => ?_⟩
  · rcases call_io_cases s k with ⟨f, -, hf⟩ | ⟨n, -, hio⟩
    · rw [hcall] at hf
      cases hf
    · rw [hcall] at hio
      split at hio
      · cases hio
      case isFalse hn =>
        obtain rfl := Except.ok.inj hio
        simpa [Stack.oneTo] using hn
  · rcases call_io_cases s k with ⟨f, hf, -⟩ | ⟨m, hm, hio⟩
    · rw [hk] at hf
      cases hf
    · obtain ⟨-, rfl⟩ := Prod.mk.inj (Except.ok.inj (hk.symm.trans hm))
      rw [if_pos hn] at hio
      exact ⟨_, hio, rfl⟩
  · obtain ⟨start, stop, step, l, ha, hb, hc, hrange, rfl⟩ := range_of_call_to hcall
    refine ⟨start, stop, step, l, ha, hb, hc, isRange_of_range? hrange, rfl, ?_, ?_, ?_⟩
    · simpa using length_range_le_twice hrange
    · intro hcovers
      simpa using length_range_le hrange hcovers
    · intro hnear
      simpa using length_range_le_of_near hrange hnear

/-- A count past the limit, and a range that starts near zero. -/
theorem ranges_capped_without_short_steps_of_one_step :
    Builtin.OutOfDomain (Builtin.call "io" ["7", "1000001"]) ∧
      Builtin.call "to" ["7", "1", "2", "1"] = .ok ["7", "1", "2"] ∧
      ["7", "1", "2"].length ≤ ["7"].length + maxRange := by
  obtain ⟨-, hrefused, hrange⟩ := ranges_capped_without_short_steps ["7"]
  have hexact : Exact 1 2 1 := ⟨by norm_num, by norm_num, by norm_num, by decide⟩
  have hcall : Builtin.call "to" ["7", "1", "2", "1"] = .ok ["7", "1", "2"] :=
    hexact.call_to_of_not_tooLong ["7"] (hexact.tooLong_of_le (by norm_num [maxRange]))
  have hcount : Stack.popCount ["7", "1000001"] = .ok (["7"], 1000001) :=
    Stack.popCount_concat ["7"] (Stack.number_toString 1000001) (toInt?_ofInt (by norm_num))
  refine ⟨hrefused "1000001" 1000001 hcount (by decide), hcall, ?_⟩
  obtain ⟨start, stop, step, l, ha, -, hc, -, -, -, -, hnear⟩ := hrange "1" "2" "1" _ hcall
  obtain rfl := Except.ok.inj ((Stack.number_toString 1).symm.trans ha)
  obtain rfl := Except.ok.inj ((Stack.number_toString 1).symm.trans hc)
  exact hnear (by decide +kernel)

/-! ### Steps that come out short

From 2^53 on the numbers are even, so that from there a step of 5/2 leads to the next
even number, and a range has a quarter more numbers than were counted. -/

/-- The even integers from 2^53 on. -/
def evenFrom (i : Nat) : Binary64 := ofInt (2 ^ 53 + 2 * i : Nat)

def fiveHalves : Binary64 := finite false (5 * half) (representable_half (by norm_num))

theorem representable_even {i : Nat} (h : i ≤ 2 ^ 52) :
    Representable (4 * (2 ^ 52 + i) * half) := by
  have hrep : Representable ((2 ^ 52 + i) * 2 ^ (unitExponent - 1 + 2)) := by
    refine representable_mul_two_pow (by omega) ?_
    unfold rangeExponent
    omega
  have hunits : 4 * (2 ^ 52 + i) * half = (2 ^ 52 + i) * 2 ^ (unitExponent - 1 + 2) := by
    rw [half, part, Nat.pow_add]
    ring
  rwa [hunits]

theorem evenFrom_eq {i : Nat} (h : i ≤ 2 ^ 52) :
    evenFrom i = finite false (4 * (2 ^ 52 + i) * half) (representable_even h) := by
  have hunits : (2 ^ 53 + 2 * i) * one = 4 * (2 ^ 52 + i) * half := by
    rw [one_eq]
    ring
  have hsign : ¬ ((2 ^ 53 + 2 * i : Nat) : Int) < 0 := by omega
  rw [evenFrom, ofInt, Int.natAbs_natCast, hunits, decide_eq_false hsign]
  exact ofRatio_one _ _

theorem position_evenFrom {i : Nat} (h : i ≤ 2 ^ 52) :
    (evenFrom i).position = (4 * (2 ^ 52 + i) * half : Nat) := by
  rw [evenFrom_eq h]
  rfl

/-- A quarter of the step of the grid is rounded off. -/
theorem roundRatio_quarter {q : Nat} (hlow : 2 ^ 52 ≤ q) (hhigh : q < 2 ^ 53) (e : Nat) :
    roundRatio ((4 * q + 1) * 2 ^ e) 1 = 4 * q * 2 ^ e := by
  have hnearest : nearest (4 * q + 1) (2 ^ 2) = q := by
    simp only [nearest]
    split <;> omega
  rw [roundRatio_scaled (k := 2) (by omega) (by omega), hnearest]
  ring

theorem advance_evenFrom {i : Nat} (h : i < 2 ^ 52 - 1) :
    advance true fiveHalves (evenFrom i) = evenFrom (i + 1) := by
  have hsum : 4 * (2 ^ 52 + i) * half + 5 * half = (4 * (2 ^ 52 + (i + 1)) + 1) * half := by ring
  have hround : roundRatio (4 * (2 ^ 52 + i) * half + 5 * half) 1 =
      4 * (2 ^ 52 + (i + 1)) * half := by
    rw [hsum]
    exact roundRatio_quarter (by omega) (by omega) _
  have hpos : ((4 * (2 ^ 52 + i) * half : Nat) : Int) + (5 * half : Nat) =
      (4 * (2 ^ 52 + i) * half + 5 * half : Nat) := (Int.natCast_add _ _).symm
  rw [advance, if_pos rfl, evenFrom_eq (by omega), evenFrom_eq (by omega), fiveHalves,
    finite_add_finite]
  simp only [signed, Bool.false_eq_true, if_false, hpos, Int.natAbs_natCast]
  have hne : 4 * (2 ^ 52 + i) * half + 5 * half ≠ 0 := by
    have := half_pos
    omega
  rw [if_neg (Int.natCast_ne_zero.mpr hne), decide_eq_false (by omega)]
  exact ofRatio_eq_finite hround _

theorem within_evenFrom {i n : Nat} (hi : i ≤ 2 ^ 52) (hn : n ≤ 2 ^ 52) :
    within true (evenFrom n) (evenFrom i) = decide (i ≤ n) := by
  have hpos := half_pos
  have hle : 4 * (2 ^ 52 + i) * half ≤ 4 * (2 ^ 52 + n) * half ↔ i ≤ n := by
    rw [Nat.mul_le_mul_right_iff hpos]
    omega
  rw [within, if_pos rfl, Binary64.le, position_evenFrom hi, position_evenFrom hn,
    evenFrom_eq hi, evenFrom_eq hn]
  simp only [isNaN, Bool.not_false, Bool.true_and, Int.ofNat_le, hle]

/-- One step leads to the next even number. -/
theorem round_evenFrom {i n : Nat} (hi : i ≤ n) (hn : n < 2 ^ 52 - 1)
    {r : Option (List Binary64)}
    (hrest : Rounds true (evenFrom n) fiveHalves (evenFrom (i + 1)) r) :
    Rounds true (evenFrom n) fiveHalves (evenFrom i) (r.map (evenFrom i :: ·)) := by
  have hnext := advance_evenFrom (i := i) (by omega)
  refine .round ?_ ?_ (by rwa [hnext])
  · rw [within_evenFrom (by omega) (by omega)]
    exact decide_eq_true hi
  · have hpos := half_pos
    have hstep : 4 * (2 ^ 52 + (i + 1)) * half = 4 * (2 ^ 52 + i) * half + 4 * half := by ring
    rw [hnext, Binary64.eq, position_evenFrom (by omega), position_evenFrom (by omega), hstep]
    simp only [Bool.and_eq_false_imp, decide_eq_false_iff_not]
    omega

theorem rounds_evenFrom {i : Nat} (k : Nat) (h : i + k < 2 ^ 52 - 1) :
    ∃ l, Rounds true (evenFrom (i + k)) fiveHalves (evenFrom i) (some l) ∧ l.length = k + 1 := by
  induction k generalizing i with
  | zero =>
    have hpast : within true (evenFrom i) (evenFrom (i + 1)) = false := by
      rw [within_evenFrom (by omega) (by omega)]
      exact decide_eq_false (by omega)
    exact ⟨[evenFrom i], round_evenFrom (Nat.le_refl i) h (.past hpast), rfl⟩
  | succ k ih =>
    obtain ⟨l, hl, hlength⟩ := ih (i := i + 1) (by omega)
    rw [Nat.add_right_comm i 1 k] at hl
    exact ⟨evenFrom i :: l, round_evenFrom (by omega) h hl, by simp [hlength]⟩

/-- A range from 2^53 on by 5/2, with one number more than the limit. -/
theorem range_past_limit : ∃ r,
    Builtin.call "to" ["9007199254740992", "9007199256740992", "2.5"] = .ok r ∧
      maxRange < r.length := by
  have hstart : (evenFrom 0).isFinite = true := by decide +kernel
  have hstop : (evenFrom maxRange).isFinite = true := by decide +kernel
  have hup : (evenFrom 0).lt (evenFrom maxRange) = true := by decide +kernel
  have hcount : lt (.ofNat maxRange)
      ((evenFrom maxRange - evenFrom 0).abs / fiveHalves.abs + 1) = false := by decide +kernel
  obtain ⟨l, hl, hlength⟩ := rounds_evenFrom (i := 0) maxRange (by norm_num [maxRange])
  have hrounds := rounds_range hstart hstop fiveHalves
  rw [Nat.zero_add] at hl
  rw [hup] at hrounds
  have hrange : range? (evenFrom 0) (evenFrom maxRange) fiveHalves = some l := by
    have hdistinct : (evenFrom 0).eq (evenFrom maxRange) = false := by decide +kernel
    rw [range?_eq (by decide +kernel) hstart hstop, hcount, hdistinct, hup,
      if_neg Bool.false_ne_true, if_neg Bool.false_ne_true]
    exact hrounds.unique hl
  have ha : Stack.number "9007199254740992" = .ok (evenFrom 0) :=
    Stack.number_of_parse? (by decide +kernel)
  have hb : Stack.number "9007199256740992" = .ok (evenFrom maxRange) :=
    Stack.number_of_parse? (by decide +kernel)
  have hc : Stack.number "2.5" = .ok fiveHalves := Stack.number_of_parse? (by decide +kernel)
  have hcall := call_to_of_some [] ha hb hc hrange
  refine ⟨_, hcall, ?_⟩
  rw [List.nil_append, List.length_map, hlength]
  omega

end Rpn.Operator
