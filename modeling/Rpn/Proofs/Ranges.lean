import Mathlib.Data.List.Chain
import Rpn.Proofs.Operands
import Rpn.Proofs.Rounding

/-! Ranges end, and are what they should be.

A range is made in rounds: a number that is not past the end is taken, and a step leads
to the next one. Steps are rounded, so one may lead nowhere, which refuses the range,
but it never leads back (`advance_cases`): what is rounded cannot pass the number that
the step starts from. So every round either refuses or comes nearer to the end in
units, of which there are finitely many on the way, and the rounds end (`rounds_walk`).
What they have taken then is seen round by round (`Rounds.isWalk`).

`Rounds` knows nothing of the measure that `walk` carries. -/
namespace Rpn.Operator
open Binary64

/-! ### The way to the end -/

/-- The place of a number on the way, which leads up or down. -/
def along (up : Bool) (x : Binary64) : Int := if up then x.position else -x.position

theorem gap_eq (up : Bool) (stop n : Binary64) : gap up stop n = along up stop - along up n := by
  cases up
  · show n.position - stop.position = -stop.position - -n.position
    omega
  · rfl

theorem within_iff {up : Bool} {stop n : Binary64} : within up stop n = true ↔
    stop.isNaN = false ∧ n.isNaN = false ∧ along up n ≤ along up stop := by
  cases up <;> simp [within, Binary64.le, along, and_left_comm, and_assoc]

/-- One number is strictly farther on the way than another. -/
def Ahead (up : Bool) (x y : Binary64) : Prop := if up then x.lt y = true else y.lt x = true

theorem ahead_iff {up : Bool} {x y : Binary64} : Ahead up x y ↔
    x.isNaN = false ∧ y.isNaN = false ∧ along up x < along up y := by
  cases up <;> simp [Ahead, Binary64.lt, along, and_left_comm, and_assoc]

instance (up : Bool) : IsTrans Binary64 (Ahead up) where
  trans x y z hxy hyz := by
    rw [ahead_iff] at hxy hyz ⊢
    exact ⟨hxy.1, hyz.2.1, Int.lt_trans hxy.2.2 hyz.2.2⟩

theorem along_ne {x y : Binary64} (hx : x.isNaN = false) (hy : y.isNaN = false)
    (h : x.eq y = false) (up : Bool) : along up x ≠ along up y := by
  cases up <;> simpa [Binary64.eq, hx, hy, along] using h

theorem natAbs_along (up : Bool) (x : Binary64) : (along up x).natAbs = x.position.natAbs := by
  cases up
  · exact Int.natAbs_neg _
  · rfl

theorem natAbs_along_lt {x : Binary64} (hx : x.isFinite = true) (up : Bool) :
    (along up x).natAbs < threshold := by
  rw [natAbs_along]
  exact (onGrid_position hx).2

/-! ### A step -/

theorem advance_nan (up : Bool) (n : Binary64) : advance up nan n = nan := by
  cases up <;> cases n <;> rfl

/-- From a finite number a step never leads back. -/
theorem le_along_advance (up : Bool) {step n : Binary64} (hn : n.isFinite = true)
    (hnan : step.isNaN = false) (hstep : 0 ≤ step.position) :
    (advance up step n).isNaN = false ∧ along up n ≤ along up (advance up step n) := by
  have hgrid := onGrid_position hn
  have hbounds := natAbs_along_lt hn up
  cases step with
  | nan => cases hnan
  | inf s =>
    -- an infinite step leads to the infinity at the end of the way
    cases s with
    | true =>
      have := threshold_pos
      simp only [position, signed, if_true] at hstep
      omega
    | false =>
      cases n <;> cases hn
      cases up
      · refine ⟨rfl, ?_⟩
        show _ ≤ -(-(threshold : Int))
        omega
      · refine ⟨rfl, ?_⟩
        show _ ≤ (threshold : Int)
        omega
  | finite s k hk =>
    cases up with
    | true =>
      refine ⟨isNaN_add hn rfl, ?_⟩
      show n.position ≤ (n + finite s k hk).position
      rw [position_add hn rfl]
      exact le_roundPosition hgrid.1 (Nat.le_of_lt hgrid.2) (by omega)
    | false =>
      refine ⟨isNaN_add hn rfl, ?_⟩
      show -n.position ≤ -(n + neg (finite s k hk)).position
      rw [position_add hn rfl, position_neg]
      have hle := roundPosition_le (z := n.position + -(finite s k hk).position) hgrid.1
        (Nat.le_of_lt hgrid.2) (by omega)
      omega

/-- Steps that are not backwards, towards a finite end. -/
structure Forward (stop step : Binary64) : Prop where
  stop : stop.isFinite = true
  step : 0 ≤ step.position

/-- A step that changes something leads past the end or to a finite number ahead. -/
theorem advance_cases {up : Bool} {stop step n : Binary64} (h : Forward stop step)
    (hn : n.isFinite = true) (hne : (advance up step n).eq n = false) :
    within up stop (advance up step n) = false ∨
      (advance up step n).isFinite = true ∧ Ahead up n (advance up step n) := by
  cases hw : within up stop (advance up step n) with
  | false => exact .inl rfl
  | true =>
    obtain ⟨-, hnext, hle⟩ := within_iff.mp hw
    have hstep : step.isNaN = false := by
      cases step with
      | nan =>
        rw [advance_nan] at hnext
        cases hnext
      | _ => rfl
    have hforth := (le_along_advance up hn hstep h.step).2
    have hdiffer := along_ne hnext (isNaN_of_isFinite hn) hne up
    have hstart := natAbs_along_lt hn up
    have hend := natAbs_along_lt h.stop up
    refine .inr ⟨isFinite_of_position hnext ?_, ?_⟩
    · rw [← natAbs_along up]
      omega
    · exact ahead_iff.mpr ⟨isNaN_of_isFinite hn, hnext, by omega⟩

/-! ### Rounds -/

/-- The numbers that are taken from `n` on, round by round. None if a step changes nothing. -/
inductive Rounds (up : Bool) (stop step : Binary64) : Binary64 → Option (List Binary64) → Prop
  | past {n : Binary64} (past : within up stop n = false) : Rounds up stop step n (some [])
  | stuck {n : Binary64} (within : within up stop n = true)
    (same : (advance up step n).eq n = true) : Rounds up stop step n none
  | round {n : Binary64} {r : Option (List Binary64)} (within : within up stop n = true)
    (moved : (advance up step n).eq n = false) (rest : Rounds up stop step (advance up step n) r) :
    Rounds up stop step n (r.map (n :: ·))

/-- Rounds give one result. -/
theorem Rounds.unique {up : Bool} {stop step n : Binary64} {r r' : Option (List Binary64)}
    (h : Rounds up stop step n r) (h' : Rounds up stop step n r') : r = r' := by
  induction h generalizing r' with
  | past hpast =>
    cases h' with
    | past => rfl
    | stuck hw => simp [hpast] at hw
    | round hw => simp [hpast] at hw
  | stuck hw hsame =>
    cases h' with
    | past hpast => simp [hpast] at hw
    | stuck => rfl
    | round _ hmoved => simp [hsame] at hmoved
  | round hw hmoved _ ih =>
    cases h' with
    | past hpast => simp [hpast] at hw
    | stuck _ hsame => simp [hsame] at hmoved
    | round _ _ hrest => rw [ih hrest]

/-- The rounds end, with what `walk` gives. -/
theorem rounds_walk {stop step : Binary64} (up : Bool) (n : Binary64) (acc : List Binary64)
    (h : Forward stop step) (hn : within up stop n = true → n.isFinite = true) :
    ∃ r, Rounds up stop step n r ∧ walk up stop step n acc = r.map (acc.reverse ++ ·) := by
  fun_induction walk up stop step n acc with
  | case1 n acc hw next hsame => exact ⟨none, .stuck hw hsame, rfl⟩
  | case2 n acc hw next hmoved hless ih =>
    rw [Bool.not_eq_true] at hmoved
    have hnext : within up stop next = true → next.isFinite = true := by
      intro hw'
      rcases advance_cases h (hn hw) hmoved with hpast | ⟨hfinite, -⟩
      · exact absurd hw' (by simp [next, hpast])
      · exact hfinite
    obtain ⟨r, hr, hwalk⟩ := ih hnext
    refine ⟨r.map (n :: ·), .round hw hmoved hr, ?_⟩
    rw [hwalk, Option.map_map]
    congr 1
    funext l
    simp
  | case3 n acc hw next hmoved hless =>
    -- a step that does not come nearer has led past the end
    rw [Bool.not_eq_true] at hmoved
    have hpast : within up stop next = false := by
      rcases advance_cases h (hn hw) hmoved with hpast | ⟨-, hahead⟩
      · exact hpast
      · have hlt : along up n < along up next := (ahead_iff.mp hahead).2.2
        rw [gap_eq, gap_eq] at hless
        omega
    exact ⟨some [n], .round hw hmoved (.past hpast), by simp⟩
  | case4 n acc hw =>
    rw [Bool.not_eq_true] at hw
    exact ⟨some [], .past hw, by simp⟩

/-- What rounds from `n` on take: each number a step after the one before and strictly
ahead of it, none past the end, and the step after the last past it. -/
structure IsWalk (up : Bool) (stop step n : Binary64) (l : List Binary64) : Prop where
  first : l.head? = if within up stop n then some n else none
  steps : l.IsChain fun x y => y = advance up step x
  ahead : l.IsChain (Ahead up)
  within : ∀ x ∈ l, within up stop x = true
  maximal : ∀ x, l.getLast? = some x → Operator.within up stop (advance up step x) = false

theorem isWalk_nil {up : Bool} {stop step n : Binary64} (h : within up stop n = false) :
    IsWalk up stop step n [] :=
  ⟨by simp [h], .nil, .nil, nofun, nofun⟩

/-- One round before the others. -/
theorem IsWalk.cons {up : Bool} {stop step n : Binary64} {l : List Binary64}
    (h : IsWalk up stop step (advance up step n) l) (hw : Operator.within up stop n = true)
    (hahead : Operator.within up stop (advance up step n) = true →
      Ahead up n (advance up step n)) : IsWalk up stop step n (n :: l) := by
  have hhead : ∀ y ∈ l.head?, y = advance up step n ∧ Ahead up n y := by
    intro y hy
    rw [h.first] at hy
    cases hnext : Operator.within up stop (advance up step n) with
    | false => simp [hnext] at hy
    | true =>
      obtain rfl : advance up step n = y := by simpa [hnext] using hy
      exact ⟨rfl, hahead hnext⟩
  refine ⟨by simp [hw], h.steps.cons fun y hy => (hhead y hy).1,
    h.ahead.cons fun y hy => (hhead y hy).2, List.forall_mem_cons.mpr ⟨hw, h.within⟩, ?_⟩
  intro x hx
  cases l with
  | nil =>
    obtain rfl : n = x := by simpa using hx
    by_contra hcontra
    have hfirst := h.first
    rw [if_pos (by simpa using hcontra)] at hfirst
    cases hfirst
  | cons y ys => exact h.maximal x (by rwa [List.getLast?_cons_cons] at hx)

theorem Rounds.isWalk {up : Bool} {stop step n : Binary64} (h : Forward stop step)
    (hn : within up stop n = true → n.isFinite = true) {r : Option (List Binary64)}
    (hr : Rounds up stop step n r) : ∀ l ∈ r, IsWalk up stop step n l := by
  induction hr with
  | past hpast =>
    intro l hl
    obtain rfl := Option.some.inj hl
    exact isWalk_nil hpast
  | stuck => nofun
  | @round n r hw hmoved _ ih =>
    intro l hl
    obtain ⟨rest, hrest, rfl⟩ := Option.map_eq_some_iff.mp hl
    have hstep : within up stop (advance up step n) = true →
        (advance up step n).isFinite = true ∧ Ahead up n (advance up step n) := by
      intro hw'
      refine (advance_cases h (hn hw) hmoved).resolve_left ?_
      simp [hw']
    exact (ih (fun hw' => (hstep hw').1) rest hrest).cons hw fun hw' => (hstep hw').2

/-! ### Ranges -/

/-- A range from `start` towards `stop`: up if `stop` is above, else down. -/
structure IsRange (start stop step : Binary64) (l : List Binary64) : Prop where
  first : l.head? = some start
  steps : l.IsChain fun x y => y = advance (start.lt stop) step x
  monotone : l.Pairwise (Ahead (start.lt stop))
  between : ∀ x ∈ l, if start.lt stop then start.le x = true ∧ x.le stop = true
    else stop.le x = true ∧ x.le start = true
  point : start.eq stop = true → l = [start]
  maximal : start.eq stop = false →
    ∀ x, l.getLast? = some x → within (start.lt stop) stop (advance (start.lt stop) step x) = false

theorem isRange_point {start stop : Binary64} (hstart : start.isFinite = true)
    (h : start.eq stop = true) (step : Binary64) : IsRange start stop step [start] := by
  have heq : stop.isNaN = false ∧ start.position = stop.position := by
    simpa [Binary64.eq, isNaN_of_isFinite hstart] using h
  refine ⟨rfl, .singleton _, List.pairwise_singleton _ _, ?_, fun _ => rfl, ?_⟩
  · simp [Binary64.lt, Binary64.le, isNaN_of_isFinite hstart, heq]
  · simp [h]

theorem within_start {start stop : Binary64} (hstart : start.isFinite = true)
    (hstop : stop.isFinite = true) : within (start.lt stop) stop start = true := by
  have hs := isNaN_of_isFinite hstart
  have he := isNaN_of_isFinite hstop
  cases hup : start.lt stop with
  | true =>
    have hlt : start.position < stop.position := by simpa [Binary64.lt, hs, he] using hup
    simpa [within, Binary64.le, hs, he] using Int.le_of_lt hlt
  | false =>
    have hge : stop.position ≤ start.position := by simpa [Binary64.lt, hs, he] using hup
    simpa [within, Binary64.le, hs, he] using hge

theorem IsWalk.isRange {start stop step : Binary64} {l : List Binary64}
    (hstart : start.isFinite = true) (hstop : stop.isFinite = true)
    (hne : start.eq stop = false) (h : IsWalk (start.lt stop) stop step start l) :
    IsRange start stop step l := by
  have hfirst : l.head? = some start := by rw [h.first, if_pos (within_start hstart hstop)]
  have hmonotone := h.ahead.pairwise
  refine ⟨hfirst, h.steps, hmonotone, ?_, by simp [hne], fun _ => h.maximal⟩
  intro x hx
  -- the start is the first, so every other number is ahead of it
  have hafter : Operator.within (start.lt stop) x start = true := by
    obtain ⟨rest, rfl⟩ := List.head?_eq_some_iff.mp hfirst
    have hxnan := (within_iff.mp (h.within x hx)).2.1
    rw [within_iff]
    rcases List.mem_cons.mp hx with rfl | hx
    · exact ⟨hxnan, hxnan, Int.le_refl _⟩
    · have hahead := ahead_iff.mp ((List.pairwise_cons.mp hmonotone).1 x hx)
      exact ⟨hxnan, hahead.1, Int.le_of_lt hahead.2.2⟩
  have hbefore := h.within x hx
  cases hup : start.lt stop with
  | true =>
    rw [hup] at hafter hbefore
    exact ⟨hafter, hbefore⟩
  | false =>
    rw [hup] at hafter hbefore
    exact ⟨hbefore, hafter⟩

theorem forward_abs {stop : Binary64} (hstop : stop.isFinite = true) (step : Binary64) :
    Forward stop step.abs := by
  refine ⟨hstop, ?_⟩
  rw [position_abs]
  omega

/-- Between finite ends a range is refused only if it is too long or a step leads nowhere. -/
theorem range?_eq {start stop step : Binary64} (hstep : step.abs.eq 0 = false)
    (hstart : start.isFinite = true) (hstop : stop.isFinite = true) :
    range? start stop step =
      if lt (.ofNat maxRange) ((stop - start).abs / step.abs + 1) then none
      else if start.eq stop then some [start]
      else walk (start.lt stop) stop step.abs start [] := by
  simp [range?, hstep, hstart, hstop]

/-- A range is refused, is a single number, or is made in rounds. -/
theorem range?_cases (start stop step : Binary64) :
    range? start stop step = none ∨ start.isFinite = true ∧ stop.isFinite = true ∧
      (start.eq stop = true ∧ range? start stop step = some [start] ∨
        start.eq stop = false ∧
          range? start stop step = walk (start.lt stop) stop step.abs start []) := by
  by_cases hrefused : (step.abs.eq 0 || !start.isFinite || !stop.isFinite) = true
  · exact .inl (if_pos hrefused)
  simp only [Bool.or_eq_true, Bool.not_eq_true', not_or, Bool.not_eq_false,
    Bool.not_eq_true] at hrefused
  obtain ⟨⟨hstep, hstart⟩, hstop⟩ := hrefused
  rw [range?_eq hstep hstart hstop]
  by_cases hlong : lt (.ofNat maxRange) ((stop - start).abs / step.abs + 1) = true
  · exact .inl (if_pos hlong)
  rw [if_neg hlong]
  refine .inr ⟨hstart, hstop, ?_⟩
  cases start.eq stop with
  | true => exact .inl ⟨rfl, rfl⟩
  | false => exact .inr ⟨rfl, rfl⟩

/-- The rounds of a range, from its start to their end. -/
theorem rounds_range {start stop : Binary64} (hstart : start.isFinite = true)
    (hstop : stop.isFinite = true) (step : Binary64) :
    Rounds (start.lt stop) stop step.abs start (walk (start.lt stop) stop step.abs start []) := by
  obtain ⟨r, hrounds, hwalk⟩ := rounds_walk (start.lt stop) start []
    (forward_abs hstop step) fun _ => hstart
  obtain rfl : walk (start.lt stop) stop step.abs start [] = r := by simpa using hwalk
  exact hrounds

/-- A range that is not refused has the numbers that it should have. -/
theorem isRange_of_range? {start stop step : Binary64} {l : List Binary64}
    (h : range? start stop step = some l) : IsRange start stop step.abs l := by
  rcases range?_cases start stop step with hnone | ⟨hstart, hstop, ⟨heq, hpoint⟩ | ⟨hne, hwalk⟩⟩
  · rw [h] at hnone
    cases hnone
  · obtain rfl : l = [start] := Option.some.inj (h.symm.trans hpoint)
    exact isRange_point hstart heq _
  · have hwalks := (rounds_range hstart hstop step).isWalk (forward_abs hstop step)
      (fun _ => hstart) l (hwalk.symm.trans h)
    exact hwalks.isRange hstart hstop hne

section Operands
variable {a b c : String} {start stop step : Binary64} (s : Stack)
  (ha : Stack.number a = .ok start) (hb : Stack.number b = .ok stop)
  (hc : Stack.number c = .ok step)
include ha hb hc

/-- The operator refuses its operands if there is no range. -/
theorem call_to_of_none (h : range? start stop step = none) :
    Builtin.OutOfDomain (Builtin.call "to" (s ++ [a, b, c])) := by
  refine ⟨.refused (Builtin.cannotApply 3) [start, stop, step], ?_, rfl⟩
  refine (Builtin.ternary_apply _ s ha hb hc).trans ?_
  rw [h]
  rfl

/-- The operator pushes the tokens of a range. -/
theorem call_to_of_some {l : List Binary64} (h : range? start stop step = some l) :
    Builtin.call "to" (s ++ [a, b, c]) = .ok (s ++ l.map fun x => (Number.real x).token) := by
  refine (Builtin.ternary_apply _ s ha hb hc).trans ?_
  rw [h]
  show Except.ok (s ++ (l.map Number.real).map Number.token) = _
  rw [List.map_map]
  rfl

end Operands

/-- **Ranges end and are well-shaped.** Between finite ends the rounds of a range end,
whatever the step. A range is refused, or it has a number at least: the start first, each
number a step after the one before, strictly nearer to the end and none past it, as far
as they go. The operator pushes the range, or refuses its operands as outside its domain. -/
theorem ranges_end_well_shaped (start stop step : Binary64) :
    (start.isFinite = true → stop.isFinite = true →
      Rounds (start.lt stop) stop step.abs start (walk (start.lt stop) stop step.abs start [])) ∧
    ((range? start stop step = none ∧
        ∀ s a b c, Stack.number a = .ok start → Stack.number b = .ok stop →
          Stack.number c = .ok step →
          Builtin.OutOfDomain (Builtin.call "to" (s ++ [a, b, c]))) ∨
      ∃ l, range? start stop step = some l ∧ IsRange start stop step.abs l ∧
        ∀ s a b c, Stack.number a = .ok start → Stack.number b = .ok stop →
          Stack.number c = .ok step →
          Builtin.call "to" (s ++ [a, b, c]) =
            .ok (s ++ l.map fun x => (Number.real x).token)) := by
  refine ⟨fun hstart hstop => rounds_range hstart hstop step, ?_⟩
  cases hrange : range? start stop step with
  | none =>
    exact .inl ⟨rfl, fun s a b c ha hb hc => call_to_of_none s ha hb hc hrange⟩
  | some l =>
    refine .inr ⟨l, rfl, isRange_of_range? hrange, ?_⟩
    exact fun s a b c ha hb hc => call_to_of_some s ha hb hc hrange

/-- A step that is no number leads past every end. -/
theorem ranges_end_well_shaped_of_nan_step :
    IsRange 1 2 .nan [1] ∧ Builtin.call "to" ["1", "2", "nan"] = .ok ["1"] := by
  have hsome : range? 1 2 .nan = some [1] := by decide +kernel
  have htoken : (Number.real 1).token = "1" := by decide +kernel
  obtain ⟨-, hrange⟩ := ranges_end_well_shaped 1 2 .nan
  rcases hrange with ⟨hnone, -⟩ | ⟨l, hl, hrange, hcall⟩
  · rw [hsome] at hnone
    cases hnone
  · obtain rfl : [1] = l := Option.some.inj (hsome.symm.trans hl)
    have hpushed := hcall [] "1" "2" "nan" (Stack.number_of_parse? (by decide +kernel))
      (Stack.number_of_parse? (by decide +kernel)) (Stack.number_of_parse? (by decide +kernel))
    rw [List.map_singleton, htoken] at hpushed
    exact ⟨hrange, hpushed⟩

end Rpn.Operator
