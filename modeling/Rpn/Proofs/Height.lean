import Mathlib
import Rpn.Proofs.Consistency

/-! The limit on nesting measures the height of calls.

How deep the calls of a token nest can be read off the stored bodies: the height of a
token is 0 if it means no user command, and else one more than the largest height in its
body. In a cycle of calls it is infinite. If nothing that is run changes the machine, the
height is what evaluation meets, exactly: tokens no higher than the limit never meet it,
and tokens that are higher never succeed (`limit_measures_height`).

The limit is not the only one: the interpreter underneath has one of its own, whatever this
limit says, and a machine with a high limit meets that first (`deep_calls_exhaust`). And
before a token that is too high a `gcd` may go on for ever (`gcd_before_limit_endless`). -/
namespace Rpn.Machine

/-! ### Heights -/

/-- The token means a user command that has the other one in its body. -/
def Calls (m : Machine) (t u : String) : Prop := ∃ body, m.lookup t = .user body ∧ u ∈ body

/-- Calls lead from the token into a cycle of calls. -/
def Loops (m : Machine) (t : String) : Prop :=
  ∃ u, Relation.ReflTransGen m.Calls t u ∧ Relation.TransGen m.Calls u u

/-- Calls nest at most `n` deep from the token. -/
def Within (m : Machine) : Nat → String → Prop
  | 0, t => ∀ body, m.lookup t ≠ .user body
  | n + 1, t => ∀ body, m.lookup t = .user body → ∀ u ∈ body, m.Within n u

/-- How deep calls nest from a token. -/
noncomputable def height (m : Machine) (t : String) : ℕ∞ :=
  ⨅ (n : ℕ) (_ : m.Within n t), (n : ℕ∞)

section Heights
variable {m : Machine} {t u : String} {body : List String}

theorem within_of_not_user (h : ∀ body, m.lookup t ≠ .user body) (n : Nat) : m.Within n t := by
  cases n with
  | zero => exact h
  | succ n => exact fun body hbody => absurd hbody (h body)

theorem not_within_zero (h : m.lookup t = .user body) : ¬m.Within 0 t := fun hzero => hzero body h

theorem within_succ_iff (h : m.lookup t = .user body) (n : Nat) :
    m.Within (n + 1) t ↔ ∀ u ∈ body, m.Within n u := by
  constructor
  · exact fun hwithin => hwithin body h
  · intro hbody body' h'
    obtain rfl : body = body' := Meaning.user.inj (h.symm.trans h')
    exact hbody

theorem Within.succ {n : Nat} (h : m.Within n t) : m.Within (n + 1) t := by
  induction n generalizing t with
  | zero => exact within_of_not_user h 1
  | succ n ih => exact fun body hbody u hu => ih (h body hbody u hu)

theorem Within.mono {n k : Nat} (h : m.Within n t) (hnk : n ≤ k) : m.Within k t := by
  induction hnk with
  | refl => exact h
  | step _ ih => exact ih.succ

theorem height_le_iff (n : ℕ) : m.height t ≤ n ↔ m.Within n t := by
  constructor
  · intro h
    have hlt : m.height t < n + 1 := ENat.lt_natCast_add_one_iff.mpr h
    obtain ⟨k, hlt⟩ := iInf_lt_iff.mp hlt
    obtain ⟨hk, hkn⟩ := iInf_lt_iff.mp hlt
    exact hk.mono (by exact_mod_cast ENat.lt_natCast_add_one_iff.mp hkn)
  · exact fun h => iInf₂_le n h

/-- Tokens that mean no user command call nothing. -/
theorem height_eq_zero (h : ∀ body, m.lookup t ≠ .user body) : m.height t = 0 := by
  have hle : m.height t ≤ (0 : ℕ) := (height_le_iff 0).mpr h
  exact nonpos_iff_eq_zero.mp hle

/-- A call is one level above the highest token of the body. -/
theorem height_of_user (h : m.lookup t = .user body) :
    m.height t = 1 + ⨆ u ∈ body, m.height u := by
  apply eq_of_forall_ge_iff
  intro c
  induction c using ENat.recTopCoe with
  | top => simp
  | coe n =>
    rw [height_le_iff]
    cases n with
    | zero => simp [not_within_zero h]
    | succ n =>
      rw [within_succ_iff h, add_comm, Nat.cast_add_one, ENat.add_le_add_iff_right ENat.one_ne_top,
        iSup₂_le_iff]
      exact forall₂_congr fun u _ => (height_le_iff n).symm

theorem height_of_singleton (h : m.lookup t = .user [u]) : m.height t = 1 + m.height u := by
  rw [height_of_user h]
  simp

/-- Every call goes down. -/
theorem Calls.height_lt (h : m.Calls t u) : m.height u + 1 ≤ m.height t := by
  obtain ⟨body, hbody, hu⟩ := h
  rw [height_of_user hbody, add_comm]
  exact add_le_add_right (le_iSup₂ (f := fun u (_ : u ∈ body) => m.height u) u hu) 1

theorem height_lt_of_transGen (h : Relation.TransGen m.Calls t u) :
    m.height u + 1 ≤ m.height t := by
  induction h with
  | single h => exact h.height_lt
  | tail _ h ih => exact h.height_lt.trans (le_self_add.trans ih)

/-- A token without a bound calls another one without a bound. -/
theorem exists_calls_of_height_eq_top (h : m.height t = ⊤) :
    ∃ u, m.Calls t u ∧ m.height u = ⊤ := by
  by_contra hnone
  have hbounded : ∀ u, m.Calls t u → m.height u < ⊤ :=
    fun u hu => lt_top_iff_ne_top.mpr fun htop => hnone ⟨u, hu, htop⟩
  cases hmeaning : m.lookup t with
  | user body =>
    have hsup : body.toFinset.sup m.height < ⊤ := by
      rw [Finset.sup_lt_iff (by decide)]
      exact fun u hu => hbounded u ⟨body, hmeaning, List.mem_toFinset.mp hu⟩
    rw [height_of_user hmeaning, ENat.add_eq_top] at h
    rw [Finset.sup_eq_iSup] at hsup
    simp only [List.mem_toFinset, h.resolve_left ENat.one_ne_top, lt_self_iff_false] at hsup
  | _ =>
    rw [height_eq_zero (by simp [hmeaning])] at h
    cases h

/-- The height is infinite just where calls lead into a cycle. -/
theorem height_eq_top_iff : m.height t = ⊤ ↔ m.Loops t := by
  constructor
  · intro h
    by_contra hnone
    -- the tokens without a bound that calls lead to: finitely many, each calling another
    let S : Set String := {u | Relation.ReflTransGen m.Calls t u ∧ m.height u = ⊤}
    have hstored : S ⊆ {name | name ∈ m.commands.keys} := by
      intro u hu
      obtain ⟨v, ⟨body, hbody, _⟩, _⟩ := exists_calls_of_height_eq_top hu.2
      have hsome : m.commands[u]?.isSome := by simp [lookup_user hbody]
      exact Std.ExtTreeMap.mem_keys.mpr (Std.ExtTreeMap.isSome_getElem?_iff_mem.mp hsome)
    have hfinite : Finite S := (List.finite_toSet m.commands.keys).subset hstored
    have hwf : WellFounded fun a b : S => Relation.TransGen m.Calls b a := by
      have htrans : IsTrans S fun a b => Relation.TransGen m.Calls b a :=
        ⟨fun a b c hab hbc => hbc.trans hab⟩
      have hirrefl : Std.Irrefl fun a b : S => Relation.TransGen m.Calls b a :=
        ⟨fun a hcycle => hnone ⟨a, a.2.1, hcycle⟩⟩
      exact Finite.wellFounded_of_trans_of_irrefl _
    obtain ⟨a, _, hleast⟩ := hwf.has_min Set.univ ⟨⟨t, .refl, h⟩, trivial⟩
    obtain ⟨u, hcall, htop⟩ := exists_calls_of_height_eq_top a.2.2
    exact hleast ⟨u, a.2.1.tail hcall, htop⟩ trivial (.single hcall)
  · rintro ⟨u, hreach, hcycle⟩
    have htop : m.height u = ⊤ := by
      by_contra hne
      have hlt := (ENat.add_one_le_iff hne).mp (height_lt_of_transGen hcycle)
      exact lt_irrefl _ hlt
    rcases Relation.reflTransGen_iff_eq_or_transGen.mp hreach with rfl | hreach
    · exact htop
    · have hle := height_lt_of_transGen hreach
      rw [htop] at hle
      exact top_le_iff.mp hle

end Heights

/-! ### Steps and runs -/

/-- Tokens that change no machine: none of its functions is among them. -/
def Quiet (ts : List String) : Prop := ∀ t ∈ ts, t ∉ Special.names

instance (ts : List String) : Decidable (Quiet ts) :=
  inferInstanceAs (Decidable (∀ t ∈ ts, t ∉ Special.names))

/-- The levels that the limit leaves at a depth. -/
def room (cfg : Config) (depth : Nat) : Nat := (cfg.maxDepth - depth).toNat

theorem room_succ {cfg : Config} {depth : Nat} (h : ¬cfg.maxDepth ≤ depth) :
    room cfg depth = room cfg (depth + 1) + 1 := by
  unfold room
  omega

/-- All calls from the tokens nest at most `n` deep. -/
def Fits (m : Machine) (n : Nat) (ts : List String) : Prop := ∀ t ∈ ts, m.Within n t

/-- What the end of a run tells of the height of its tokens: if it succeeds, they fit into
the room at its depth, and if it meets the limit, they do not. -/
def Gauges (cfg : Config) (m : Machine) (depth : Nat) (ts : List String) :
    Except Failure State → Prop :=
  Ends (fun st => st.1 = m ∧ m.Fits (room cfg depth) ts)
    (fun e => e.kind = .recursionLimit → e ≠ .exhausted → ¬m.Fits (room cfg depth) ts)

section Runs
variable {cfg : Config} {m : Machine} {depth : Nat} {nested : Evaluator}

theorem fits_singleton_iff {n : Nat} {t : String} : m.Fits n [t] ↔ m.Within n t :=
  List.forall_mem_singleton

theorem fits_cons_iff {n : Nat} (t : String) (ts : List String) :
    m.Fits n (t :: ts) ↔ m.Fits n [t] ∧ m.Fits n ts := by
  rw [fits_singleton_iff]
  exact List.forall_mem_cons

theorem fits_body_iff {t : String} {body : List String} (h : m.lookup t = .user body) (n : Nat) :
    m.Fits (n + 1) [t] ↔ m.Fits n body :=
  fits_singleton_iff.trans (within_succ_iff h n)

theorem not_fits_zero {t : String} {body : List String} (h : m.lookup t = .user body) :
    ¬m.Fits 0 [t] := fun hfits => not_within_zero h (fits_singleton_iff.mp hfits)

/-- A call meets the limit at its own depth, or does as its body does one level deeper. -/
theorem enter_gauges {t : String} {body : List String} (hbody : m.lookup t = .user body)
    (s : Stack) (h : Gauges cfg m (depth + 1) body (nested (m, s) body)) :
    Gauges cfg m depth [t] (enter cfg depth nested (.located · t s.length) (m, s) body) := by
  unfold Machine.enter
  split
  case isTrue hdepth =>
    intro _ _
    have hroom : room cfg depth = 0 := by
      unfold room
      omega
    rw [hroom]
    exact not_fits_zero hbody
  case isFalse hdepth =>
    unfold Gauges at h ⊢
    rw [room_succ hdepth, fits_body_iff hbody]
    exact h

theorem step_gauges (hidle : m.recorder = .idle) {t : String} (ht : t ∉ Special.names) (s : Stack)
    (h : ∀ body, m.lookup t = .user body →
      Gauges cfg m (depth + 1) body (nested (m, s) body)) :
    Gauges cfg m depth [t] (step cfg depth nested (m, s) t) := by
  rw [step_idle cfg depth _ (by rw [hidle]; rfl)]
  -- a token that means no user command fits into any room
  have hfits : (∀ body, m.lookup t ≠ .user body) → m.Fits (room cfg depth) [t] :=
    fun hnone => fits_singleton_iff.mpr (within_of_not_user hnone _)
  cases hmeaning : m.lookup t with
  | special f =>
    obtain rfl := lookup_special_iff.mp hmeaning
    exact absurd (by cases f <;> decide) ht
  | builtin b =>
    simp only [perform]
    cases hr : b.apply s with
    | ok s' => exact ⟨rfl, hfits (by simp [hmeaning])⟩
    | error f =>
      intro hkind
      have hlimit : f.kind = .recursionLimit := hkind
      rcases Builtin.fault_of_apply (lookup_builtin hmeaning) hr with hoperands | ⟨-, xs, rfl, -⟩
      · have hoperand := hoperands.isOperand
        simp [Fault.isOperand, hlimit] at hoperand
      · cases hlimit
  | user body => exact enter_gauges hmeaning s (h body hmeaning)
  | literal => exact ⟨rfl, hfits (by simp [hmeaning])⟩

theorem steps_gauges {f : State → String → Except Failure State} (ts : List String)
    (h : ∀ s, ∀ t ∈ ts, Gauges cfg m depth [t] (f (m, s) t)) (s : Stack) :
    Gauges cfg m depth ts (steps f (m, s) ts) := by
  induction ts generalizing s with
  | nil => exact ⟨rfl, nofun⟩
  | cons t ts ih =>
    have ht := h s t (List.mem_cons_self ..)
    have hts := ih fun s u hu => h s u (List.mem_cons_of_mem _ hu)
    rw [steps_cons]
    unfold Gauges at hts ⊢
    simp only [fits_cons_iff t ts]
    cases hr : f (m, s) t with
    | error e =>
      rw [hr] at ht
      exact fun hkind hlimit hfits => ht hkind hlimit hfits.1
    | ok st =>
      rw [hr] at ht
      obtain ⟨n, s'⟩ := st
      obtain ⟨rfl, hfirst⟩ := ht
      exact (hts s').mono (fun st hst => ⟨hst.1, hfirst, hst.2⟩)
        (fun e he hkind hlimit hfits => he hkind hlimit hfits.2)

/-- Every run gauges its tokens. The machine stays the same, so the bodies that are run are
those that the height is read off. -/
theorem run_gauges (cfg : Config) (hidle : m.recorder = .idle)
    (hm : m.commands.All fun _ body => Quiet body) (levels depth : Nat) (s : Stack)
    {ts : List String} (hts : Quiet ts) :
    Gauges cfg m depth ts (run cfg levels depth (m, s) ts) := by
  induction levels generalizing depth s ts with
  | zero =>
    refine steps_gauges ts (fun s t ht => ?_) s
    exact step_gauges hidle (hts t ht) s fun _ _ _ hlimit => absurd rfl hlimit
  | succ levels ih =>
    refine steps_gauges ts (fun s t ht => ?_) s
    refine step_gauges hidle (hts t ht) s fun body hbody => ?_
    exact ih (depth + 1) s (hm t body (lookup_user hbody))

end Runs

/-! ### The limit -/

theorem fits_iff_height_le {m : Machine} (n : Nat) (ts : List String) :
    m.Fits n ts ↔ ∀ t ∈ ts, m.height t ≤ n :=
  forall₂_congr fun _ _ => (height_le_iff n).symm

/-- **The limit measures the height of calls.** If a machine records nothing and none of its
functions is in a stored body or among the tokens, then:

* tokens no higher than the limit never meet it: only the interpreter can give out on them;
* tokens of which one is higher than the limit, or leads into a cycle of calls, do not
  succeed: they meet the limit or fail before, unless a `gcd` before never ends. -/
theorem limit_measures_height (cfg : Config) {m : Machine} (hidle : m.recorder = .idle)
    (hm : m.commands.All fun _ body => Quiet body) (tokens : List String) (htokens : Quiet tokens)
    (s : Stack) :
    ((∀ t ∈ tokens, m.height t ≤ cfg.maxDepth.toNat) →
      ∀ e, (m.evaluate cfg tokens s).result = .error e → e.kind = .recursionLimit →
        e = .exhausted) ∧
    ((∃ t ∈ tokens, cfg.maxDepth.toNat < m.height t ∨ m.Loops t) →
      ∃ e, (m.evaluate cfg tokens s).result = .error e ∧ (e.IsEndless ∨ e.IsUsers cfg)) := by
  have hroom : room cfg 0 = cfg.maxDepth.toNat := by simp [room]
  have hgauges := run_gauges cfg hidle hm cfg.ceiling 0 s htokens
  have hends := evaluate_ends hgauges
  rw [hroom] at hends
  simp only [fits_iff_height_le] at hends
  refine ⟨fun hfits e he hkind => ?_, fun hhigh => ?_⟩
  · by_contra hlimit
    exact hends.2 e he hkind hlimit hfits
  · cases hr : (m.evaluate cfg tokens s).result with
    | ok s' =>
      obtain ⟨t, ht, hhigh⟩ := hhigh
      have hle := (hends.1 s' hr).2 t ht
      rcases hhigh with hlt | hloops
      · exact absurd hle (not_le.mpr hlt)
      · rw [height_eq_top_iff.mpr hloops, top_le_iff] at hle
        exact absurd hle (ENat.natCast_ne_top _)
    | error e =>
      have hsound := run_sound cfg cfg.ceiling 0 m s tokens (consistent_of_idle hidle)
      exact ⟨e, rfl, (evaluate_ends hsound).2 e hr⟩

/-- Under a limit of two levels a chain of two calls meets no limit, and one of three never
succeeds. -/
theorem limit_measures_height_of_chain :
    let cfg : Config := { maxDepth := 2 }
    let m : Machine :=
      { commands := (((∅ : Commands).insert "a" ["1"]).insert "b" ["a"]).insert "c" ["b"] }
    m.height "b" = 2 ∧ m.height "c" = 3 ∧
      (∀ e, (m.evaluate cfg ["b", "b"] []).result = .error e → e.kind = .recursionLimit →
        e = .exhausted) ∧
      ∃ e, (m.evaluate cfg ["b", "c"] []).result = .error e ∧ (e.IsEndless ∨ e.IsUsers cfg) := by
  intro cfg m
  have hone : m.height "1" = 0 :=
    height_eq_zero fun body h => nomatch (show Meaning.literal = _ from h)
  have ha : m.height "a" = 1 := by
    rw [height_of_singleton (show m.lookup "a" = .user ["1"] from rfl), hone]
    rfl
  have hb : m.height "b" = 2 := by
    rw [height_of_singleton (show m.lookup "b" = .user ["a"] from rfl), ha]
    rfl
  have hc : m.height "c" = 3 := by
    rw [height_of_singleton (show m.lookup "c" = .user ["b"] from rfl), hb]
    rfl
  have hm : m.commands.All fun _ body => Quiet body :=
    ((Commands.all_empty.insert (by decide)).insert (by decide)).insert (by decide)
  refine ⟨hb, hc, ?_, ?_⟩
  · exact (limit_measures_height cfg rfl hm ["b", "b"] (by decide) []).1 (by simp [hb, cfg])
  · refine (limit_measures_height cfg rfl hm ["b", "c"] (by decide) []).2 ⟨"c", by simp, .inl ?_⟩
    rw [hc]
    decide

/-! ### Past what evaluation can go -/

/-- Names of one character each. -/
def rung (k : Nat) : String := String.ofList [Char.ofNat (0x4E00 + k)]

/-- A chain of commands: each name up to the given one calls the name before it. -/
def ladder : Nat → Commands
  | 0 => ∅
  | n + 1 => (ladder n).insert (rung (n + 1)) [rung n]

/-- The characters of the names are those of one block. -/
theorem toNat_rung {k : Nat} (hk : k ≤ 5000) : (Char.ofNat (0x4E00 + k)).toNat = 0x4E00 + k := by
  have hvalid : (0x4E00 + k).isValidChar := .inl (by omega)
  rw [Char.toNat_ofNat, if_pos hvalid]

theorem rung_injective {j k : Nat} (hj : j ≤ 5000) (hk : k ≤ 5000) (h : rung j = rung k) :
    j = k := by
  have hchars := congrArg String.toList h
  simp only [rung, String.toList_ofList, List.cons.injEq, and_true] at hchars
  have hcodes := congrArg Char.toNat hchars
  rw [toNat_rung hj, toNat_rung hk] at hcodes
  omega

/-- Fixed names are in ASCII. -/
theorem rung_not_mem_fixedNames {k : Nat} (hk : k ≤ 5000) : rung k ∉ fixedNames := by
  have hascii : ∀ name ∈ Builtin.names ++ Special.names, name.toList.all (·.toNat < 128) := by
    decide
  intro hmem
  have hsmall := hascii _ (List.mem_append.mpr (mem_fixedNames.mp hmem))
  simp only [rung, String.toList_ofList, List.all_cons, List.all_nil, Bool.and_true,
    decide_eq_true_eq, toNat_rung hk] at hsmall
  omega

theorem quiet_rung {k : Nat} (hk : k ≤ 5000) : Quiet [rung k] := by
  intro t ht hspecial
  rw [List.mem_singleton.mp ht] at hspecial
  exact rung_not_mem_fixedNames hk (mem_fixedNames.mpr (.inr hspecial))

section Ladder
variable {n k : Nat}

theorem ladder_getElem? (hn : n ≤ 5000) (hk : k ≤ 5000) :
    (ladder n)[rung k]? = if k = 0 ∨ n < k then none else some [rung (k - 1)] := by
  induction n with
  | zero =>
    have hout : k = 0 ∨ 0 < k := Nat.eq_zero_or_pos k
    rw [if_pos hout]
    simp [ladder]
  | succ n ih =>
    simp only [ladder, Std.ExtTreeMap.getElem?_insert, Std.LawfulEqCmp.compare_eq_iff_eq]
    by_cases heq : rung (n + 1) = rung k
    · obtain rfl := rung_injective hn hk heq
      simp
    · rw [if_neg heq, ih (by omega)]
      have hne : n + 1 ≠ k := fun h => heq (congrArg rung h)
      have hiff : (k = 0 ∨ n < k) ↔ (k = 0 ∨ n + 1 < k) := by omega
      simp only [hiff]

theorem lookup_rung_zero (hn : n ≤ 5000) : lookup { commands := ladder n } (rung 0) = .literal := by
  rw [lookup_of_not_mem_fixedNames (rung_not_mem_fixedNames (by omega)),
    ladder_getElem? hn (by omega)]
  rfl

theorem lookup_rung_succ (hn : n ≤ 5000) (hk : k < n) :
    lookup { commands := ladder n } (rung (k + 1)) = .user [rung k] := by
  rw [lookup_of_not_mem_fixedNames (rung_not_mem_fixedNames (by omega)),
    ladder_getElem? hn (by omega), if_neg (by omega)]
  rfl

theorem height_rung (hn : n ≤ 5000) (hk : k ≤ n) :
    height { commands := ladder n } (rung k) = k := by
  induction k with
  | zero => exact height_eq_zero (by simp [lookup_rung_zero hn])
  | succ k ih =>
    rw [height_of_singleton (lookup_rung_succ hn hk), ih (by omega), add_comm, Nat.cast_succ]

theorem quiet_ladder (hn : n ≤ 5000) : (ladder n).All fun _ body => Quiet body := by
  induction n with
  | zero => exact Commands.all_empty
  | succ n ih => exact (ih (by omega)).insert (quiet_rung (by omega))

/-- Each call of the chain takes one level. -/
theorem run_rung (cfg : Config) (hn : n ≤ 5000) {levels depth : Nat} (hlevels : levels < k)
    (hk : k ≤ n) (hdepth : (depth + levels : Int) < cfg.maxDepth) (s : Stack) :
    run cfg levels depth ({ commands := ladder n }, s) [rung k] = .error .exhausted := by
  induction k generalizing levels depth with
  | zero => exact absurd hlevels (Nat.not_lt_zero levels)
  | succ k ih =>
    rw [run_user cfg _ _ rfl (lookup_rung_succ hn hk)]
    unfold enter
    rw [if_neg (by omega)]
    cases levels with
    | zero => rfl
    | succ levels => exact ih (by omega) (by omega) (by push_cast; omega)

end Ladder

/-- Calls that nest 5000 deep do not succeed, although the limit is 100000. -/
theorem deep_calls_exhaust :
    let cfg : Config := { maxDepth := 100000 }
    let m : Machine := { commands := ladder 5000 }
    (m.commands.All fun _ body => Quiet body) ∧ Quiet [rung 5000] ∧
      (∀ t ∈ [rung 5000], m.height t ≤ cfg.maxDepth.toNat) ∧
      (m.evaluate cfg [rung 5000] []).result = .error .exhausted := by
  intro cfg m
  refine ⟨quiet_ladder le_rfl, quiet_rung le_rfl, fun t ht => ?_, ?_⟩
  · rw [List.mem_singleton.mp ht, height_rung le_rfl le_rfl]
    exact_mod_cast (by decide : 5000 ≤ cfg.maxDepth.toNat)
  · have hrun := run_rung cfg le_rfl (show cfg.ceiling < 5000 by decide) le_rfl
      (show ((0 : Nat) + cfg.ceiling : Int) < cfg.maxDepth by decide) []
    rw [evaluate_eq_settle, hrun]
    rfl

/-- A call over the limit fails in no way that a caller sees, if a `gcd` before it never
ends. -/
theorem gcd_before_limit_endless :
    let cfg : Config := { maxDepth := 0 }
    let m : Machine := { commands := (∅ : Commands).insert "f" ["1"] }
    let tokens := ["1", "nan", "gcd", "f"]
    (m.commands.All fun _ body => Quiet body) ∧ Quiet tokens ∧
      cfg.maxDepth.toNat < m.height "f" ∧
      ∃ e, (m.evaluate cfg tokens []).result = .error e ∧ e.IsEndless := by
  intro cfg m tokens
  refine ⟨Commands.all_empty.insert (by decide), by decide, ?_, ?_⟩
  · have hone : m.height "1" = 0 :=
      height_eq_zero fun body h => nomatch (show Meaning.literal = _ from h)
    rw [height_of_singleton (show m.lookup "f" = .user ["1"] from rfl), hone]
    decide
  · have hresult : (m.evaluate cfg tokens []).result =
        .error (.located (.endless [1, .nan]) "gcd" 2) := by decide +kernel
    exact ⟨_, hresult, _, 2, rfl, _, rfl, .nan, by simp, rfl⟩

/-- The height of the calls does not tell everything: with no token higher than the limit
evaluation may give out by itself, and with one that is higher it may wait for `gcd`. -/
theorem endings_besides_height :
    (let cfg : Config := { maxDepth := 100000 }
      let m : Machine := { commands := ladder 5000 }
      m.recorder = .idle ∧ (m.commands.All fun _ body => Quiet body) ∧ Quiet [rung 5000] ∧
        (∀ t ∈ [rung 5000], m.height t ≤ cfg.maxDepth.toNat) ∧
        ∃ e, (m.evaluate cfg [rung 5000] []).result = .error e ∧ e.kind = .recursionLimit) ∧
    (let cfg : Config := { maxDepth := 0 }
      let m : Machine := { commands := (∅ : Commands).insert "f" ["1"] }
      let tokens := ["1", "nan", "gcd", "f"]
      m.recorder = .idle ∧ (m.commands.All fun _ body => Quiet body) ∧ Quiet tokens ∧
        (∃ t ∈ tokens, cfg.maxDepth.toNat < m.height t) ∧
        ∃ e, (m.evaluate cfg tokens []).result = .error e ∧ e.IsEndless ∧ ¬e.IsUsers cfg) := by
  obtain ⟨hladder, hrung, hheight, hexhausted⟩ := deep_calls_exhaust
  obtain ⟨hbody, htokens, hhigh, e, hresult, hendless⟩ := gcd_before_limit_endless
  refine ⟨⟨rfl, hladder, hrung, hheight, _, hexhausted, rfl⟩, rfl, hbody, htokens,
    ⟨"f", by simp, hhigh⟩, e, hresult, hendless, fun husers => ?_⟩
  obtain ⟨f, n, rfl, xs, rfl, -⟩ := hendless
  exact absurd husers.kind (by simp [Failure.kind, Failure.report, Fault.kind, Kind.isUsers])

end Rpn.Machine
