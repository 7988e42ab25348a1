import Mathlib.Tactic.Ring
import Rpn.Numeral.Digits

/-! Digits that are written are read back.

The digits of a number are characters of values below the base, the number is the value
of these (`exists_digits`), and a run of such characters is taken whole where nothing
goes on with it (`digitRun_digitChars`). They are the digits of the standard library
(`digits_eq_toDigits`), and so is the text of an integer (`intText_eq_toString`). -/
namespace Rpn.Numeral

/-! ### The value of digits -/

theorem foldl_ofDigits (base n : Nat) (ds : List Nat) :
    ds.foldl (fun n d => n * base + d) n = n * base ^ ds.length + ofDigits base ds := by
  unfold ofDigits
  induction ds generalizing n with
  | nil => simp
  | cons d ds ih =>
    rw [List.foldl_cons, List.foldl_cons, ih, ih (0 * base + d), List.length_cons]
    ring

theorem ofDigits_append (base : Nat) (ds es : List Nat) :
    ofDigits base (ds ++ es) = ofDigits base ds * base ^ es.length + ofDigits base es := by
  rw [← foldl_ofDigits]
  exact List.foldl_append

theorem ofDigits_singleton (base d : Nat) : ofDigits base [d] = d := by
  simp [ofDigits]

/-- Zeros have no value. -/
theorem ofDigits_zeros (base k : Nat) : ofDigits base (List.replicate k 0) = 0 := by
  induction k with
  | zero => rfl
  | succ k ih => rw [List.replicate_succ', ofDigits_append, ih, ofDigits_singleton, Nat.zero_mul]

/-- Zeros in front make no difference. -/
theorem ofDigits_zeros_append (base k : Nat) (ds : List Nat) :
    ofDigits base (List.replicate k 0 ++ ds) = ofDigits base ds := by
  rw [ofDigits_append, ofDigits_zeros, Nat.zero_mul, Nat.zero_add]

/-- Zeros at the end are factors of the base. -/
theorem ofDigits_append_zeros (base : Nat) (ds : List Nat) (k : Nat) :
    ofDigits base (ds ++ List.replicate k 0) = ofDigits base ds * base ^ k := by
  rw [ofDigits_append, ofDigits_zeros, List.length_replicate, Nat.add_zero]

/-! ### Written digits -/

/-- The characters of digits. -/
def digitChars (ds : List Nat) : List Char := ds.map digitChar

theorem digitChars_append (ds es : List Nat) :
    digitChars (ds ++ es) = digitChars ds ++ digitChars es :=
  List.map_append

/-- The values of the digits that a number is written with. -/
structure Spells (base n : Nat) (ds : List Nat) : Prop where
  text : digits base n = digitChars ds
  nonempty : ds ≠ []
  lt : ∀ d ∈ ds, d < base
  value : ofDigits base ds = n

theorem exists_digits {base : Nat} (hbase : 2 ≤ base) (n : Nat) : ∃ ds, Spells base n ds := by
  induction n using Nat.strongRecOn with
  | ind n ih =>
    by_cases h : n < base ∨ base < 2
    · refine ⟨[n], digits_of_lt h, List.cons_ne_nil _ _, ?_, ofDigits_singleton base n⟩
      exact List.forall_mem_singleton.mpr (by omega)
    · obtain ⟨ds, hds⟩ := ih (n / base) (Nat.div_lt_self (by omega) (by omega))
      have hlast : n % base < base := Nat.mod_lt n (by omega)
      refine ⟨ds ++ [n % base], ?_, by simp, ?_, ?_⟩
      · rw [digits_eq h, hds.text, digitChars_append]
        rfl
      · exact List.forall_mem_append.mpr ⟨hds.lt, List.forall_mem_singleton.mpr hlast⟩
      · rw [ofDigits_append, hds.value, ofDigits_singleton, List.length_singleton, Nat.pow_one,
          Nat.mul_comm]
        exact Nat.div_add_mod n base

theorem digitChar_eq : ∀ d < 16, digitChar d = Nat.digitChar d := by decide

/-- Up to base 16 the digits are those of the standard library. -/
theorem digits_eq_toDigits {base : Nat} (hlow : 2 ≤ base) (hhigh : base ≤ 16) (n : Nat) :
    digits base n = Nat.toDigits base n := by
  induction n using Nat.strongRecOn with
  | ind n ih =>
    rw [Nat.toDigits_eq_if (by omega)]
    by_cases h : n < base
    · rw [if_pos h, digits_of_lt (.inl h), digitChar_eq n (by omega)]
    · have hlast : n % base < 16 := Nat.lt_of_lt_of_le (Nat.mod_lt n (by omega)) hhigh
      rw [if_neg h, digits_eq (by omega), ih _ (Nat.div_lt_self (by omega) (by omega)),
        digitChar_eq _ hlast]

/-- The decimal text of an integer is that of the standard library. -/
theorem intText_eq_toString (n : Int) : intText n = toString n := by
  have hdigits (k : Nat) : digits 10 k = Nat.toDigits 10 k :=
    digits_eq_toDigits (by decide) (by decide) k
  cases n with
  | ofNat k =>
    show String.ofList (digits 10 k) = Nat.repr k
    rw [hdigits]
    rfl
  | negSucc k =>
    rw [intText, intDigits, if_pos (Int.negSucc_lt_zero k), Int.natAbs_negSucc, hdigits]
    show String.ofList (['-'] ++ Nat.toDigits 10 (k + 1)) = _
    rw [String.ofList_append]
    rfl

/-! ### Read digits -/

section Runs
variable {digit? : Char → Option Nat} {base : Nat}

/-- A class of digits that reads the written digits of a base. -/
structure Reads (digit? : Char → Option Nat) (base : Nat) : Prop where
  digit : ∀ d < base, digit? (digitChar d) = some d
  separator : digit? '_' = none

/-- A text that no run of digits goes on with. -/
def Breaks (digit? : Char → Option Nat) (s : List Char) : Prop :=
  ∀ c ∈ s.head?, digit? c = none ∧ c ≠ '_'

theorem breaks_nil : Breaks digit? [] := nofun

theorem breaks_cons {c : Char} (h : digit? c = none) (hc : c ≠ '_') (s : List Char) :
    Breaks digit? (c :: s) := by
  intro c' hc'
  obtain rfl : c = c' := by simpa using hc'
  exact ⟨h, hc⟩

theorem skipSeparator_eq {s : List Char} (h : s.head? ≠ some '_') :
    skipSeparator digit? s = s := by
  unfold skipSeparator
  split
  · exact absurd rfl h
  · rfl

theorem digitRun_breaks {s : List Char} (h : Breaks digit? s) : digitRun digit? s = ([], s) := by
  cases s with
  | nil => rw [digitRun]
  | cons c s =>
    rw [digitRun]
    simp [(h c rfl).1]

/-- Written digits are taken whole where nothing goes on with them. -/
theorem digitRun_digitChars (h : Reads digit? base) {ds : List Nat} (hds : ∀ d ∈ ds, d < base)
    {rest : List Char} (hrest : Breaks digit? rest) :
    digitRun digit? (digitChars ds ++ rest) = (ds, rest) := by
  induction ds with
  | nil => exact digitRun_breaks hrest
  | cons d ds ih =>
    rw [List.forall_mem_cons] at hds
    have hnext : (digitChars ds ++ rest).head? ≠ some '_' := by
      cases ds with
      | nil => exact fun hc => (hrest _ hc).2 rfl
      | cons e ds =>
        intro hc
        have hdigit := h.digit e (hds.2 e (List.mem_cons_self ..))
        rw [show digitChar e = '_' by simpa [digitChars] using hc, h.separator] at hdigit
        cases hdigit
    show digitRun digit? (digitChar d :: (digitChars ds ++ rest)) = _
    rw [digitRun]
    simp only [h.digit d hds.1, skipSeparator_eq hnext, ih hds.2]

end Runs

end Rpn.Numeral
