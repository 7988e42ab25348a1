/-! Digits of whole numbers in a base, read and written.

Written digits are ASCII, lower case, without leading zeros. Read digits are whatever a
digit class gives a value to, and a single `_` may stand between two of them. -/
namespace Rpn.Numeral

/-! ### Writing -/

/-- The digit of a value below 36. -/
def digitChar (d : Nat) : Char := if d < 10 then Char.ofNat (48 + d) else Char.ofNat (87 + d)

/-- The digits of `n`, in front of `acc`. -/
def digitsOnto (base n : Nat) (acc : List Char) : List Char :=
  if n < base ∨ base < 2 then digitChar n :: acc
  else digitsOnto base (n / base) (digitChar (n % base) :: acc)
termination_by n
decreasing_by exact Nat.div_lt_self (by omega) (by omega)

/-- The digits of a whole number. -/
def digits (base n : Nat) : List Char := digitsOnto base n []

/-- The digits of an integer, after a `-` if it is negative. -/
def intDigits (base : Nat) (n : Int) : List Char :=
  if n < 0 then '-' :: digits base n.natAbs else digits base n.natAbs

/-- The decimal text of an integer. -/
def intText (n : Int) : String := String.ofList (intDigits 10 n)

/-- The decimal text of a whole number. -/
def natText (n : Nat) : String := intText n

theorem digitsOnto_eq (base n : Nat) (acc : List Char) :
    digitsOnto base n acc = digits base n ++ acc := by
  unfold digits
  suffices h : ∀ a, digitsOnto base n (a ++ acc) = digitsOnto base n a ++ acc from h []
  intro a
  fun_induction digitsOnto base n a with
  | case1 n a h => rw [digitsOnto, if_pos h, List.cons_append]
  | case2 n a h ih => rw [digitsOnto, if_neg h, ← ih, List.cons_append]

/-- The last digit is the remainder and the others are those of the quotient. -/
theorem digits_eq {base n : Nat} (h : ¬(n < base ∨ base < 2)) :
    digits base n = digits base (n / base) ++ [digitChar (n % base)] := by
  rw [digits, digitsOnto, if_neg h, digitsOnto_eq]

theorem digits_of_lt {base n : Nat} (h : n < base ∨ base < 2) :
    digits base n = [digitChar n] := by
  rw [digits, digitsOnto, if_pos h]

/-! ### Reading -/

/-- The value of digits, most significant first. -/
def ofDigits (base : Nat) (ds : List Nat) : Nat := ds.foldl (fun n d => n * base + d) 0

/-- The text after a `_` that a digit follows. -/
def skipSeparator (digit? : Char → Option Nat) : List Char → List Char
  | '_' :: c :: s => if (digit? c).isSome then c :: s else '_' :: c :: s
  | s => s

theorem length_skipSeparator_le (digit? : Char → Option Nat) (s : List Char) :
    (skipSeparator digit? s).length ≤ s.length := by
  unfold skipSeparator
  split
  · split <;> simp
  · exact Nat.le_refl _

/-- The longest run of digits at the front, with single `_` between digits, and the rest. -/
def digitRun (digit? : Char → Option Nat) : List Char → List Nat × List Char
  | [] => ([], [])
  | c :: s =>
    match digit? c with
    | none => ([], c :: s)
    | some d =>
      let (ds, rest) := digitRun digit? (skipSeparator digit? s)
      (d :: ds, rest)
termination_by s => s.length
decreasing_by exact Nat.lt_succ_of_le (length_skipSeparator_le digit? s)

/-- A sign at the front, true if it is a minus, and the rest. -/
def takeSign : List Char → Bool × List Char
  | '-' :: s => (true, s)
  | '+' :: s => (false, s)
  | s => (false, s)

end Rpn.Numeral
