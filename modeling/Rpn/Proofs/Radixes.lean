import Rpn.Proofs.Integers

/-! Conversions between bases invert each other.

The spelling of an integer in a base is read back (`parse?_spell`): the mark of a base is
never a digit of it, so written digits are not taken for a mark, though `0b1` may spell a
number in base 16. The operators go through numbers on one side and texts on the other,
and an integer that is a number, or came from one, passes both (`radix_conversions_invert`). -/
namespace Rpn

namespace Numeral

/-- Digits have no sign in front. -/
theorem takeSign_digitChars {ds : List Nat} (h : ∀ d ∈ ds, d < 16) :
    takeSign (digitChars ds) = (false, digitChars ds) := by
  have hsigns : ∀ d < 16, digitChar d ≠ '-' ∧ digitChar d ≠ '+' := by decide
  cases ds with
  | nil => rfl
  | cons d ds =>
    obtain ⟨hminus, hplus⟩ := hsigns d (h d (List.mem_cons_self ..))
    show takeSign (digitChar d :: digitChars ds) = (false, digitChar d :: digitChars ds)
    unfold takeSign
    split
    case h_1 heq =>
      injection heq with hd
      exact absurd hd hminus
    case h_2 heq =>
      injection heq with hd
      exact absurd hd hplus
    case h_3 => rfl

end Numeral

namespace Radix
open Numeral

theorem reads_digit? (r : Radix) : Reads r.digit? r.base := by
  cases r <;> exact ⟨by decide, by decide⟩

/-- The mark of a base is not a digit of the base. -/
theorem mark?_ne_digitChar (r : Radix) : ∀ d < r.base, r.mark? ≠ some (digitChar d).toLower := by
  cases r <;> decide

theorem skipMark_digitChars (r : Radix) {ds : List Nat} (h : ∀ d ∈ ds, d < r.base) :
    r.skipMark (digitChars ds) = digitChars ds := by
  match ds with
  | [] => rfl
  | [d] => rfl
  | d :: e :: ds =>
    -- the first digit may be a zero, but the second is no mark
    have hmark := r.mark?_ne_digitChar e (h e (by simp))
    simp [digitChars, skipMark, hmark]

theorem base_bounds (r : Radix) : 2 ≤ r.base ∧ r.base ≤ 16 := by
  cases r <;> decide

/-- The spelling of an integer in a base other than ten is read back. -/
theorem parse?_spell {r : Radix} (hr : r ≠ .decimal) (n : Int) :
    r.parse? (r.spell n).toList = some n := by
  obtain ⟨hlow, hhigh⟩ := r.base_bounds
  obtain ⟨ds, hds⟩ := exists_digits hlow n.natAbs
  obtain ⟨d, rest, rfl⟩ := List.exists_cons_of_ne_nil hds.nonempty
  have htrim : Text.trim (intDigits r.base n) = intDigits r.base n :=
    Lexeme.trim_of_not_isBlank (isText_intDigits hlow hhigh n).not_isBlank
  have hsign : takeSign (intDigits r.base n) = (decide (n < 0), digitChars (d :: rest)) := by
    rw [intDigits, hds.text]
    split
    case isTrue hn => rw [takeSign, decide_eq_true hn]
    case isFalse hn =>
      rw [takeSign_digitChars fun e he => Nat.lt_of_lt_of_le (hds.lt e he) hhigh,
        decide_eq_false hn]
  have hrun : digitRun r.digit? (digitChars (d :: rest)) = (d :: rest, []) := by
    simpa using digitRun_digitChars r.reads_digit? hds.lt breaks_nil
  have hvalue : (if n < 0 then -(n.natAbs : Int) else n.natAbs) = n := by
    split <;> omega
  simp only [parse?, spell, String.toList_ofList, htrim, hsign, r.skipMark_digitChars hds.lt, hrun,
    hds.value, hr, false_and, if_false, decide_eq_true_eq, hvalue]

/-- The spelling of an integer is that of the standard library. -/
theorem spell_eq (r : Radix) (n : Int) :
    r.spell n = String.ofList ((if n < 0 then ['-'] else []) ++ Nat.toDigits r.base n.natAbs) := by
  rw [spell, intDigits, digits_eq_toDigits r.base_bounds.1 r.base_bounds.2]
  split <;> rfl

end Radix

namespace Builtin
open Numeral

/-- The operators that spell integers in a base and read them back. -/
def conversions : List (Radix × String × String) := [
  (.hexadecimal, "dec_hex", "hex_dec"),
  (.binary, "dec_bin", "bin_dec"),
  (.octal, "dec_oct", "oct_dec")]

/-- Two operators spell integers in a base and read them back. -/
structure Converts (r : Radix) (encode decode : String) : Prop where
  marked : r ≠ .decimal
  encode : ∀ s, call encode s = (spell r).apply s
  decode : ∀ s, call decode s = (unspell r).apply s

theorem converts_of_mem {r : Radix} {encode decode : String}
    (h : (r, encode, decode) ∈ conversions) : Converts r encode decode := by
  simp only [conversions, List.mem_cons, Prod.mk.injEq, List.not_mem_nil, or_false] at h
  rcases h with ⟨rfl, rfl, rfl⟩ | ⟨rfl, rfl, rfl⟩ | ⟨rfl, rfl, rfl⟩ <;>
    exact ⟨by decide, fun _ => rfl, fun _ => rfl⟩

theorem lt_of_isShort {n : Int} (h : IsShort n) : n.natAbs < Nat.pow 10 maxDecimalDigits := by
  have hpow (j k : Nat) (hle : j ≤ k) : Nat.pow 10 j ≤ Nat.pow 10 k :=
    Nat.pow_le_pow_right (by decide) hle
  have hdigits : Nat.pow 10 309 ≤ Nat.pow 10 maxDecimalDigits := by
    apply hpow
    unfold maxDecimalDigits
    decide
  exact Nat.lt_of_lt_of_le h hdigits

namespace Converts
variable {r : Radix} {encode decode : String} (h : Converts r encode decode) (s : Stack)
include h

theorem call_encode {t : String} {x : Binary64} {n : Int} (ht : Stack.number t = .ok x)
    (hx : x.toInt? = some n) : call encode (s ++ [t]) = .ok (s ++ [r.spell n]) := by
  rw [h.encode, spell_apply r s ht hx]

theorem call_decode {t : String} {n : Int} (ht : r.parse? t.toList = some n) (hn : IsShort n) :
    call decode (s ++ [t]) = .ok (s ++ [toString n]) := by
  rw [h.decode, unspell_apply r s ht (lt_of_isShort hn), intText_eq_toString]

/-- A spelling is read back. -/
theorem call_decode_spell {n : Int} (hn : IsShort n) :
    call decode (s ++ [r.spell n]) = .ok (s ++ [toString n]) :=
  h.call_decode s (Radix.parse?_spell h.marked n) hn

end Converts

/-- **Conversions between bases invert each other.** A whole number is spelled in the
base, without mark and in lower case, and the spelling is read as the integer, however
large. A text that spells an integer in the base is read as the integer, and up to 2^53
is turned into the spelling. -/
theorem radix_conversions_invert {r : Radix} {encode decode : String}
    (h : (r, encode, decode) ∈ conversions) (s : Stack) :
    let spelled (n : Int) : String :=
      String.ofList ((if n < 0 then ['-'] else []) ++ Nat.toDigits r.base n.natAbs)
    (∀ t x n, Stack.number t = .ok x → x.toInt? = some n →
      call encode (s ++ [t]) = .ok (s ++ [spelled n]) ∧
      call decode (s ++ [spelled n]) = .ok (s ++ [toString n])) ∧
    ∀ u n, r.parse? u.toList = some n → n.natAbs ≤ 2 ^ 53 →
      call decode (s ++ [u]) = .ok (s ++ [toString n]) ∧
      call encode (s ++ [toString n]) = .ok (s ++ [spelled n]) ∧
      call decode (s ++ [spelled n]) = .ok (s ++ [toString n]) := by
  have hconverts := converts_of_mem h
  simp only [← Radix.spell_eq]
  refine ⟨?_, ?_⟩
  · intro t x n ht hx
    have hshort := Binary64.isShort_of_toInt? hx
    exact ⟨hconverts.call_encode s ht hx, hconverts.call_decode_spell s hshort⟩
  · intro u n hu hn
    have hwhole := Binary64.toInt?_ofInt hn
    have hshort := Binary64.isShort_of_toInt? hwhole
    have hencode := hconverts.call_encode s (Stack.number_toString n) hwhole
    exact ⟨hconverts.call_decode s hu hshort, hencode, hconverts.call_decode_spell s hshort⟩

/-- In base 16 the mark of base 2 is digits, and a blank and a sign may stand in front. -/
theorem radix_conversions_invert_of_digits_like_mark :
    call "hex_dec" ["7", " -0b_1"] = .ok ["7", "-177"] ∧
      call "dec_hex" ["7", "-177"] = .ok ["7", "-b1"] ∧
      call "dec_hex" ["7", "-1.77e2"] = .ok ["7", "-b1"] := by
  have hmember : (.hexadecimal, "dec_hex", "hex_dec") ∈ conversions := by simp [conversions]
  obtain ⟨hwhole, htext⟩ := radix_conversions_invert hmember ["7"]
  have hnumber : Stack.number "-1.77e2" = .ok (.ofInt (-177)) :=
    Stack.number_of_parse? (by decide +kernel)
  obtain ⟨hdecode, hencode, -⟩ := htext " -0b_1" (-177) (by decide +kernel) (by norm_num)
  obtain ⟨hdirect, -⟩ := hwhole "-1.77e2" _ (-177) hnumber (Binary64.toInt?_ofInt (by norm_num))
  exact ⟨hdecode, hencode, hdirect⟩

end Builtin

end Rpn
