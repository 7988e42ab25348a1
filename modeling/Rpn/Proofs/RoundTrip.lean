import Rpn.Proofs.Decimals
import Rpn.Proofs.Operands
import Rpn.Proofs.Operators
import Rpn.Proofs.Spellings

/-! Numbers survive being written and read.

The text of a number is read as the number (`parse?_text`), and the text of an integer
as the number nearest to it (`parse?_intText`). A token is one or the other: whole
numbers of moderate size are written as integers, and of these only minus zero loses
something, its sign. So a number read from a token and written again gives the token,
and what an operator pushes is what the next one takes (`numbers_survive_as_tokens`). -/
namespace Rpn

namespace Numeral

/-- What may follow a sign has none in front. -/
theorem takeSign_of_mem_rest {s : List Char} (h : s ∈ Form.signed.rest) :
    takeSign s = (false, s) := by
  unfold takeSign
  split
  case h_1 s =>
    obtain ⟨f, hf, -⟩ := (cons_mem_rest .signed '-' s).mp h
    cases hf
  case h_2 s =>
    obtain ⟨f, hf, -⟩ := (cons_mem_rest .signed '+' s).mp h
    cases hf
  case h_3 => rfl

theorem special?_of_mem_rest {s : List Char} (h : s ∈ Form.signed.rest) (neg : Bool) :
    Binary64.special? neg s = none := by
  rw [← Option.not_isSome_iff_eq_none, special?_isSome_iff]
  exact fun hspecial => not_mem_rest_of_specials hspecial .signed h

namespace IsText
variable {s : List Char}

theorem alike (h : IsText s) : Alike s := by
  have halphabet : alphabet.all fun c => !Text.isDigit c || (Text.decimalDigit? c).isSome := by
    decide
  intro c hc hdigit
  simpa [hdigit] using List.all_eq_true.mp halphabet c (h.chars c hc)

theorem not_isBlank (h : IsText s) : ∀ c ∈ s, Text.isBlank c = false := by
  have halphabet : alphabet.all fun c => !Text.isBlank c := by decide
  intro c hc
  simpa using List.all_eq_true.mp halphabet c (h.chars c hc)

/-- With a minus in front if the number is negative. -/
theorem signed (h : IsText s) (neg : Bool) : IsText (if neg then '-' :: s else s) := by
  cases neg with
  | false => exact h
  | true => exact h.neg

end IsText

theorem not_isFinite_of_special? {neg : Bool} {s : List Char} {x : Binary64}
    (h : Binary64.special? neg s = some x) : x.isFinite = false := by
  unfold Binary64.special? at h
  grind [Binary64.isFinite]

/-- A token that is read as a finite number has the form of a numeral. -/
theorem isNumeral_of_parse? {t : String} (ht : IsNumeric t) {x : Binary64}
    (h : Binary64.parse? t = some x) (hx : x.isFinite = true) : isNumeral t.toList = true := by
  rw [isNumeral_iff_parse? (IsText.alike ht)]
  simp only [Binary64.parse?, Lexeme.trim_of_not_isBlank (IsText.not_isBlank ht)] at h
  split at h
  case h_1 y hspecial =>
    obtain rfl := Option.some.inj h
    rw [not_isFinite_of_special? hspecial] at hx
    cases hx
  case h_2 =>
    obtain ⟨d, hd, -⟩ := Option.map_eq_some_iff.mp h
    rw [hd]
    rfl

end Numeral

/-- A word is cut into one lexeme. -/
theorem Lexeme.ofLine_of_isWord {t : String} (h : IsWord t) : ofLine t = [ofRun t.toList] := by
  have hrun : MaximalRun isWordChar [] t.toList [] := ⟨h.nonempty, h.chars, nofun, nofun⟩
  have hcut := cut_of_run hrun
  rwa [List.append_nil, cut] at hcut

namespace Binary64
open Numeral

/-! ### Texts -/

/-- A decimal and its sign are read apart. -/
theorem parse?_signed (neg : Bool) {s : List Char} (hs : IsText s) {d : Decimal}
    (hd : Decimal.parse? neg s = some d) :
    parse? (String.ofList (if neg then '-' :: s else s)) = some d.toBinary64 := by
  have hrest : s ∈ Form.signed.rest := (mem_signed_rest_iff neg hs.alike).mpr (by simp [hd])
  have hsign : takeSign (if neg then '-' :: s else s) = (neg, s) := by
    cases neg with
    | false => exact takeSign_of_mem_rest hrest
    | true => rfl
  simp only [parse?, String.toList_ofList, Lexeme.trim_of_not_isBlank (hs.signed neg).not_isBlank,
    hsign, special?_of_mem_rest hrest, hd, Option.map_some]

/-- The text of a number is read as the number. -/
theorem parse?_text (x : Binary64) : parse? x.text = some x := by
  cases x with
  | nan => decide +kernel
  | inf neg => cases neg <;> decide +kernel
  | finite neg n h =>
    obtain ⟨d, hd, hneg, hvalue⟩ :=
      Decimal.readsAs_magnitude .standard neg (Decimal.shortest n h)
    have hfinite := Decimal.toBinary64_of_value_eq (Decimal.toBinary64_shortest h) hvalue
    rw [hneg] at hfinite
    exact (parse?_signed neg (Layout.isText_magnitude _ _) hd).trans (congrArg some hfinite)

/-- The number nearest to an integer. -/
def ofInt (z : Int) : Binary64 := ofRatio (decide (z < 0)) (z.natAbs * one) 1

theorem parse?_digits (neg : Bool) (n : Nat) :
    Decimal.parse? neg (digits 10 n) = some ⟨neg, n, 0⟩ := by
  obtain ⟨ds, hds⟩ : ∃ ds, Spells 10 n ds := exists_digits (by decide) n
  have hpart : ∀ d ∈ ([] : List Nat), d < 10 := nofun
  have hparse := Decimal.parse?_digitChars neg hds.nonempty hds.lt hpart Decimal.afterDigits_nil rfl
  simpa [Decimal.fractionText, ← hds.text, hds.value] using hparse

/-- The text of an integer is read as the number nearest to it. -/
theorem parse?_intText (z : Int) : parse? (intText z) = some (ofInt z) := by
  have htext : IsText (digits 10 z.natAbs) := isText_digits (by decide) (by decide) _
  have hparse := parse?_signed (decide (z < 0)) htext (parse?_digits _ z.natAbs)
  have hnearest : Decimal.toBinary64 ⟨decide (z < 0), z.natAbs, 0⟩ = ofInt z := by
    rw [Decimal.toBinary64_eq, Decimal.numerator_of_nonpos (Int.le_refl 0),
      Decimal.denominator_of_nonneg (Int.le_refl 0), ofInt]
  rw [hnearest] at hparse
  simpa [intText, intDigits] using hparse

theorem toInt?_zero (neg : Bool) : (zero neg).toInt? = some 0 := by
  cases neg <;> simp [zero, toInt?, signed]

/-- A whole number is the one nearest to its integer, apart from the sign of zero. -/
theorem ofInt_of_toInt? {x : Binary64} {z : Int} (h : x.toInt? = some z) :
    ofInt z = if x = zero true then zero false else x := by
  cases x with
  | nan => cases h
  | inf neg => cases h
  | finite neg n ok =>
    simp only [toInt?] at h
    split at h
    case isFalse => cases h
    case isTrue hn =>
      obtain rfl := Option.some.inj h
      have hunits : (signed neg (n / one)).natAbs * one = n := by
        rw [natAbs_signed]
        exact Nat.div_mul_cancel (Nat.dvd_of_mod_eq_zero hn)
      rw [ofInt, hunits, ofRatio_one _ ok]
      cases neg with
      | false =>
        have hsign : ¬ signed false (n / one) < 0 := Int.not_lt.mpr (Int.natCast_nonneg _)
        simp [hsign, zero]
      | true =>
        by_cases hzero : n = 0
        · subst hzero
          simp [signed, zero]
        · have hpos : 0 < n / one := by
            rw [natAbs_signed] at hunits
            exact Nat.pos_of_ne_zero fun h0 => hzero (by rw [← hunits, h0, Nat.zero_mul])
          have hsign : signed true (n / one) < 0 := Int.neg_neg_of_pos (Int.natCast_pos.mpr hpos)
          simp [hsign, zero, hzero]

end Binary64

/-! ### Tokens -/

namespace Stack

theorem number_toString (z : Int) : number (toString z) = .ok (Binary64.ofInt z) := by
  rw [← Numeral.intText_eq_toString]
  exact number_of_parse? (Binary64.parse?_intText z)

end Stack

namespace Number
open Binary64

/-- A token is read as its number, apart from the sign of zero. -/
theorem parse?_token (x : Binary64) :
    parse? (real x).token = some (if x = zero true then zero false else x) := by
  have htext (hx : x ≠ zero true) :
      parse? x.text = some (if x = zero true then zero false else x) := by
    rw [if_neg hx]
    exact parse?_text x
  simp only [token]
  cases hx : x.toInt? with
  | none =>
    refine htext fun hzero => ?_
    rw [hzero, toInt?_zero] at hx
    cases hx
  | some z =>
    simp only
    split
    · rw [parse?_intText, ofInt_of_toInt? hx]
    case isFalse hlarge =>
      refine htext fun hzero => ?_
      rw [hzero, toInt?_zero] at hx
      obtain rfl : 0 = z := Option.some.inj hx
      exact hlarge (by decide)

/-- A whole number of moderate size is written as its integer. -/
theorem token_of_toInt? {x : Binary64} {z : Int} (hx : x.toInt? = some z)
    (hz : z.natAbs < integerBound) : (real x).token = Numeral.intText z := by
  simp only [token, hx, hz, if_true]

/-- The sign of zero is not written. -/
theorem token_zero (neg : Bool) : (real (zero neg)).token = Numeral.intText 0 :=
  token_of_toInt? (toInt?_zero neg) (by decide)

/-- A token of a finite number is a single lexeme, a number. -/
theorem ofLine_token {x : Binary64} (hx : x.isFinite = true) :
    Lexeme.ofLine (real x).token = [⟨.number, (real x).token⟩] := by
  have htoken : IsNumeric (real x).token := (isDecimal_token (n := real x) trivial).isNumeric
  have hfinite : (if x = zero true then zero false else x).isFinite = true := by
    split
    · rfl
    · exact hx
  rw [Lexeme.ofLine_of_isWord htoken.isWord, Lexeme.ofRun,
    if_pos (Numeral.isNumeral_of_parse? htoken (parse?_token x) hfinite), String.ofList_toList]

/-- **Numbers survive being turned into tokens.** The token of a number is read as the
number, where minus zero comes back as zero, so the same in value unless it is NaN, and
what is read has the same token again. The token of a finite number is one lexeme of
the lexer, a number. -/
theorem numbers_survive_as_tokens (x : Binary64) :
    let y := if x = zero true then zero false else x
    Stack.number (real x).token = .ok y ∧
    (x.isNaN = false → y.eq x = true) ∧
    (real y).token = (real x).token ∧
    (x.isFinite = true → Lexeme.ofLine (real x).token = [⟨.number, (real x).token⟩]) := by
  intro y
  refine ⟨Stack.number_of_parse? (parse?_token x), ?_, ?_, ofLine_token⟩
  · intro hx
    by_cases hzero : x = zero true
    · simp [y, hzero, Binary64.eq, zero, position, signed, isNaN]
    · simp [y, hzero, Binary64.eq, hx]
  · by_cases hzero : x = zero true
    · simp [y, hzero, token_zero]
    · simp [y, hzero]

/-- Minus zero, which is written without its sign. -/
theorem numbers_survive_as_tokens_of_minus_zero :
    Stack.number (real (zero true)).token = .ok (zero false) ∧
      (zero false).eq (zero true) = true ∧ Lexeme.ofLine "0" = [⟨.number, "0"⟩] := by
  obtain ⟨hread, heq, -, hline⟩ := numbers_survive_as_tokens (zero true)
  have htoken : (real (zero true)).token = "0" := (token_zero true).trans (by decide +kernel)
  rw [htoken] at hread hline ⊢
  exact ⟨hread, heq rfl, hline rfl⟩

end Number

end Rpn
