/-! Decimal digits of the scripts of the Unicode standard.

Every script's digits stand in a block of ten, zero first, so a table of the zeros is
the whole property. Two editions are kept: numbers are read with the digits of version
14, and lexemes are told apart with those of version 17, which has more scripts. -/
namespace Rpn.Text

/-- The zeros of the digit blocks of version 14. -/
def digitZeros : List Nat :=
  [0x30, 0x660, 0x6F0, 0x7C0, 0x966, 0x9E6, 0xA66, 0xAE6, 0xB66, 0xBE6, 0xC66, 0xCE6, 0xD66,
   0xDE6, 0xE50, 0xED0, 0xF20, 0x1040, 0x1090, 0x17E0, 0x1810, 0x1946, 0x19D0, 0x1A80, 0x1A90,
   0x1B50, 0x1BB0, 0x1C40, 0x1C50, 0xA620, 0xA8D0, 0xA900, 0xA9D0, 0xA9F0, 0xAA50, 0xABF0,
   0xFF10, 0x104A0, 0x10D30, 0x11066, 0x110F0, 0x11136, 0x111D0, 0x112F0, 0x11450, 0x114D0,
   0x11650, 0x116C0, 0x11730, 0x118E0, 0x11950, 0x11C50, 0x11D50, 0x11DA0, 0x16A60, 0x16AC0,
   0x16B50, 0x1D7CE, 0x1D7D8, 0x1D7E2, 0x1D7EC, 0x1D7F6, 0x1E140, 0x1E2F0, 0x1E950, 0x1FBF0]

/-- The zeros of the digit blocks added from version 15 to version 17. -/
def laterDigitZeros : List Nat :=
  [0x10D40, 0x116D0, 0x116DA, 0x11BF0, 0x11DE0, 0x11F50, 0x16130, 0x16D70, 0x1CCF0, 0x1E4F0,
   0x1E5F1]

/-- Does the character stand in the block of ten that starts at `start`? -/
def inBlock (c : Char) (start : Nat) : Bool :=
  decide (start ≤ c.toNat) && decide (c.toNat < start + 10)

/-- The value of a decimal digit. -/
def decimalDigit? (c : Char) : Option Nat :=
  (digitZeros.find? (inBlock c)).map (c.toNat - ·)

/-- A decimal digit of the later edition. -/
def isDigit (c : Char) : Bool :=
  digitZeros.any (inBlock c) || laterDigitZeros.any (inBlock c)

/-- What is read as a digit is one. -/
theorem isDigit_of_decimalDigit? {c : Char} (h : (decimalDigit? c).isSome) :
    isDigit c = true := by
  simp only [decimalDigit?, Option.isSome_map, List.find?_isSome] at h
  simp only [isDigit, Bool.or_eq_true, List.any_eq_true]
  exact .inl h

end Rpn.Text
