import Rpn.Text.Blank
import Rpn.Text.DecimalDigit

/-! Lexemes of a line.

A line is cut into runs of blanks, single parentheses, and runs of everything else. A
run of the last sort is a number if it has the form of a numeral from end to end, which
a small automaton decides, and a word otherwise. No character is lost. -/
namespace Rpn

/-! ### The form of numerals -/

namespace Numeral

/-- What numerals are made of. -/
inductive Glyph where
  | digit
  | separator
  | point
  | exponent
  | sign
  deriving DecidableEq, Repr

def glyph? (c : Char) : Option Glyph :=
  if Text.isDigit c then some .digit
  else if c = '_' then some .separator
  else if c = '.' then some .point
  else if c = 'e' ∨ c = 'E' then some .exponent
  else if c = '+' ∨ c = '-' then some .sign
  else none

/-- How far a numeral has come. -/
inductive Form where
  | start
  /-- After the sign. -/
  | signed
  /-- In the digits before the point. -/
  | whole
  | wholeSeparator
  /-- After a point that digits precede. -/
  | point
  /-- After a point that no digits precede. -/
  | barePoint
  /-- In the digits after the point. -/
  | fraction
  | fractionSeparator
  /-- After the exponent mark. -/
  | mark
  /-- After the sign of the exponent. -/
  | markSigned
  /-- In the digits of the exponent. -/
  | exponent
  | exponentSeparator
  deriving DecidableEq, Repr

/-- The form after one more character. -/
def Form.next? : Form → Glyph → Option Form
  | start, .sign => some signed
  | start, .digit | signed, .digit => some whole
  | start, .point | signed, .point => some barePoint
  | whole, .digit | wholeSeparator, .digit => some whole
  | whole, .separator => some wholeSeparator
  | whole, .point => some point
  | whole, .exponent | point, .exponent | fraction, .exponent => some mark
  | point, .digit | barePoint, .digit | fraction, .digit | fractionSeparator, .digit =>
    some fraction
  | fraction, .separator => some fractionSeparator
  | mark, .sign => some markSigned
  | mark, .digit | markSigned, .digit | exponent, .digit | exponentSeparator, .digit =>
    some exponent
  | exponent, .separator => some exponentSeparator
  | _, _ => none

/-- May a numeral end here? -/
def Form.isComplete : Form → Bool
  | whole | point | fraction | exponent => true
  | _ => false

/-- The form after a text. -/
def Form.after? (f : Form) : List Char → Option Form
  | [] => some f
  | c :: s => ((glyph? c).bind f.next?).bind (after? · s)

/-- Has the text the form of a numeral? -/
def isNumeral (s : List Char) : Bool := (Form.start.after? s).any Form.isComplete

end Numeral

/-! ### Cutting a line -/

namespace Lexeme

inductive Group where
  | number
  | marker
  | word
  | space
  deriving DecidableEq, Repr

def Group.name : Group → String
  | number => "number"
  | marker => "marker"
  | word => "word"
  | space => "space"

end Lexeme

/-- A piece of a line. -/
structure Lexeme where
  group : Lexeme.Group
  text : String
  deriving DecidableEq, Repr

namespace Lexeme

def isParenthesis (c : Char) : Bool := c = '(' || c = ')'

/-- The characters that words and numbers are made of. -/
def isWordChar (c : Char) : Bool := !Text.isBlank c && !isParenthesis c

/-- A run of word characters. -/
def ofRun (run : List Char) : Lexeme :=
  ⟨if Numeral.isNumeral run then .number else .word, String.ofList run⟩

theorem length_dropWhile_le (p : Char → Bool) (s : List Char) :
    (s.dropWhile p).length ≤ s.length :=
  (List.dropWhile_sublist p).length_le

/-- The lexemes of a text, in order. -/
def cut : List Char → List Lexeme
  | [] => []
  | c :: s =>
    if Text.isBlank c then
      ⟨.space, String.ofList (c :: s.takeWhile Text.isBlank)⟩ :: cut (s.dropWhile Text.isBlank)
    else if isParenthesis c then
      ⟨.marker, String.ofList [c]⟩ :: cut s
    else
      ofRun (c :: s.takeWhile isWordChar) :: cut (s.dropWhile isWordChar)
termination_by s => s.length
decreasing_by
  · exact Nat.lt_succ_of_le (length_dropWhile_le _ s)
  · exact Nat.lt_succ_self _
  · exact Nat.lt_succ_of_le (length_dropWhile_le _ s)

/-- Everything but blanks is a token. -/
def isToken (l : Lexeme) : Bool := l.group ≠ .space

/-- The lexemes of a line. -/
def ofLine (line : String) : List Lexeme := cut line.toList

/-- The tokens of a line. -/
def tokens (line : String) : List String := ((ofLine line).filter isToken).map text

end Lexeme

end Rpn
