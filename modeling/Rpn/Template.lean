/-! Message templates: texts with numbered places for operands.

A digit in braces is the place of the operand with that number, and a doubled brace is
a brace. -/
namespace Rpn

/-- A text with places. -/
structure Template where
  text : String
  deriving DecidableEq, Repr

namespace Template

/-- The operand at the place that a digit names. -/
def operand (operands : List String) (d : Char) : List Char :=
  ((operands[d.toNat - '0'.toNat]?).getD "").toList

def fillChars (operands : List String) : List Char → List Char
  | [] => []
  | '\x7b' :: '\x7b' :: s => '\x7b' :: fillChars operands s
  | '\x7d' :: '\x7d' :: s => '\x7d' :: fillChars operands s
  | '\x7b' :: d :: '\x7d' :: s => operand operands d ++ fillChars operands s
  | c :: s => c :: fillChars operands s

/-- The text with the operands in their places. -/
def fill (t : Template) (operands : List String) : String :=
  String.ofList (fillChars operands t.text.toList)

end Template

end Rpn
