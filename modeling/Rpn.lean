import Rpn.Main
import Rpn.Proofs.Definitions
import Rpn.Proofs.Nesting
import Rpn.Proofs.Rollback
import Rpn.Proofs.Registers
import Rpn.Proofs.Shadowing
import Rpn.Proofs.Frame
import Rpn.Proofs.Height
import Rpn.Proofs.Numerals
import Rpn.Proofs.Lexemes
import Rpn.Proofs.Patterns
import Rpn.Proofs.Printing
import Rpn.Proofs.Pieces
import Rpn.Proofs.Channels
import Rpn.Proofs.Origins
import Rpn.Proofs.Mapping
import Rpn.Proofs.Verbatim
import Rpn.Proofs.Spellings
import Rpn.Proofs.Rounding
import Rpn.Proofs.Operands
import Rpn.Proofs.Ranges
import Rpn.Proofs.Decimals
import Rpn.Proofs.RoundTrip
import Rpn.Proofs.Integers
import Rpn.Proofs.Radixes
import Rpn.Proofs.IntegerRanges
import Rpn.Proofs.Counted
import Rpn.Proofs.Divisors
import Rpn.Proofs.RangeLengths
import Rpn.Proofs.FullRanges
import Rpn.Proofs.Totals
import Rpn.Proofs.Halves
import Rpn.Proofs.Recall
