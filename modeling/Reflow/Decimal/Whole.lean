import Reflow.Limit
import Reflow.Text.CharClass

/-! # Whole numbers in decimal

Numbers of thousands of digits are neither read nor written.  All digits of a spelling count, those
of leading zeros too; signs and separators do not. -/

namespace Reflow.Decimal

/-- The greatest number of digits. -/
def maxDigits : Nat := 4300

/-- The number of some digits. -/
def whole (digits : List Char) : Except Limit Nat :=
  if maxDigits < digits.length then .error .digits else .ok (Text.decimalNumber digits)

/-- Has a number few enough digits to be written? -/
def isWritable (n : Nat) : Bool := n < Nat.pow 10 maxDigits

end Reflow.Decimal
