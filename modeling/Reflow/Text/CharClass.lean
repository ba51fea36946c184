import Reflow.Text.Tables.Letter
import Reflow.Text.Tables.Numeric
import Reflow.Text.Tables.Identifier
import Reflow.Text.Tables.Printable
import Reflow.Text.Tables.Columns
import Reflow.Text.Tables.Case

/-! # Character classes

The classes of characters that the scanners and printers ask about, over all of Unicode. -/

namespace Reflow.Text

/-- A letter of any script. -/
def isLetter (c : Char) : Bool := Tables.letter.contains c.toNat

/-- A letter, a digit or any other character with a numeric value. -/
def isAlphanumeric (c : Char) : Bool :=
  Tables.letter.contains c.toNat || Tables.numeric.contains c.toNat

/-- A character with a digit value; superscripts and circled digits are among them. -/
def isDigit (c : Char) : Bool := Tables.digit.contains c.toNat

/-- A decimal digit of any script. -/
def isDecimal (c : Char) : Bool := Tables.decimal.contains c.toNat

/-- The value of a decimal digit, zero for any other character. -/
def decimalValue (c : Char) : Nat :=
  match Tables.decimal.start? c.toNat with
  | some start => (c.toNat - start) % 10
  | none => 0

/-- The number that a run of decimal digits writes. -/
def decimalNumber (digits : List Char) : Nat :=
  digits.foldl (fun n c => 10 * n + decimalValue c) 0

/-- The code points of white space. -/
def spaceRanges : Ranges :=
  [(0x9, 0xd), (0x1c, 0x20), (0x85, 0x85), (0xa0, 0xa0), (0x1680, 0x1680), (0x2000, 0x200a),
   (0x2028, 0x2029), (0x202f, 0x202f), (0x205f, 0x205f), (0x3000, 0x3000)]

/-- White space: every separator and the control characters that act as one. -/
def isSpace (c : Char) : Bool := spaceRanges.contains c.toNat

/-- A single or double quote. -/
def isQuote (c : Char) : Bool := c == '"' || c == '\''

/-- A character of a word: alphanumeric or an underscore. -/
def isWordChar (c : Char) : Bool := isAlphanumeric c || c == '_'

/-- An uppercase character. -/
def isUppercase (c : Char) : Bool := (CaseRun.map? Tables.uppercase c.toNat).isSome

/-- A character that quoted text shows as itself. -/
def isPrintable (c : Char) : Bool := Tables.printable.contains c.toNat

/-- A character that can start an identifier. -/
def isIdentifierStart (c : Char) : Bool :=
  c == '_' || (isLetter c && !Tables.letterNotStart.contains c.toNat)
    || Tables.numeralStart.contains c.toNat

/-- An alphanumeric character or underscore that can continue an identifier. -/
def isIdentifierPart (c : Char) : Bool :=
  c == '_' || (isAlphanumeric c && !Tables.notContinue.contains c.toNat)

/-- An identifier made of alphanumeric characters and underscores. -/
def isIdentifier : List Char → Bool
  | [] => false
  | c :: rest => isIdentifierStart c && rest.all isIdentifierPart

end Reflow.Text
