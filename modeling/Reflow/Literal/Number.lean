import Reflow.Text.Letters
import Reflow.Text.Trim

/-! # Number literals

Numbers are printed in lower case, without a plus or leading zeros in the exponent, without an
exponent of zero, with a digit before the point, and without zeros at the end of the fraction. -/

namespace Reflow.Literal

/-- The end of a text, or a line feed that ends it. -/
def isAtEnd (cs : List Char) : Bool := cs == [] || cs == ['\n']

/-- The end of the digits of a number: an exponent or the end. -/
def isAtDigitsEnd (cs : List Char) : Bool := cs.head? == some 'e' || isAtEnd cs

/-- The sign and the digits with points at the start of a text, if there are any, and the rest. -/
def splitMantissa? (cs : List Char) : Option (List Char × List Char) :=
  let sign := cs.takeWhile fun c => c == '+' || c == '-'
  let sign := sign.take 1
  let digits := (cs.drop sign.length).takeWhile fun c => Text.isDecimal c || c == '.'
  if digits.isEmpty then none
  else some (sign ++ digits, cs.drop (sign.length + digits.length))

/-- Drops leading zeros before another digit; there has to be one digit at least. -/
def dropZeros? (cs : List Char) : Option (List Char) :=
  let rest := cs.dropWhile (· == '0')
  if rest.head?.any Text.isDecimal then some rest
  else if cs.head? = some '0' then some ('0' :: rest)
  else none

/-- Drops a plus and leading zeros in the exponent. -/
def tidyExponent (cs : List Char) : List Char :=
  match splitMantissa? cs with
  | some (mantissa, 'e' :: exponent) =>
    let (sign, digits) := match exponent with
      | '+' :: digits => ([], digits)
      | '-' :: digits => (['-'], digits)
      | digits => ([], digits)
    match dropZeros? digits with
    | some digits => mantissa ++ 'e' :: sign ++ digits
    | none => cs
  | _ => cs

/-- Drops an exponent of zero. -/
def dropZeroExponent (cs : List Char) : List Char :=
  match splitMantissa? cs with
  | some (mantissa, 'e' :: exponent) =>
    let digits := match exponent with
      | '+' :: digits => digits
      | '-' :: digits => digits
      | digits => digits
    let rest := digits.dropWhile (· == '0')
    if digits.head? = some '0' && isAtEnd rest then mantissa ++ rest else cs
  | _ => cs

/-- Puts a zero before a leading point. -/
def addLeadingZero (cs : List Char) : List Char :=
  match cs with
  | '.' :: rest => '0' :: '.' :: rest
  | '+' :: '.' :: rest => '+' :: '0' :: '.' :: rest
  | '-' :: '.' :: rest => '-' :: '0' :: '.' :: rest
  | _ => cs

/-- The fraction digits without the zeros at their end; one digit stays. -/
def trimFraction (digits : List Char) : List Char :=
  let kept := Text.dropEndWhile (· == '0') digits
  if kept.isEmpty then digits.take 1 else kept

/-- Drops the zeros at the end of every fraction.  `skip` counts digits that are dropped. -/
def trimFractions : Nat → List Char → List Char
  | _, [] => []
  | skip + 1, _ :: rest => trimFractions skip rest
  | 0, c :: rest =>
    let digits := rest.takeWhile Text.isDecimal
    if c = '.' && isAtDigitsEnd (rest.drop digits.length) then
      let kept := trimFraction digits
      '.' :: kept ++ trimFractions digits.length rest
    else c :: trimFractions 0 rest

/-- Drops a point without a fraction. -/
def dropBarePoints : List Char → List Char
  | [] => []
  | c :: rest => if c = '.' && isAtDigitsEnd rest then dropBarePoints rest else c :: dropBarePoints rest

/-- How a number literal is printed. -/
def printNumberChars (raw : List Char) : List Char :=
  let value := Text.lowerChars raw
  let based := match value with
    | '0' :: mark :: _ => mark == 'x' || mark == 'o' || mark == 'b'
    | _ => false
  if based || value.getLast? == some 'n' then value
  else dropBarePoints (trimFractions 0 (addLeadingZero (dropZeroExponent (tidyExponent value))))

/-- How a number literal is printed. -/
def printNumber (raw : String) : String := String.ofList (printNumberChars raw.toList)

end Reflow.Literal
