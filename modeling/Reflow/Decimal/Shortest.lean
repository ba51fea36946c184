import Reflow.Text.CharClass

/-! # Shortest decimals

A number in binary with a mantissa of 53 bits is written by the fewest decimal digits that read back
as that number, and of these by the nearest. -/

namespace Reflow.Decimal

/-- A number `mantissa * 2 ^ exponent`. -/
structure Binary where
  mantissa : Nat
  exponent : Int
  deriving Repr, DecidableEq

/-- The number `n * base ^ e` as a fraction. -/
def scaled (n base : Nat) (e : Int) : Nat × Nat :=
  if 0 ≤ e then (n * Nat.pow base e.toNat, 1) else (n, Nat.pow base (-e).toNat)

/-- The quotient rounded to the nearest number, a half to the even one. -/
def roundDiv (num den : Nat) : Nat :=
  let q := num / den
  let r := num % den
  if 2 * r < den || (2 * r = den && q % 2 = 0) then q else q + 1

/-- The bits of a mantissa. -/
def mantissaBits : Nat := 53

/-- The exponent of the smallest numbers. -/
def leastExponent : Int := -1074

/-- The exponent of the largest numbers. -/
def greatestExponent : Int := 971

/-- The binary number nearest to a fraction; `none` if the fraction is too large. -/
def nearest? (num den : Nat) : Option Binary :=
  if num = 0 then some ⟨0, leastExponent⟩
  else
    let size : Int := (num.log2 : Int) - den.log2
    let (a, b) := scaled 1 2 size
    let lead : Int := if a * den ≤ num * b then size else size - 1
    let e := max (lead + 1 - mantissaBits) leastExponent
    let (a, b) := scaled 1 2 e
    let m := roundDiv (num * b) (den * a)
    let (m, e) := if m = Nat.pow 2 mantissaBits then (m / 2, e + 1) else (m, e)
    if greatestExponent < e then none else some ⟨m, e⟩

/-- Decimal digits and an exponent of ten. -/
structure Digits where
  digits : Nat
  exponent : Int
  deriving Repr, DecidableEq

/-- Does a decimal read back as a binary number? -/
def Digits.readsBack (d : Digits) (x : Binary) : Bool :=
  let (num, den) := scaled d.digits 10 d.exponent
  nearest? num den == some x

/-- Drops zeros at the end of the digits. -/
def Digits.trim (fuel : Nat) (d : Digits) : Digits :=
  match fuel with
  | 0 => d
  | fuel + 1 =>
    if d.digits != 0 && d.digits % 10 = 0 then Digits.trim fuel ⟨d.digits / 10, d.exponent + 1⟩ else d

/-- The number of zeros between the point and the first digit of a fraction below one. -/
def zerosBehindPoint (num den : Nat) : Nat → Nat
  | 0 => 0
  | fuel + 1 => if den ≤ 10 * num then 0 else zerosBehindPoint (10 * num) den fuel + 1

/-- The number of digits before the point; negative by the zeros behind it. -/
def pointOf (num den : Nat) : Int :=
  if den ≤ num then ((toString (num / den)).length : Int) else -(zerosBehindPoint num den 400)

/-- The nearer of the two decimals around a fraction, of those that read back. -/
def candidate? (x : Binary) (num den : Nat) (exponent : Int) : Option Digits :=
  let (a, b) := scaled 1 10 exponent
  let low := num * b / (den * a)
  let lower : Digits := ⟨low, exponent⟩
  let upper : Digits := ⟨low + 1, exponent⟩
  let rounded : Digits := ⟨roundDiv (num * b) (den * a), exponent⟩
  if rounded.readsBack x then some rounded
  else [lower, upper].find? fun d => d.digits != 0 && d.readsBack x

/-- The fewest digits that read back as a number. -/
def shortest (x : Binary) : Digits :=
  let (num, den) := scaled x.mantissa 2 x.exponent
  let point := pointOf num den
  let tries := (List.range 17).map fun (n : Nat) => point - ((n : Int) + 1)
  match tries.findSome? (candidate? x num den) with
  | some d => d.trim 400
  | none => ⟨num / den, 0⟩

/-- The text of a number: with a point between the fourth place behind it and the sixteenth place
before it, and with an exponent otherwise. -/
def Digits.text (d : Digits) : String :=
  let digits := toString d.digits
  let point : Int := digits.length + d.exponent
  let zeros (n : Int) : String := String.ofList (List.replicate n.toNat '0')
  if -4 < point && point ≤ 16 then
    if point ≤ 0 then "0." ++ zeros (-point) ++ digits
    else if (digits.length : Int) ≤ point then digits ++ zeros (point - digits.length) ++ ".0"
    else
      let whole := digits.toList.take point.toNat
      let part := digits.toList.drop point.toNat
      String.ofList whole ++ "." ++ String.ofList part
  else
    let part := digits.toList.drop 1
    let e := point - 1
    let magnitude := toString e.natAbs
    String.ofList (digits.toList.take 1)
      ++ (if part.isEmpty then "" else "." ++ String.ofList part)
      ++ (if e < 0 then "e-" else "e+") ++ zeros (2 - magnitude.length) ++ magnitude

/-- The text of the binary number nearest to `digits * 10 ^ exponent`. -/
def textOf (digits : Nat) (exponent : Int) : String :=
  let (num, den) := scaled digits 10 exponent
  match nearest? num den with
  | none => "inf"
  | some x => if x.mantissa = 0 then "0.0" else (shortest x).text

/-- The text of a number with some digits before and behind its point and an exponent.  Numbers far
out of range are not worked out. -/
def rounded (negative : Bool) (whole part : List Char) (exponent : Int) : String :=
  let n := Text.decimalNumber (whole ++ part)
  let size : Int := (toString n).length - part.length + exponent
  let text :=
    if n = 0 || size < -400 then "0.0"
    else if 400 < size then "inf"
    else textOf n (exponent - part.length)
  if negative then "-" ++ text else text

end Reflow.Decimal
