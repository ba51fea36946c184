import Reflow.Decimal.Shortest
import Reflow.Decimal.Whole
import Reflow.Options
import Reflow.Toml.Text

/-! # Numbers and times

The values of a configuration that are written without quotes.  Times and numbers with a fraction
are no values of options; they are kept as the text that shows them. -/

namespace Reflow.Toml

/-! ## Numbers -/

/-- Digits behind the first one; a single underscore may stand between two of them. -/
def moreDigits (isDigit : Char → Bool) : List Char → List Char × List Char
  | '_' :: d :: rest =>
    if isDigit d then
      let (digits, left) := moreDigits isDigit rest
      (d :: digits, left)
    else ([], '_' :: d :: rest)
  | c :: rest =>
    if isDigit c then
      let (digits, left) := moreDigits isDigit rest
      (c :: digits, left)
    else ([], c :: rest)
  | [] => ([], [])

/-- One digit or more. -/
def digits (isDigit : Char → Bool) : Reader (List Char)
  | [] => none
  | c :: rest =>
    if isDigit c then
      let (more, left) := moreDigits isDigit rest
      some (c :: more, left)
    else none

/-- The number of some digits. -/
def numberOf (base : Nat) (digits : List Char) : Nat :=
  digits.foldl (fun n c => base * n + (hexValue? c).getD 0) 0

/-- A whole number in another base. -/
def basedInteger : Reader Nat
  | '0' :: 'x' :: rest =>
    (digits (fun c => (hexValue? c).isSome) rest).map fun (ds, left) => (numberOf 16 ds, left)
  | '0' :: 'b' :: rest =>
    (digits (fun c => c == '0' || c == '1') rest).map fun (ds, left) => (numberOf 2 ds, left)
  | '0' :: 'o' :: rest =>
    (digits (fun c => '0' ≤ c && c ≤ '7') rest).map fun (ds, left) => (numberOf 8 ds, left)
  | _ => none

/-- The sign of a number: is it negative? -/
def sign : List Char → Bool × List Char
  | '+' :: rest => (false, rest)
  | '-' :: rest => (true, rest)
  | cs => (false, cs)

/-- The digits before the point; a zero stands alone. -/
def wholeDigits : Reader (List Char)
  | '0' :: rest => some (['0'], rest)
  | cs => digits Char.isDigit cs

/-- The digits behind the point, if there are any. -/
def fraction (cs : List Char) : Option (List Char × List Char) :=
  match cs with
  | '.' :: rest => digits Char.isDigit rest
  | _ => none

/-- The exponent, if there is one. -/
def exponent (cs : List Char) : Option (Int × List Char) :=
  match cs with
  | c :: rest =>
    if c = 'e' || c = 'E' then
      let (negative, rest) := sign rest
      (digits Char.isDigit rest).map fun (ds, left) =>
        (if negative then -(numberOf 10 ds : Int) else numberOf 10 ds, left)
    else none
  | [] => none

/-- A decimal number.  A whole number may have too many digits; one with a fraction or an exponent
is rounded. -/
def decimal : Reader (Except Limit OptionValue) := fun cs => do
  let (negative, rest) := sign cs
  let (whole, rest) ← wholeDigits rest
  let (part, rest) := (fraction rest).getD ([], rest)
  match exponent rest with
  | some (e, rest) => return (.ok (.other (Decimal.rounded negative whole part e)), rest)
  | none =>
    if part.isEmpty then
      let signed (n : Nat) : OptionValue := .int (if negative then -n else n)
      return ((Decimal.whole whole).map signed, rest)
    return (.ok (.other (Decimal.rounded negative whole part 0)), rest)

/-- The numbers without digits, with the texts that show them. -/
def specialNumbers : List (String × String) :=
  [("inf", "inf"), ("nan", "nan"), ("-inf", "-inf"), ("+inf", "inf"), ("-nan", "nan"),
   ("+nan", "nan")]

/-- A number of any kind. -/
def number : ValueReader OptionValue := fun cs =>
  match basedInteger cs with
  | some (n, left) => .ok (.int n, left)
  | none =>
    match decimal cs with
    | some (.ok v, left) => .ok (v, left)
    | some (.error limit, _) => .error (.limit limit)
    | none => required (specialNumbers.findSome? fun (spelling, text) =>
      (Text.dropLeading? spelling.toList cs).map fun left => (.other text, left))

/-! ## Dates and times -/

/-- A number of two digits within bounds. -/
def twoDigits (least greatest : Nat) : Reader Nat
  | a :: b :: rest =>
    let n := numberOf 10 [a, b]
    if a.isDigit && b.isDigit && least ≤ n && n ≤ greatest then some (n, rest) else none
  | _ => none

/-- Drops one given character. -/
def symbol (c : Char) : List Char → Option (List Char)
  | d :: rest => if c = d then some rest else none
  | [] => none

/-- Hours, minutes, seconds and millionths of a second. -/
structure Time where
  hour : Nat
  minute : Nat
  second : Nat
  micros : Nat

/-- The millionths of a second behind a point; further digits are dropped. -/
def micros (cs : List Char) : Nat × List Char :=
  match cs with
  | '.' :: rest =>
    let ds := rest.takeWhile Char.isDigit
    if ds.isEmpty then (0, cs)
    else (numberOf 10 ((ds ++ List.replicate 6 '0').take 6), rest.drop ds.length)
  | _ => (0, cs)

/-- A time of the day. -/
def time : Reader Time := fun cs => do
  let (hour, rest) ← twoDigits 0 23 cs
  let (minute, rest) ← twoDigits 0 59 (← symbol ':' rest)
  let (second, rest) ← twoDigits 0 59 (← symbol ':' rest)
  let (micros, rest) := micros rest
  return (⟨hour, minute, second, micros⟩, rest)

/-- The offset of a time zone in minutes. -/
def offset (cs : List Char) : Option (Int × List Char) :=
  match cs with
  | c :: rest =>
    if c = 'Z' || c = 'z' then some (0, rest)
    else if c = '+' || c = '-' then do
      let (hour, rest) ← twoDigits 0 23 rest
      let (minute, rest) ← twoDigits 0 59 (← symbol ':' rest)
      let total : Int := 60 * hour + minute
      return (if c = '-' then -total else total, rest)
    else none
  | [] => none

/-- The days of a month. -/
def daysIn (year month : Nat) : Nat :=
  if month = 2 then
    if year % 4 = 0 && (year % 100 != 0 || year % 400 = 0) then 29 else 28
  else if [4, 6, 9, 11].contains month then 30 else 31

/-- A year, a month and a day of it. -/
structure Date where
  year : Nat
  month : Nat
  day : Nat

/-- Is there such a day? -/
def Date.isValid (d : Date) : Bool := 1 ≤ d.year && d.day ≤ daysIn d.year d.month

/-- A date, which may not exist. -/
def date : Reader Date := fun cs => do
  let year := cs.take 4
  if year.length != 4 || !year.all Char.isDigit then none
  let (month, rest) ← twoDigits 1 12 (← symbol '-' (cs.drop 4))
  let (day, rest) ← twoDigits 1 31 (← symbol '-' rest)
  return (⟨numberOf 10 year, month, day⟩, rest)

/-- Numbers with commas between them. -/
def commas (ns : List Nat) : String := ", ".intercalate (ns.map toString)

/-- The parts of a time that are shown: seconds and their fraction only if they are not zero. -/
def Time.parts (t : Time) : List Nat :=
  if t.micros != 0 then [t.hour, t.minute, t.second, t.micros]
  else if t.second != 0 then [t.hour, t.minute, t.second]
  else [t.hour, t.minute]

/-- How a time zone is shown. -/
def zoneText (minutes : Int) : String :=
  if minutes = 0 then "datetime.timezone.utc"
  else
    let seconds := 60 * minutes
    let delta := if seconds < 0 then "days=-1, seconds=" ++ toString (86400 + seconds)
      else "seconds=" ++ toString seconds
    "datetime.timezone(datetime.timedelta(" ++ delta ++ "))"

/-- The date and time at the start of a text, if there is a date.  The result is empty for a day that
does not exist. -/
def moment? (cs : List Char) : Option (Option (OptionValue × List Char)) := do
  let (d, rest) ← date cs
  let days := [d.year, d.month, d.day]
  let timed := match rest with
    | c :: behind => if c = 'T' || c = 't' || c = ' ' then time behind else none
    | [] => none
  if !d.isValid then return none
  match timed with
  | none => return some (.other ("datetime.date(" ++ commas days ++ ")"), rest)
  | some (t, rest) =>
    let shown := commas (days ++ t.parts)
    match offset rest with
    | some (minutes, rest) =>
      return some (.other ("datetime.datetime(" ++ shown ++ ", tzinfo=" ++ zoneText minutes ++ ")"),
        rest)
    | none => return some (.other ("datetime.datetime(" ++ shown ++ ")"), rest)

/-- A value without quotes, brackets or braces. -/
def scalar : ValueReader OptionValue := fun cs =>
  match Text.dropLeading? "true".toList cs, Text.dropLeading? "false".toList cs with
  | some left, _ => .ok (.bool true, left)
  | _, some left => .ok (.bool false, left)
  | none, none =>
    match moment? cs with
    | some result => required result
    | none =>
      match time cs with
      | some (t, left) => .ok (.other ("datetime.time(" ++ commas t.parts ++ ")"), left)
      | none => number cs

end Reflow.Toml
