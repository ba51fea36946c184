import Reflow.Limit
import Reflow.Text.Trim

/-! # Strings and keys

The texts of a configuration: quoted strings on one line or on several, and keys.  A reader takes
what it reads from the start of the characters and gives what is left, or fails. -/

namespace Reflow.Toml

/-- Reads from the start of a text. -/
abbrev Reader (α : Type) := List Char → Option (α × List Char)

/-- Why a configuration cannot be read. -/
inductive Fault where
  /-- It is not well formed. -/
  | malformed
  /-- It holds a number that is not worked out. -/
  | limit (passed : Limit)
  deriving Repr, DecidableEq

/-- Reads a value from the start of a text. -/
abbrev ValueReader (α : Type) := List Char → Except Fault (α × List Char)

/-- What has to be there in a well formed text. -/
def required {α : Type} (a : Option α) : Except Fault α :=
  match a with
  | some a => .ok a
  | none => .error .malformed

/-- A control character that may not stand in a string or comment. -/
def isForbidden (c : Char) : Bool := (c.toNat < 32 || c.toNat = 127) && c != '\t'

/-- A control character that may not stand in a string over several lines. -/
def isForbiddenInLines (c : Char) : Bool := isForbidden c && c != '\n'

/-- Drops spaces and tabs. -/
def skipBlanks (cs : List Char) : List Char := cs.dropWhile Text.isBlank

/-- Drops blanks and line ends. -/
def skipLines (cs : List Char) : List Char := cs.dropWhile fun c => Text.isBlank c || c == '\n'

/-! ## Strings without escapes -/

/-- The content of a string without escapes, from behind its quote on. -/
def literalString : Reader (List Char)
  | [] => none
  | c :: rest =>
    if c = '\'' then some ([], rest)
    else if isForbidden c then none
    else (literalString rest).map fun (s, left) => (c :: s, left)

/-- The content of a string without escapes over several lines. -/
def literalLines : Reader (List Char)
  | [] => none
  | '\'' :: '\'' :: '\'' :: rest => some ([], rest)
  | c :: rest =>
    if isForbiddenInLines c then none
    else (literalLines rest).map fun (s, left) => (c :: s, left)

/-! ## Strings with escapes -/

/-- The value of a hexadecimal digit. -/
def hexValue? (c : Char) : Option Nat :=
  if '0' ≤ c && c ≤ '9' then some (c.toNat - '0'.toNat)
  else if 'a' ≤ c && c ≤ 'f' then some (c.toNat - 'a'.toNat + 10)
  else if 'A' ≤ c && c ≤ 'F' then some (c.toNat - 'A'.toNat + 10)
  else none

/-- The character of a number of hexadecimal digits. -/
def hexCharacter (count : Nat) : Reader (List Char) := fun cs => do
  let digits ← (cs.take count).mapM hexValue?
  let n := digits.foldl (fun n d => 16 * n + d) 0
  if digits.length = count && (n < 0xD800 || (0xDFFF < n && n < 0x110000)) then
    some ([Char.ofNat n], cs.drop count)
  else none

/-- The meaning of a letter behind a backslash. -/
def escapes : List (Char × Char) :=
  [('b', '\x08'), ('t', '\t'), ('n', '\n'), ('f', '\x0c'), ('r', '\r'), ('"', '"'), ('\\', '\\')]

/-- An escaped line end: it and all white space behind it are dropped. -/
def escapedLineEnd (cs : List Char) : Option (List Char × List Char) :=
  match skipBlanks cs with
  | [] => some ([], [])
  | '\n' :: rest => some ([], skipLines rest)
  | _ => none

/-- What is behind a backslash. -/
def escape (severalLines : Bool) : Reader (List Char)
  | [] => none
  | c :: rest =>
    if severalLines && (c == ' ' || c == '\t' || c == '\n') then escapedLineEnd (c :: rest)
    else if c = 'u' then hexCharacter 4 rest
    else if c = 'U' then hexCharacter 8 rest
    else (escapes.lookup c).map fun d => ([d], rest)

/-- The content of a string with escapes, from behind its quotes on.  `fuel` bounds its length. -/
def basicString (severalLines : Bool) : Nat → Reader (List Char)
  | 0, _ => none
  | fuel + 1, cs =>
    match cs with
    | [] => none
    | '\\' :: rest => do
      let (s, rest) ← escape severalLines rest
      let (more, left) ← basicString severalLines fuel rest
      return (s ++ more, left)
    | c :: rest =>
      if c = '"' && !severalLines then some ([], rest)
      else if c = '"' && Text.startsWith rest ['"', '"'] then some ([], rest.drop 2)
      else if c != '"' && (if severalLines then isForbiddenInLines c else isForbidden c) then none
      else (basicString severalLines fuel rest).map fun (s, left) => (c :: s, left)

/-! ## All strings -/

/-- Adds up to two quotes that stand right behind the closing ones. -/
def withExtraQuotes (quote : Char) (s : List Char) (cs : List Char) : List Char × List Char :=
  let extra := ((cs.take 2).takeWhile (· == quote)).length
  (s ++ List.replicate extra quote, cs.drop extra)

/-- Drops a line end at the start. -/
def dropFirstLineEnd (cs : List Char) : List Char :=
  match cs with
  | '\n' :: rest => rest
  | _ => cs

/-- A string on one line. -/
def oneLineString : Reader (List Char)
  | '"' :: rest => basicString false (rest.length + 1) rest
  | '\'' :: rest => literalString rest
  | _ => none

/-- A string of any kind. -/
def string : Reader (List Char)
  | '"' :: '"' :: '"' :: rest => do
    let (s, left) ← basicString true (rest.length + 1) (dropFirstLineEnd rest)
    return withExtraQuotes '"' s left
  | '\'' :: '\'' :: '\'' :: rest => do
    let (s, left) ← literalLines (dropFirstLineEnd rest)
    return withExtraQuotes '\'' s left
  | cs => oneLineString cs

/-! ## Keys -/

/-- A character of a key without quotes. -/
def isBareKeyChar (c : Char) : Bool := c.isAlphanum || c == '-' || c == '_'

/-- One part of a key. -/
def keyPart : Reader String := fun cs =>
  match cs with
  | [] => none
  | c :: _ =>
    if isBareKeyChar c then
      some (String.ofList (cs.takeWhile isBareKeyChar), cs.dropWhile isBareKeyChar)
    else (oneLineString cs).map fun (s, left) => (String.ofList s, left)

/-- A key of several parts with dots between them, and the blanks behind it. -/
def key : Nat → Reader (List String)
  | 0, _ => none
  | fuel + 1, cs => do
    let (part, rest) ← keyPart cs
    match skipBlanks rest with
    | '.' :: rest =>
      let (parts, left) ← key fuel (skipBlanks rest)
      return (part :: parts, left)
    | rest => return ([part], rest)

end Reflow.Toml
