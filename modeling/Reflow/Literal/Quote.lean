import Reflow.Text.Trim

/-! # String literals

The quotes of a string literal are chosen for the fewest escapes, and its escapes are adapted to
them. -/

namespace Reflow.Literal

/-- The other quote. -/
def otherQuote (quote : Char) : Char := if quote = '"' then '\'' else '"'

/-- The preferred quote, unless the content holds more of them than of the other. -/
def preferredQuote (content : List Char) (single : Bool) : Char :=
  let preferred := if single then '\'' else '"'
  let alternate := if single then '"' else '\''
  if content.count alternate < content.count preferred then alternate else preferred

/-- Does a backslash before the character mean something? -/
def isMeaningfulEscape (c : Char) : Bool :=
  ['\\', 'n', 'r', 'v', 't', 'b', 'f', 'u', 'x', '\r', '\n', '\u2028', '\u2029', '"', '\'', '0',
   '1', '2', '3', '4', '5', '6', '7'].contains c

/-- Escapes the enclosing quote if it is a single or double one, and drops backslashes that mean
nothing. -/
def requote (quote : Char) : List Char → List Char
  | '\\' :: c :: rest =>
    if c = otherQuote quote then c :: requote quote rest
    else if isMeaningfulEscape c then '\\' :: c :: requote quote rest
    else c :: requote quote rest
  | c :: rest =>
    if c = quote && Text.isQuote c then '\\' :: c :: requote quote rest else c :: requote quote rest
  | [] => []

/-- The content in the given quotes. -/
def enclose (content : List Char) (quote : Char) : List Char :=
  quote :: requote quote content ++ [quote]

/-- A literal without its first and last character. -/
def contentOf (raw : List Char) : List Char := (raw.drop 1).dropLast

/-- How a string literal is printed. -/
def printString (raw : String) (single : Bool) : String :=
  let content := contentOf raw.toList
  String.ofList (enclose content (preferredQuote content single))

/-- The character that a backslash and a letter stand for. -/
def escapeValue (c : Char) : Char :=
  match c with
  | 'n' => '\n'
  | 't' => '\t'
  | 'r' => '\r'
  | 'b' => '\x08'
  | 'f' => '\x0c'
  | 'v' => '\x0b'
  | '0' => '\x00'
  | c => c

/-- The text with its simple escapes resolved; an escaped line end is dropped. -/
def cookChars : List Char → List Char
  | '\\' :: c :: rest => if c = '\n' then cookChars rest else escapeValue c :: cookChars rest
  | c :: rest => c :: cookChars rest
  | [] => []

/-- The value of a string literal. -/
def cook (raw : String) : String := String.ofList (cookChars (contentOf raw.toList))

end Reflow.Literal
