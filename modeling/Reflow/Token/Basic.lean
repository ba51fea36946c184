import Reflow.Source.Position
import Reflow.Text.CharClass

/-! # Tokens and comments

The pieces that the scanner cuts a source into, and the characters they are made of. -/

namespace Reflow

/-- The kinds of tokens. -/
inductive TokenKind where
  /-- An identifier or a keyword. -/
  | name
  | number
  /-- A quoted string with its quotes. -/
  | string
  | punctuator
  /-- A name after a number sign. -/
  | privateName
  /-- The name of a tag or attribute. -/
  | markupName
  /-- An attribute value with its quotes. -/
  | markupString
  /-- Text between tags. -/
  | markupText
  | markupComment
  | endOfInput
  deriving Repr, DecidableEq, Inhabited

/-- A token, and whether the line ended between the token before it and this one. -/
structure Token where
  kind : TokenKind
  text : String
  span : Span
  newlineBefore : Bool := false
  deriving Repr, DecidableEq, Inhabited

/-- The kinds of comments. -/
inductive CommentKind where
  | line
  | block
  deriving Repr, DecidableEq, Inhabited

/-- A comment; its value is without the delimiters. -/
structure Comment where
  kind : CommentKind
  value : String
  span : Span
  deriving Repr, DecidableEq, Inhabited

namespace Comment

/-- Offset of the first character. -/
def start (c : Comment) : Nat := c.span.start.offset

/-- Offset behind the last character. -/
def stop (c : Comment) : Nat := c.span.stop.offset

/-- Is it delimited on both sides? -/
def isBlock (c : Comment) : Bool := c.kind == .block

/-- The comment with its delimiters. -/
def text (c : Comment) : String :=
  match c.kind with
  | .line => "//" ++ c.value
  | .block => "/*" ++ c.value ++ "*/"

end Comment

/-- Can the character start a name? -/
def isNameStart (c : Char) : Bool := Text.isLetter c || c == '_' || c == '$'

/-- Can the character continue a name? -/
def isNamePart (c : Char) : Bool := Text.isAlphanumeric c || c == '_' || c == '$'

/-- Can the character continue the name of a tag or attribute? -/
def isMarkupNamePart (c : Char) : Bool := isNamePart c || c == '-'

/-- White space between tokens. -/
def isTokenSpace (c : Char) : Bool :=
  [' ', '\t', '\n', '\r', '\x0b', '\x0c', '\u00a0', '\ufeff', '\u2028', '\u2029'].contains c

/-- The characters that end a line between tokens. -/
def isLineTerminator (c : Char) : Bool := ['\n', '\r', '\u2028', '\u2029'].contains c

/-- The character that encloses a template. -/
def templateQuote : Char := Char.ofNat 0x60

end Reflow
