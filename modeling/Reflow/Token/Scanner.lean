import Reflow.Token.Measure

/-! # The scanner

Tokens on demand.  What the characters mean depends on where they stand, so every token is asked for
in a mode.  Comments met between tokens are kept; going back to an earlier position forgets those
that start there or later. -/

namespace Reflow

/-- What the next token is expected to be part of. -/
inductive ScanMode where
  | script
  | tag
  | child
  | htmlTag
  | htmlValue
  | htmlChild
  deriving Repr, DecidableEq

/-- A source, a position in it and the comments met so far, the last one first. -/
structure Scanner where
  source : Source
  position : Position := {}
  comments : List Comment := []
  deriving Repr, DecidableEq, Inhabited

/-- A step of the scanner.  A step that fails leaves the scanner where it was then. -/
abbrev Scan := ExceptT SourceFault (StateM Scanner)

namespace Scanner

/-- The scanner at the start of a source. -/
def start (source : Source) : Scanner := { source }

/-- The characters that lie ahead. -/
def rest (s : Scanner) : List Char := s.source.suffix s.position.offset

/-- Moves to a position and forgets the comments that start there or later. -/
def seek (s : Scanner) (position : Position) : Scanner :=
  { s with position, comments := s.comments.dropWhile fun c => position.offset ≤ c.start }

/-- Moves ahead by a number of characters, at most to the end. -/
def advance (s : Scanner) (n : Nat) : Scanner :=
  { s with position := s.position.over (s.rest.take n) }

/-- Keeps a comment that ends here, unless one that starts there or later is known. -/
def record (s : Scanner) (kind : CommentKind) (value : List Char) (start : Position) : Scanner :=
  let comment : Comment := ⟨kind, String.ofList value, ⟨start, s.position⟩⟩
  match s.comments with
  | last :: _ => if start.offset ≤ last.start then s else { s with comments := comment :: s.comments }
  | [] => { s with comments := [comment] }

end Scanner

namespace Scan

/-- Fails at a position. -/
def fault {α : Type} (cause : ScanFault) (position : Position) : Scan α :=
  throw (.scan cause position)

/-- Moves ahead. -/
def advance (n : Nat) : Scan Unit := modify (·.advance n)

/-- Passes over pieces between tokens; tells whether the line ended on the way. -/
def skipPieces : Bool → List Trivia → Scan Bool
  | newline, [] => pure newline
  | newline, .space c :: rest => do
    advance 1
    skipPieces (newline || isLineTerminator c) rest
  | newline, .lineComment value :: rest => do
    let start := (← get).position
    advance (2 + value.length)
    modify (·.record .line value start)
    skipPieces newline rest
  | newline, .blockComment value :: rest => do
    let start := (← get).position
    advance (value.length + 4)
    modify (·.record .block value start)
    skipPieces (newline || value.contains '\n') rest
  | _, .unterminated :: _ => do fault .unterminatedBlockComment (← get).position

/-- Passes over white space and comments; tells whether the line ended on the way. -/
def skipTrivia : Scan Bool := do skipPieces false (triviaOf (← get).rest)

/-- Passes over white space. -/
def skipSpace : Scan Unit := do
  advance ((← get).rest.takeWhile isTokenSpace).length

/-- Takes a token of a length. -/
def take (kind : TokenKind) (length : Nat) (newline : Bool) : Scan Token := do
  let s ← get
  advance length
  return ⟨kind, String.ofList (s.rest.take length), ⟨s.position, (← get).position⟩, newline⟩

/-- Takes a token that reaches to its end, or fails where it is broken; the fault is reported at
`position` if one is given. -/
def takeReach (kind : TokenKind) (reach : Reach) (newline : Bool) (position : Option Position) :
    Scan Token := do
  match reach with
  | .closed length => take kind length newline
  | .broken length cause =>
    advance length
    fault cause (position.getD (← get).position)

/-- The token of a script that starts here, with what is known of the line end before it. -/
def scriptToken (newline : Bool) : Scan Token := do
  let s ← get
  match s.rest with
  | [] => take .endOfInput 0 newline
  | c :: rest =>
    if c.toNat = 0 then fault .nulCharacter s.position
    else if isNameStart c then take .name ((c :: rest).takeWhile isNamePart).length newline
    else if Text.isDigit c || (c = '.' && startsWithDigit rest) then
      takeReach .number (numberReach (c :: rest)) newline none
    else if c = '\'' || c = '"' then
      takeReach .string ((stringReach c rest).shift 1) newline (some s.position)
    else if c = templateQuote then take .punctuator 1 newline
    else if c = '#' && rest.head?.any isNameStart then
      take .privateName (1 + (rest.takeWhile isNamePart).length) newline
    else match punctuator? (c :: rest) with
      | some p => take .punctuator p.length newline
      | none => fault (.unexpectedCharacter c) s.position

/-- The next token of a script. -/
def nextScript : Scan Token := do scriptToken (← skipTrivia)

/-- An attribute value in quotes, from its opening quote on. -/
def nextQuoted (quote : Char) : Scan Token := do
  let s ← get
  match indexOf? [quote] (s.rest.drop 1) with
  | some n => take .markupString (n + 2) false
  | none =>
    advance 1
    fault .unterminatedAttribute s.position

/-- A loop that goes round for ever: it comes to any bound on its steps. -/
def endless {α : Type} (position : Position) : Scan α :=
  throw (.grammar .exhausted ⟨position, position⟩)

/-- The next token inside a tag.  In HTML, a name that goes on to the end of the input is never
read: the end is taken for one more character of it, and to pass over the end is not to move. -/
def nextTag (html : Bool) : Scan Token := do
  if html then skipSpace else discard skipTrivia
  let s ← get
  match s.rest with
  | [] => take .endOfInput 0 false
  | c :: rest =>
    if isNameStart c then
      let part (c : Char) : Bool := isMarkupNamePart c || (html && (c == ':' || c == '.'))
      if html && rest.all part then endless s.position
      else take .markupName ((c :: rest).takeWhile part).length false
    else if c = '\'' || c = '"' then nextQuoted c
    else if ['<', '>', '/', '=', '{', '}', ':', '.'].contains c then take .punctuator 1 false
    else fault (.unexpectedInTag c) s.position

/-- The next attribute value in HTML.  A bare value is put in quotes that it does not hold.  At the
end of the input the value is empty, and behind the end there is none. -/
def nextHtmlValue : Scan Token := do
  skipSpace
  let s ← get
  match s.rest with
  | [] =>
    if s.source.size < s.position.offset then fault .unterminatedAttribute s.position
    else take .markupString 0 false
  | c :: rest =>
    if c = '\'' || c = '"' then nextQuoted c
    else
      let length := bareValueLength (c :: rest)
      if length = 0 then fault .expectedAttributeValue s.position
      else
        let token ← take .markupString length false
        let quote := if token.text.toList.contains '"' then "'" else "\""
        return { token with text := quote ++ token.text ++ quote }

/-- A markup comment or, in HTML, a declaration, up to a text that ends it. -/
def nextMarkupComment (ending : List Char) : Scan Token := do
  let s ← get
  match indexOf? ending s.rest with
  | some n => take .markupComment (n + ending.length) false
  | none => fault .unterminatedMarkupComment s.position

/-- The next token between tags. -/
def nextChild (html : Bool) : Scan Token := do
  let s ← get
  match s.rest with
  | [] => take .endOfInput 0 false
  | c :: rest =>
    if Text.startsWith (c :: rest) ['<', '!', '-', '-'] then nextMarkupComment ['-', '-', '>']
    else if html && Text.startsWith (c :: rest) ['<', '!'] then nextMarkupComment ['>']
    else if c = '<' || (c = '{' && !html) then take .punctuator 1 false
    else takeReach .markupText (textReach html (c :: rest)) false none

/-- The next token in a mode. -/
def next (mode : ScanMode) : Scan Token :=
  match mode with
  | .script => nextScript
  | .tag => nextTag false
  | .child => nextChild false
  | .htmlTag => nextTag true
  | .htmlValue => nextHtmlValue
  | .htmlChild => nextChild true

/-- A piece of template text: its raw text, whether it ends the template, and its place. -/
structure TemplateChunk where
  raw : String
  tail : Bool
  span : Span
  deriving Repr, DecidableEq

/-- Takes template text of a length and passes over what ends it. -/
def takeChunk (length : Nat) (tail : Bool) : Scan TemplateChunk := do
  let s ← get
  advance length
  let stop := (← get).position
  advance (if tail then 1 else 2)
  return ⟨String.ofList (s.rest.take length), tail, ⟨s.position, stop⟩⟩

/-- The next piece of template text; what ends it is passed over. -/
def templateChunk : Scan TemplateChunk := do
  let s ← get
  match templateReach s.rest with
  | .tail length => takeChunk length true
  | .hole length => takeChunk length false
  | .broken length =>
    advance length
    fault .unterminatedTemplate s.position

end Scan

end Reflow
