import Reflow.Source.Position
import Reflow.Text.Lines
import Reflow.Text.Quoted
import Reflow.Text.Trim

/-! # Faults in a source

What can be wrong with a source, where, and how it is told to the user. -/

namespace Reflow

/-- Why the scanner gave up. -/
inductive ScanFault where
  | unterminatedBlockComment
  | nulCharacter
  | unexpectedCharacter (c : Char)
  | nameAfterNumber
  | unterminatedString
  | newlineInString
  | unterminatedTemplate
  | unexpectedInTag (c : Char)
  | unterminatedAttribute
  | expectedAttributeValue
  | unterminatedMarkupComment
  | unexpectedInText (c : Char)
  deriving Repr, DecidableEq

/-- The wording of a scanner fault. -/
def ScanFault.message : ScanFault → String
  | .unterminatedBlockComment => "unterminated block comment"
  | .nulCharacter => "NUL character in source"
  | .unexpectedCharacter c => "unexpected character " ++ Text.quoted c.toString
  | .nameAfterNumber => "identifier directly after number"
  | .unterminatedString => "unterminated string literal"
  | .newlineInString => "newline in string literal"
  | .unterminatedTemplate => "unterminated template literal"
  | .unexpectedInTag c => "unexpected character " ++ Text.quoted c.toString ++ " in tag"
  | .unterminatedAttribute => "unterminated attribute string"
  | .expectedAttributeValue => "expected attribute value"
  | .unterminatedMarkupComment => "unterminated markup comment"
  | .unexpectedInText c => "unexpected " ++ Text.quoted c.toString ++ " in markup text"

/-- What a parser wanted instead of the token it met. -/
inductive Wanted where
  | symbol (s : String)
  | classAfterDecorators
  | functionName
  | bindingName
  | className
  | name
  | string
  | arrowParameters
  | propertyName
  | identifier
  | expression
  | templateLiteral
  | templateBrace
  | tagName
  | attributeName
  | attributeValue
  deriving Repr, DecidableEq

/-- The wording of what was wanted. -/
def Wanted.message : Wanted → String
  | .symbol s => "expected " ++ Text.quoted s
  | .classAfterDecorators => "expected class after decorators"
  | .functionName => "expected function name"
  | .bindingName => "expected binding name"
  | .className => "expected class name"
  | .name => "expected name"
  | .string => "expected string"
  | .arrowParameters => "expected arrow parameters"
  | .propertyName => "expected property name"
  | .identifier => "expected identifier"
  | .expression => "expected expression"
  | .templateLiteral => "expected template literal"
  | .templateBrace => "expected '\x7d' in template literal"
  | .tagName => "expected tag name"
  | .attributeName => "expected attribute name"
  | .attributeValue => "expected attribute value"

/-- Why a parser gave up. -/
inductive GrammarFault where
  /-- Something else was wanted; `found` is the text of the token, `none` at the end of the input. -/
  | expected (wanted : Wanted) (found : Option String)
  | unterminatedElement (found : Option String)
  | unexpectedInMarkup (found : Option String)
  | unsupportedStatement (word : String)
  | nestedTooDeeply
  | invalidAssignmentTarget
  | regularExpression
  | mismatchedClosingTag (name : String)
  | unclosedBlock
  | unexpectedClosingBrace
  | unterminatedComment
  | unterminatedString
  | expectedSelector
  | expectedColon
  /-- The bound on the number of steps was reached.  No user is told so: a loop that reaches it goes
  round for ever. -/
  | exhausted
  deriving Repr, DecidableEq

/-- The wording of the token that was found. -/
def foundText : Option String → String
  | some s => ", found " ++ Text.quoted s
  | none => ", found end of input"

/-- The wording of a parser fault. -/
def GrammarFault.message : GrammarFault → String
  | .expected wanted found => wanted.message ++ foundText found
  | .unterminatedElement found => "unterminated element" ++ foundText found
  | .unexpectedInMarkup found => "unexpected token in markup" ++ foundText found
  | .unsupportedStatement word => "unsupported syntax: '" ++ word ++ "' statement"
  | .nestedTooDeeply => "input nested too deeply"
  | .invalidAssignmentTarget => "invalid assignment target"
  | .regularExpression => "regular expression literals are not supported"
  | .mismatchedClosingTag name => "expected corresponding closing tag for <" ++ name ++ ">"
  | .unclosedBlock => "unclosed block"
  | .unexpectedClosingBrace => "unexpected '\x7d'"
  | .unterminatedComment => "unterminated comment"
  | .unterminatedString => "unterminated string"
  | .expectedSelector => "expected a selector"
  | .expectedColon => "expected ':' in declaration"
  | .exhausted => "input too long"

/-- A fault in a source. -/
inductive SourceFault where
  | scan (cause : ScanFault) (position : Position)
  | grammar (cause : GrammarFault) (span : Span)
  deriving Repr, DecidableEq

/-- The wording of a fault. -/
def SourceFault.message : SourceFault → String
  | .scan cause _ => cause.message
  | .grammar cause _ => cause.message

/-- The place of a fault. -/
def SourceFault.span : SourceFault → Span
  | .scan _ position => ⟨position, position⟩
  | .grammar _ span => span

/-- The line of a source that a message shows: the editor's line of that number, without line feeds
and then carriage returns at its end. -/
def shownLine (source : Source) : Nat → List Char
  | 0 => []
  | line + 1 =>
    match (Text.editorLines source.chars)[line]? with
    | some l => Text.dropEndWhile (· == '\r') (Text.dropEndWhile (· == '\n') l)
    | none => []

/-- A message with the line that it is about, and carets under the place: under the whole of it if
it is on one line, and to the end of the line otherwise. -/
def snippet (message : String) (span : Span) (source : Source) (fileName : String) : String :=
  let column := span.start.column
  let line := shownLine source span.start.line
  let carets : Int :=
    if span.stop.line = span.start.line then (span.stop.column : Int) - column
    else (line.length : Int) - column + 1
  let number := toString span.start.line
  let margin := Text.repeated (number.length + 1) " "
  "error: " ++ message ++ "\n"
    ++ margin ++ "--> " ++ fileName ++ ":" ++ number ++ ":" ++ toString column ++ "\n"
    ++ margin ++ "|\n"
    ++ number ++ " | " ++ String.ofList line ++ "\n"
    ++ margin ++ "| " ++ Text.repeated (column - 1) " " ++ Text.repeated (max 1 carets).toNat "^"

/-- The message of a fault with the line that it is about. -/
def SourceFault.describe (fault : SourceFault) (source : Source) (fileName : String) : String :=
  snippet fault.message fault.span source fileName

end Reflow
