import Reflow.Stylesheet.Basic
import Reflow.Source.Fault

/-! # Reading stylesheets

A lenient reader: it looks for the ends of statements and blocks, and passes over strings, comments
and brackets on the way.  An interpolation on a line of its own is a statement. -/

namespace Reflow.Stylesheet

/-- A fault from one offset to another. -/
structure Fault where
  cause : GrammarFault
  start : Nat
  stop : Nat
  deriving Repr, DecidableEq

/-- What lies ahead, and its offset. -/
structure Ahead where
  offset : Nat
  rest : List Char
  deriving Repr, DecidableEq

/-- Passes over a number of characters. -/
def Ahead.drop (a : Ahead) (n : Nat) : Ahead := ⟨a.offset + n, a.rest.drop n⟩

/-- Is the text one interpolation and nothing else? -/
def isPlaceholder (text : List Char) : Bool :=
  match Text.dropLeading? placeholderStart text with
  | some rest =>
    let digits := rest.takeWhile Text.isDecimal
    !digits.isEmpty && rest.drop digits.length == placeholderEnd
  | none => false

/-- Where the reader of a prelude stands. -/
inductive PreludeMode where
  | plain
  /-- In a string that starts at an offset; `escaped` behind a backslash. -/
  | string (quote : Char) (start : Nat) (escaped : Bool)
  /-- Before the star that opens a comment. -/
  | commentOpen (start : Nat)
  /-- In a comment; `star` behind a star that may end it. -/
  | comment (start : Nat) (star : Bool)
  deriving Repr, DecidableEq

/-- The text of a statement up to the character that ends it; there is none at the end of the
source. -/
structure Prelude where
  text : List Char
  ending : Option Char
  ahead : Ahead

/-- Reads up to a semicolon or brace outside strings, comments and brackets, or to the end of a line
that holds an interpolation only.  `read` is what has been read, the last character first. -/
def readPrelude (depth : Nat) (mode : PreludeMode) (read : List Char) (offset : Nat) :
    List Char → Except Fault Prelude
  | [] =>
    match mode with
    | .plain => .ok ⟨read.reverse, none, ⟨offset, []⟩⟩
    | .string _ start escaped =>
      .error ⟨.unterminatedString, start, if escaped then offset + 1 else offset⟩
    | .commentOpen start | .comment start _ => .error ⟨.unterminatedComment, start, start + 2⟩
  | c :: rest =>
    let go (depth : Nat) (mode : PreludeMode) : Except Fault Prelude :=
      readPrelude depth mode (c :: read) (offset + 1) rest
    match mode with
    | .string quote start escaped =>
      if escaped then go depth (.string quote start false)
      else if c = '\\' then go depth (.string quote start true)
      else if c = quote then go depth .plain
      else if c = '\n' then .error ⟨.unterminatedString, start, offset + 1⟩
      else go depth (.string quote start false)
    | .commentOpen start => go depth (.comment start false)
    | .comment start star =>
      if star && c = '/' then go depth .plain else go depth (.comment start (c = '*'))
    | .plain =>
      if c = '"' || c = '\'' then go depth (.string c offset false)
      else if c = '/' && rest.head? = some '*' then go depth (.commentOpen offset)
      else if c = '(' || c = '[' then go (depth + 1) .plain
      else if c = ')' || c = ']' then go (depth - 1) .plain
      else if depth = 0 && (c = ';' || c = '{' || c = '}') then
        .ok ⟨read.reverse, some c, ⟨offset, c :: rest⟩⟩
      else if c = '\n' && isPlaceholder (Text.trimChars read.reverse) then
        .ok ⟨read.reverse, some c, ⟨offset, c :: rest⟩⟩
      else go depth .plain

/-- The name and the parameters of an at-rule. -/
def splitAtRule (text : List Char) : String × String :=
  let body := text.drop 1
  let name := body.takeWhile fun c => Text.isWordChar c || c == '-'
  if name.isEmpty then (String.ofList body, "")
  else (String.ofList name, String.ofList ((body.drop name.length).dropWhile Text.isSpace))

/-- Does a character stand for a letter, whatever its case?  The dotted and dotless i count as i. -/
def isLetterOf (letter c : Char) : Bool :=
  c == letter || c == letter.toUpper || (letter == 'i' && (c == 'İ' || c == 'ı'))

/-- Is the text the word `important`, whatever its case? -/
def isImportant (text : List Char) : Bool :=
  let word := "important".toList
  text.length == word.length && (word.zip text).all fun p => isLetterOf p.1 p.2

/-- A value without the mark of importance at its end, and whether it had one. -/
def splitImportant (value : List Char) : List Char × Bool :=
  let reversed := value.reverse
  let word := reversed.takeWhile (· != '!')
  let before := reversed.drop (word.length + 1)
  if value.contains '!' && isImportant (word.reverse.dropWhile Text.isSpace) then
    ((before.dropWhile Text.isSpace).reverse, true)
  else (value, false)

/-- The text before the first colon and the text behind it. -/
def splitColon? (text : List Char) : Option (List Char × List Char) :=
  let property := text.takeWhile (· != ':')
  if property.length < text.length then some (property, text.drop (property.length + 1)) else none

/-- Is the text the head of an at-rule? -/
def isAtRule (text : List Char) : Bool :=
  text.head? == some '@' && !Text.startsWith text placeholderStart

/-- A statement without a block, given its text. -/
def simpleStatement (start : Nat) (text : List Char) (semicolon blank : Bool) :
    Except Fault Statement :=
  if isPlaceholder text then .ok (.declaration (String.ofList text) none false semicolon blank)
  else if isAtRule text then
    let (name, params) := splitAtRule text
    .ok (.atRule name params none blank)
  else match splitColon? text with
    | none => .error ⟨.expectedColon, start, start + text.length⟩
    | some (property, value) =>
      let (value, important) := splitImportant value
      .ok (.declaration (Text.trim (String.ofList property)) (some (Text.trim (String.ofList value)))
        important true blank)

/-- A statement with a block, given its text. -/
def blockStatement (start : Nat) (text : List Char) (block : List Statement) (blank : Bool) :
    Except Fault Statement :=
  if isAtRule text then
    let (name, params) := splitAtRule text
    .ok (.atRule name params (some block) blank)
  else if text.isEmpty then .error ⟨.expectedSelector, start, start + 1⟩
  else .ok (.rule (String.ofList text) block blank)

/-- The length of a block comment from its opening mark on. -/
def blockCommentLength? : List Char → Option Nat
  | [] => none
  | '*' :: '/' :: _ => some 2
  | _ :: rest => (blockCommentLength? rest).map (· + 1)

/-- The statements up to the end of a block or of the source.  `opened` is the offset of the brace
that opened the block, and `read` what has been read, the last statement first.  Every call uses up
a character at least, so the length of the source is enough `fuel`. -/
def readStatements (fuel : Nat) (opened : Option Nat) (read : List Statement) (ahead : Ahead) :
    Except Fault (List Statement × Ahead) :=
  match fuel with
  | 0 => .error ⟨.exhausted, ahead.offset, ahead.offset⟩
  | fuel + 1 => do
    let space := ahead.rest.takeWhile Text.isSpace
    let blank := decide (1 < space.count '\n') && !read.isEmpty
    let ahead := ahead.drop space.length
    match ahead.rest with
    | [] =>
      match opened with
      | some brace => throw ⟨.unclosedBlock, brace, brace + 1⟩
      | none => return (read.reverse, ahead)
    | '}' :: _ =>
      if opened.isSome then return (read.reverse, ahead.drop 1)
      else throw ⟨.unexpectedClosingBrace, ahead.offset, ahead.offset + 1⟩
    | ';' :: _ => readStatements fuel opened read (ahead.drop 1)
    | '/' :: '*' :: body =>
      match blockCommentLength? body with
      | none => throw ⟨.unterminatedComment, ahead.offset, ahead.offset + 2⟩
      | some n =>
        let text := String.ofList (ahead.rest.take (n + 2))
        readStatements fuel opened (.comment text blank :: read) (ahead.drop (n + 2))
    | '/' :: '/' :: _ =>
      let line := ahead.rest.takeWhile (· != '\n')
      let text := String.ofList (Text.dropEndWhile Text.isSpace line)
      readStatements fuel opened (.comment text blank :: read) (ahead.drop line.length)
    | _ =>
      let start := ahead.offset
      let p ← readPrelude 0 .plain [] start ahead.rest
      let text := Text.trimChars p.text
      if p.ending = some '{' then
        let (block, after) ← readStatements fuel (some p.ahead.offset) [] (p.ahead.drop 1)
        let statement ← blockStatement start text block blank
        readStatements fuel opened (statement :: read) after
      else
        let semicolon := p.ending = some ';'
        let statement ← simpleStatement start text semicolon blank
        let after := if semicolon then p.ahead.drop 1 else p.ahead
        readStatements fuel opened (statement :: read) after

/-- The statements of a stylesheet, on a stack that holds as many calls as its blocks need. -/
def read (source : Source) : Except SourceFault (List Statement) :=
  match readStatements (source.size + 1) none [] ⟨0, source.chars⟩ with
  | .ok (statements, _) => .ok statements
  | .error f => .error (.grammar f.cause ⟨source.positionAt f.start, source.positionAt f.stop⟩)

/-- Reads on a stack that holds `stack` calls, of which each level of statements takes two: one for the
level and one for the statement that holds the next.  Where they do not suffice, the process breaks
off.  How deep a text is read that turns out to be faulty is left out. -/
def readOn (stack : Nat) (source : Source) : Option (Except SourceFault (List Statement)) :=
  match read source with
  | .ok statements => if 2 * depthOf statements ≤ stack then some (.ok statements) else none
  | .error fault => some (.error fault)

end Reflow.Stylesheet
