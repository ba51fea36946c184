import Reflow.Token.Scanner
import Reflow.Tree.Node

/-! # Parsing steps

The state of the parser and the steps that all of the grammar is made of.  The parser looks one token
ahead; it can go back to an earlier state, and a step that fails leaves the state where it failed. -/

namespace Reflow.Grammar

/-- The state of a parser. -/
structure State where
  scanner : Scanner
  /-- The token ahead. -/
  token : Token := default
  /-- The end of the last token that was taken. -/
  lastEnd : Position := {}
  /-- How deeply the rules that count are nested. -/
  depth : Nat := 0
  /-- The number of the next node. -/
  nextId : Nat := 0
  html : Bool := false
  /-- Did a loop go round or a rule call another one, which is not lower, without taking a token, or
  did either come to its bound?  Nothing depends on it, and coming back does not take it back. -/
  stalled : Bool := false
  /-- How often it was refused to go deeper.  Nothing depends on it, and coming back does not take it
  back. -/
  refused : Nat := 0
  /-- The most rules that called one another so far.  Nothing depends on it, and coming back does not
  take it back. -/
  deepest : Nat := 0

/-- A step of the parser. -/
abbrev Parse := ExceptT SourceFault (StateM State)

/-- The rules that refer to each other. -/
inductive Rule where
  | statement
  | expression
  | assignment
  | binary (least : Nat)
  | unary
  | callMember (allowCall : Bool)
  | bindingTarget
  /-- An element whose opening bracket was at `start`; the token behind it is read in mode `after`. -/
  | element (start : Position) (after : ScanMode)
  deriving Repr, DecidableEq

/-- How high a rule stands: one that takes no token before it calls another one calls a lower one. -/
def Rule.level : Rule → Nat
  | .statement => 5
  | .expression => 4
  | .assignment => 3
  | .binary _ => 2
  | .unary => 1
  | .callMember _ | .bindingTarget | .element .. => 0

/-- The most rules that may be nested. -/
def maxNesting : Nat := 100

/-- Runs a step of the scanner. -/
def scan {α : Type} (x : Scan α) : Parse α := fun s =>
  let (r, scanner) := x.run s.scanner
  (r, { s with scanner })

/-- The token ahead. -/
def ahead : Parse Token := return (← get).token

/-- Takes the token ahead and reads the next one in a mode. -/
def advance (mode : ScanMode) : Parse Token := do
  let token ← ahead
  modify fun s => { s with lastEnd := token.span.stop }
  let next ← scan (Scan.next mode)
  modify fun s => { s with token := next }
  return token

/-- Takes the token ahead in a script. -/
def take : Parse Token := advance .script

/-- Takes the token ahead in a script and forgets it. -/
def skip : Parse Unit := discard take

/-- Is the token one of the given names or punctuators? -/
def isOne (token : Token) (values : List String) : Bool :=
  (token.kind == .punctuator || token.kind == .name) && values.contains token.text

/-- Is the token ahead one of the given names or punctuators? -/
def isAt (values : List String) : Parse Bool := return isOne (← ahead) values

/-- The words that are no names. -/
def reserved : List String :=
  ["break", "case", "catch", "class", "const", "continue", "debugger", "default", "delete", "do",
   "else", "export", "extends", "finally", "for", "function", "if", "import", "in", "instanceof",
   "new", "return", "super", "switch", "this", "throw", "try", "typeof", "var", "void", "while",
   "with", "null", "true", "false"]

/-- Is the token a name that is not reserved? -/
def isName (token : Token) : Bool := token.kind == .name && !reserved.contains token.text

/-- Is the token ahead a name that is not reserved? -/
def isAtName : Parse Bool := return isName (← ahead)

/-- Is the token ahead of a kind? -/
def isAtKind (kind : TokenKind) : Parse Bool := return (← ahead).kind == kind

/-- Is the input at its end? -/
def isAtEnd : Parse Bool := isAtKind .endOfInput

/-- Fails at a span. -/
def fail {α : Type} (cause : GrammarFault) (span : Span) : Parse α := throw (.grammar cause span)

/-- Fails at the token ahead, whose text the fault tells. -/
def failAhead {α : Type} (cause : Option String → GrammarFault) : Parse α := do
  let token ← ahead
  fail (cause (if token.kind = .endOfInput then none else some token.text)) token.span

/-- Fails because something else was wanted than the token ahead. -/
def want {α : Type} (wanted : Wanted) : Parse α := failAhead (.expected wanted)

/-- Takes the token ahead if it is the given one. -/
def eat (value : String) : Parse Bool := do
  if ← isAt [value] then
    skip
    return true
  else return false

/-- Takes the token ahead, which has to be the given one. -/
def expect (value : String) : Parse Unit := do
  if ← isAt [value] then skip else want (.symbol value)

/-- Takes the token ahead, which has to be the given punctuator, and reads the next in a mode. -/
def expectPunctuator (value : String) (mode : ScanMode) : Parse Unit := do
  let token ← ahead
  if token.kind = .punctuator && token.text == value then discard (advance mode)
  else want (.symbol value)

/-- Where the token ahead starts. -/
def startAhead : Parse Position := return (← ahead).span.start

/-- Makes a node of a form with a span. -/
def nodeAt (span : Span) (form : Form Node) : Parse Node := do
  let s ← get
  set { s with nextId := s.nextId + 1 }
  return .mk s.nextId span form

/-- Makes a node of a form that reaches from a position to the last token taken. -/
def node (start : Position) (form : Form Node) : Parse Node := do
  nodeAt ⟨start, (← get).lastEnd⟩ form

/-- What is needed to come back: the scanner's position, the token ahead and the last end. -/
structure Snapshot where
  position : Position
  token : Token
  lastEnd : Position

/-- Where the parser stands. -/
def snapshot : Parse Snapshot := do
  let s ← get
  return ⟨s.scanner.position, s.token, s.lastEnd⟩

/-- Goes back; comments that were met since are forgotten. -/
def restore (back : Snapshot) : Parse Unit := modify fun s =>
  { s with scanner := s.scanner.seek back.position, token := back.token, lastEnd := back.lastEnd }

/-- Runs a step and tells how it ended. -/
def observe {α : Type} (p : Parse α) : Parse (Except SourceFault α) := fun s =>
  let (r, s) := p s
  (.ok r, s)

/-- Runs a step and comes back, whether it fails or not. -/
def lookAhead {α : Type} (p : Parse α) : Parse α := do
  let back ← snapshot
  let result ← observe p
  restore back
  match result with
  | .ok a => return a
  | .error fault => throw fault

/-- The token behind the one ahead, in a script. -/
def second : Parse Token := lookAhead do
  skip
  ahead

/-- The text of the token behind the one ahead, in a script. -/
def secondText : Parse String := return (← second).text

/-- Goes one level deeper, which may be too deep. -/
def enter : Parse Unit := do
  modify fun s => { s with depth := s.depth + 1 }
  let s ← get
  if maxNesting < s.depth then
    modify fun s => { s with refused := s.refused + 1 }
    fail .nestedTooDeeply s.token.span

/-- Runs a step, and then comes up one level, whether it failed or not. -/
def leaving {α : Type} (p : Parse α) : Parse α := fun s =>
  let (r, s) := p s
  (r, { s with depth := s.depth - 1 })

/-- Runs a step one level deeper. -/
def nested {α : Type} (p : Parse α) : Parse α := do
  enter
  leaving p

/-- Takes a semicolon, or lets it be left out before a brace, at the end and at a line end. -/
def semicolon : Parse Unit := do
  if !(← eat ";") then
    let token ← ahead
    if !(isOne token ["\x7d"] || token.kind == .endOfInput || token.newlineBefore) then
      want (.symbol ";")

/-- Notes that the parser does not get ahead, where that is so. -/
def note (stalls : State → Bool) : Parse Unit :=
  modify fun s => { s with stalled := s.stalled || stalls s }

/-- Enough depth for a source: between two characters there are fewer rules than this. -/
def fuelFor (source : Source) : Nat := 32 * (source.size + 4)

/-- Notes how deep rules are nested where they may be nested `fuel` deep from there on. -/
def noteDepth (fuel : Nat) : Parse Unit := modify fun s =>
  { s with deepest := max s.deepest (fuelFor s.scanner.source - fuel) }

/-- Where the last token that was taken ends. -/
def takenUpTo : Parse Nat := return (← get).lastEnd.offset

/-- Notes if no token was taken since the last one that was taken ended at `before`. -/
def onward (before : Nat) : Parse Unit := note fun s => s.lastEnd.offset ≤ before

/-- A bound on the rounds of a loop: each takes a character of the source at least. -/
def rounds : Parse Nat := return (← get).scanner.source.size + 2

/-- Fails because a loop or a rule came to its bound. -/
def exhausted {α : Type} : Parse α := do
  note fun _ => true
  fail .exhausted (← ahead).span

/-- Collects items while `more` holds, up to one that says it is the last. -/
def collectUpTo {α : Type} (more : Parse Bool) (item : Parse (α × Bool)) : Nat → Parse (List α)
  | 0 => exhausted
  | n + 1 => do
    let before ← takenUpTo
    if ← more then
      let (a, goOn) ← item
      onward before
      if goOn then return a :: (← collectUpTo more item n) else return [a]
    else return []

/-- Collects items while `more` holds, up to one that says it is the last. -/
def collect {α : Type} (more : Parse Bool) (item : Parse (α × Bool)) : Parse (List α) := do
  collectUpTo more item (← rounds)

/-- Items with commas between them and maybe one at the end, up to a closing token, which is not
taken. -/
def separated {α : Type} (close : String) (item : Parse α) : Parse (List α) :=
  collect (return !(← isAt [close])) do
    let a ← item
    return (a, ← eat ",")

/-- Extends a value as long as it can be. -/
def extendUpTo {α : Type} (step : α → Parse (Option α)) : Nat → α → Parse α
  | 0, _ => exhausted
  | n + 1, a => do
    let before ← takenUpTo
    match ← step a with
    | some b =>
      onward before
      extendUpTo step n b
    | none => return a

/-- Extends a value as long as it can be. -/
def extend {α : Type} (step : α → Parse (Option α)) (a : α) : Parse α := do
  extendUpTo step (← rounds) a

/-- A name that is not reserved. -/
def identifier : Parse Node := do
  if !(← isAtName) then want .identifier
  let start ← startAhead
  let token ← take
  node start (.identifier token.text)

/-- Any name, reserved or not. -/
def moduleName : Parse Node := do
  if !(← isAtKind .name) then want .name
  let start ← startAhead
  let token ← take
  node start (.identifier token.text)

/-- The name of a property. -/
def propertyName : Parse Node := do
  let start ← startAhead
  if ← isAtKind .name then
    let token ← take
    node start (.identifier token.text)
  else if ← isAtKind .privateName then
    let token ← take
    node start (.privateName (String.ofList (token.text.toList.drop 1)))
  else want .propertyName

end Reflow.Grammar
