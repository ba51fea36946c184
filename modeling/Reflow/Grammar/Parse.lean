import Reflow.Grammar.Statement

/-! # Parsing whole sources

The rules are tied together over a bound on how deep they call each other; the bound grows with the
source, so that it is never reached.  A finished tree must not be deeper than `maxTreeDepth`. -/

namespace Reflow.Grammar

/-- One rule, given a parser of the rules that it refers to. -/
def rule (parse : Rule → Parse Node) : Rule → Parse Node
  | .statement => statement parse
  | .expression => expression parse
  | .assignment => assignment parse
  | .binary least => binary parse least
  | .unary => unary parse
  | .callMember allowCall => callMember parse allowCall
  | .bindingTarget => bindingTarget parse
  | .element start after => elementBody parse start after

/-- Parses by a rule that another one calls.  Notes if the called one is not lower and no token was
taken since the last one that was taken ended at `before`. -/
def called (parse : Rule → Parse Node) (caller : Rule) (before : Nat) (r : Rule) : Parse Node := do
  note fun s => caller.level ≤ r.level && s.lastEnd.offset ≤ before
  parse r

/-- Parses by a rule, with rules nested at most `fuel` deep. -/
def parseRule : Nat → Rule → Parse Node
  | 0, _ => exhausted
  | fuel + 1, r => do
    let before ← takenUpTo
    noteDepth fuel
    rule (called (parseRule fuel) r before) r

/-- The greatest depth of a tree. -/
def maxTreeDepth : Nat := 200

/-- The first node that lies below a depth, the last children looked at first. -/
def firstBelow : Nat → Node → Option Node
  | 0, n => some n
  | depth + 1, n => n.children.reverse.findSome? (firstBelow depth)

/-- A tree and the comments of its source in order. -/
structure Parsed where
  root : Node
  comments : List Comment
  source : Source

/-- The nodes of a whole source, up to its end. -/
def contents (html : Bool) (parse : Rule → Parse Node) : Parse (List Node) :=
  collect (return !(← isAtEnd)) do
    let n ← if html then child parse .htmlChild true else parse .statement
    return (n, true)

/-- Parses a whole source as a script, or as HTML. -/
def root (html : Bool) : Parse Node := do
  let first ← scan (Scan.next (if html then .htmlChild else .script))
  modify fun s => { s with token := first }
  let nodes ← contents html (parseRule (fuelFor (← get).scanner.source))
  let span : Span := ⟨{}, (← get).scanner.position⟩
  let root ← nodeAt span (if html then .markupRoot nodes else .program nodes)
  match firstBelow maxTreeDepth root with
  | some deep => fail .nestedTooDeeply deep.span
  | none => return root

/-- The tree of a source and its comments, on a stack that holds as many calls as the source needs.  How
many it holds is up to the process: see `parseOn`.  The fault of a loop that goes round for ever is
`exhausted`. -/
def parse (source : Source) (html : Bool) : Except SourceFault Parsed :=
  let (result, s) := root html { scanner := .start source, html }
  result.map fun root => { root, comments := s.scanner.comments.reverse, source }

/-- How many rules call one another at most while a source is parsed.  `maxNesting` does not bound it:
what follows `await`, `new`, a prefix `++` or a power is parsed one call deeper, but not counted as
nested. -/
def callsOf (source : Source) (html : Bool) : Nat :=
  (root html { scanner := .start source, html }).2.deepest

/-- Parses a source on a stack that holds `stack` rules that call one another.  There is no outcome if
there are more of them, when the process breaks off, nor if a loop goes round for ever. -/
def parseOn (stack : Nat) (source : Source) (html : Bool) : Option (Except SourceFault Parsed) :=
  if callsOf source html ≤ stack then
    match parse source html with
    | .error (.grammar .exhausted _) => none
    | outcome => some outcome
  else none

end Reflow.Grammar
