import Reflow.Stylesheet.Basic
import Reflow.Doc.Basic
import Reflow.Text.Letters
import Reflow.Text.Trim

/-! # Printing stylesheets

One declaration a line, selectors one below the other, and at most one blank line kept between
statements. -/

namespace Reflow.Stylesheet

/-- Where the reader of a value stands: in a string or behind a space that is not yet written. -/
structure CollapseState where
  quote : Option Char := none
  pending : Bool := false

/-- Makes one space of every run of white space outside strings. -/
def collapseFrom (s : CollapseState) : List Char → List Char
  | [] => []
  | c :: rest =>
    match s.quote with
    | some q => c :: collapseFrom { s with quote := if c = q then none else some q } rest
    | none =>
      if Text.isSpace c then collapseFrom { s with pending := true } rest
      else
        let next := c :: collapseFrom { quote := if Text.isQuote c then some c else none } rest
        if s.pending then ' ' :: next else next

/-- Trims a text and makes one space of every run of white space outside strings. -/
def collapse (text : List Char) : List Char := collapseFrom {} (Text.trimChars text)

/-- Where the reader of a list stands: the depth of brackets and the string it is in. -/
structure SplitState where
  depth : Nat := 0
  quote : Option Char := none

/-- Does a character separate, outside strings and brackets? -/
def SplitState.separates (s : SplitState) (separator c : Char) : Bool :=
  s.quote.isNone && s.depth == 0 && c == separator

/-- Behind a character. -/
def SplitState.after (s : SplitState) (c : Char) : SplitState :=
  match s.quote with
  | some q => { s with quote := if c = q then none else some q }
  | none =>
    if Text.isQuote c then { s with quote := some c }
    else if c = '(' || c = '[' then { s with depth := s.depth + 1 }
    else if c = ')' || c = ']' then { s with depth := s.depth - 1 }
    else s

/-- The parts between separators outside strings and brackets. -/
def splitTopLevel (separator : Char) (s : SplitState) : List Char → List (List Char)
  | [] => [[]]
  | c :: rest =>
    if s.separates separator c then [] :: splitTopLevel separator s rest
    else match splitTopLevel separator (s.after c) rest with
      | [] => [[c]]
      | part :: parts => (c :: part) :: parts

/-- A value with a comma and a space between its parts. -/
def formatValueChars (value : List Char) : List Char :=
  [',', ' '].intercalate ((splitTopLevel ',' {} value).map collapse)

/-- A value with a comma and a space between its parts. -/
def formatValue (value : String) : String := String.ofList (formatValueChars value.toList)

/-- Does the character combine two selectors? -/
def isCombinator (c : Char) : Bool := c == '>' || c == '+' || c == '~'

/-- Puts one space on either side of every combinator.  `skipping` behind one. -/
def spaceCombinators (skipping : Bool) : List Char → List Char
  | [] => []
  | c :: rest =>
    if isCombinator c then ' ' :: c :: ' ' :: spaceCombinators true rest
    else if Text.isSpace c then
      if skipping || (rest.dropWhile Text.isSpace).head?.any isCombinator then
        spaceCombinators skipping rest
      else c :: spaceCombinators false rest
    else c :: spaceCombinators false rest

/-- One selector of a list; a selector with brackets keeps its spaces. -/
def formatOneSelector (selector : List Char) : List Char :=
  let part := collapse selector
  if part.contains '[' || part.contains '(' then part
  else Text.trimChars (spaceCombinators false part)

/-- The selectors of a list. -/
def formatSelector (selector : String) : List String :=
  (splitTopLevel ',' {} selector.toList).map fun part => String.ofList (formatOneSelector part)

/-- Is the property printed as it is written? -/
def keepsCase (property : List Char) : Bool :=
  Text.startsWith property ['-', '-'] || Text.startsWith property ['$']
    || Text.startsWith property placeholderStart

/-- A declaration.  The value of a custom property is printed as it is written. -/
def printDeclaration (property : String) (value : String) (important : Bool) : Doc :=
  let property := if keepsCase property.toList then property else Text.lower property
  let value :=
    if Text.startsWith property.toList ['-', '-'] then value else formatValue value
  .cat [.text property, ":", .text (if value == "" then "" else " " ++ value),
    .text (if important then " !important" else ""), ";"]

/-- The head of an at-rule. -/
def atRuleHead (name params : String) : String :=
  let params := if params == "" then "" else formatValue params
  "@" ++ Text.lower name ++ if params == "" then "" else " " ++ params

/-- What stands between two statements. -/
def separatorBefore (s : Statement) : List Doc :=
  if s.blankBefore then [.hardline, .hardline] else [.hardline]

/-- A block with the printed statements. -/
def printBlock (statements : List Doc) : Doc :=
  if statements.isEmpty then .cat ["\x7b", .hardline, "\x7d"]
  else .cat ["\x7b", .indent (.cat [.hardline, .cat statements]), .hardline, "\x7d"]

mutual
/-- A statement. -/
def Statement.print : Statement → Doc
  | .comment text _ => .text text
  | .declaration property none _ semicolon _ => .text (property ++ if semicolon then ";" else "")
  | .declaration property (some value) important _ _ => printDeclaration property value important
  | .atRule name params none _ => .text (atRuleHead name params ++ ";")
  | .atRule name params (some block) _ =>
    .cat [.text (atRuleHead name params), " ", printBlock (printFirst block)]
  | .rule selector block _ =>
    .cat [.join (.cat [",", .hardline]) ((formatSelector selector).map .text), " ",
      printBlock (printFirst block)]

/-- Statements at the start of a block. -/
def printFirst : List Statement → List Doc
  | [] => []
  | s :: rest => s.print :: printFollowing rest

/-- Statements that follow another. -/
def printFollowing : List Statement → List Doc
  | [] => []
  | s :: rest => separatorBefore s ++ s.print :: printFollowing rest
end

/-- A whole stylesheet; it ends with a line break.  The stack has to hold as many calls as the blocks
need. -/
def print (statements : List Statement) : Doc :=
  if statements.isEmpty then .text "" else .cat [.cat (printFirst statements), .hardline]

/-- Prints on a stack that holds `stack` calls, of which each level of statements takes three: one for
the level, one for the statement that holds the next, and one for its block.  Where they do not
suffice, the process breaks off. -/
def printOn (stack : Nat) (statements : List Statement) : Option Doc :=
  if 3 * depthOf statements ≤ stack then some (print statements) else none

end Reflow.Stylesheet
