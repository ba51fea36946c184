import Reflow.Grammar.Basic
import Reflow.Text.Letters

/-! # Markup

Elements, fragments, attributes and what stands between tags, in scripts and in HTML. -/

namespace Reflow.Grammar

/-- The mode inside tags. -/
def tagMode : Parse ScanMode := return if (← get).html then .htmlTag else .tag

/-- The mode between tags. -/
def childMode : Parse ScanMode := return if (← get).html then .htmlChild else .child

/-- The elements of HTML that have no content. -/
def voidElements : List String :=
  ["area", "base", "br", "col", "embed", "hr", "img", "input", "link", "meta", "param", "source",
   "track", "wbr"]

/-- The name of a tag as it is written. -/
def tagText (n : Node) : String :=
  match n with
  | .mk _ _ (.jsxIdentifier name) => name
  | .mk _ _ (.jsxNamespacedName space name) => tagText space ++ ":" ++ tagText name
  | .mk _ _ (.jsxMemberExpression object property) => tagText object ++ "." ++ tagText property
  | _ => ""

/-- An identifier inside a tag. -/
def markupIdentifier (wanted : Wanted) : Parse Node := do
  let start ← startAhead
  if !(← isAtKind .markupName) then want wanted
  let token ← advance (← tagMode)
  node start (.jsxIdentifier token.text)

/-- The name of a tag. -/
def tagName : Parse Node := do
  let start ← startAhead
  let name ← markupIdentifier .tagName
  if ← isAt [":"] then
    discard (advance (← tagMode))
    let inner ← markupIdentifier .name
    node start (.jsxNamespacedName name inner)
  else
    extend (fun object => do
      if ← isAt ["."] then
        discard (advance (← tagMode))
        let property ← markupIdentifier .name
        return some (← node start (.jsxMemberExpression object property))
      else return none) name

/-- An element or fragment from its opening bracket on. -/
def element (parse : Rule → Parse Node) (after : ScanMode) : Parse Node := do
  let start ← startAhead
  discard (advance (← tagMode))
  parse (.element start after)

/-- An expression in braces; it may be empty, and among children it may be spread. -/
def expressionContainer (parse : Rule → Parse Node) (after : ScanMode) (child : Bool) :
    Parse Node := do
  let start ← startAhead
  skip
  if ← isAt ["\x7d"] then
    let s ← get
    let empty ← nodeAt ⟨s.lastEnd, s.token.span.start⟩ .jsxEmptyExpression
    expectPunctuator "\x7d" after
    node start (.jsxExpressionContainer empty)
  else
    let spread ← if child then eat "..." else pure false
    let expression ← parse .expression
    expectPunctuator "\x7d" after
    node start (if spread then .jsxSpreadChild expression else .jsxExpressionContainer expression)

/-- The value of an attribute, from behind its equals sign on. -/
def attributeValue (parse : Rule → Parse Node) : Parse Node := do
  let html := (← get).html
  let mode ← tagMode
  discard (advance (if html then .htmlValue else mode))
  let start ← startAhead
  let token ← ahead
  if token.kind = .markupString then
    discard (advance (← tagMode))
    let content := (token.text.toList.drop 1).dropLast
    node start (.stringLiteral (String.ofList content) token.text)
  else if !html && isOne token ["\x7b"] then expressionContainer parse (← tagMode) false
  else if !html && isOne token ["<"] then element parse (← tagMode)
  else want .attributeValue

/-- An attribute of a tag. -/
def tagAttribute (parse : Rule → Parse Node) : Parse Node := do
  let start ← startAhead
  let html := (← get).html
  if !html && isOne (← ahead) ["\x7b"] then
    skip
    expect "..."
    let argument ← parse .assignment
    expectPunctuator "\x7d" (← tagMode)
    node start (.jsxSpreadAttribute argument)
  else
    let first ← markupIdentifier .attributeName
    let name ←
      if ← isAt [":"] then do
        discard (advance (← tagMode))
        let inner ← markupIdentifier .name
        node start (.jsxNamespacedName first inner)
      else pure first
    let value ← if ← isAt ["="] then some <$> attributeValue parse else pure none
    node start (.jsxAttribute name value)

/-- Something between tags; an element only at the top. -/
def child (parse : Rule → Parse Node) (mode : ScanMode) (topLevel : Bool) : Parse Node := do
  let start ← startAhead
  let token ← ahead
  if token.kind = .markupText then
    discard (advance mode)
    node start (.jsxText token.text)
  else if token.kind = .markupComment then
    discard (advance mode)
    node start (.htmlComment token.text)
  else if isOne token ["\x7b"] then expressionContainer parse mode true
  else if topLevel && isOne token ["<"] then element parse mode
  else failAhead .unexpectedInMarkup

/-- The children up to a closing tag, whose bracket is taken, and where that bracket starts. -/
def childrenUpTo (parse : Rule → Parse Node) (mode : ScanMode) : Nat → Parse (List Node × Position)
  | 0 => exhausted
  | n + 1 => do
    let before ← takenUpTo
    if ← isAtEnd then failAhead .unterminatedElement
    if ← isAt ["<"] then
      let start ← startAhead
      discard (advance (← tagMode))
      if ← isAt ["/"] then return ([], start)
      let element ← parse (.element start mode)
      onward before
      let (rest, close) ← childrenUpTo parse mode n
      return (element :: rest, close)
    else
      let first ← child parse mode false
      onward before
      let (rest, close) ← childrenUpTo parse mode n
      return (first :: rest, close)

/-- The children up to a closing tag, whose bracket is taken, and where that bracket starts. -/
def children (parse : Rule → Parse Node) : Parse (List Node × Position) := do
  childrenUpTo parse (← childMode) (← rounds)

/-- A fragment, from the bracket that ends its opening on. -/
def fragment (parse : Rule → Parse Node) (start : Position) (after : ScanMode) : Parse Node := do
  discard (advance (← childMode))
  let opening ← node start .jsxOpeningFragment
  let (children, close) ← children parse
  discard (advance (← tagMode))
  expectPunctuator ">" after
  let closing ← node close .jsxClosingFragment
  node start (.jsxFragment opening children closing)

/-- An element with a name, from that name on. -/
def namedElement (parse : Rule → Parse Node) (start : Position) (after : ScanMode) : Parse Node := do
  let name ← tagName
  let attributes ← collect (return !(← isAt [">", "/"])) do
    if ← isAtEnd then want (.symbol ">")
    return (← tagAttribute parse, true)
  let closed ← isAt ["/"]
  if closed then discard (advance (← tagMode))
  let text := tagText name
  let isVoid := (← get).html && voidElements.contains (Text.lower text)
  let selfClosing := closed || isVoid
  let inside ← childMode
  expectPunctuator ">" (if selfClosing then after else inside)
  let opening ← node start (.jsxOpeningElement name attributes selfClosing)
  if selfClosing then node start (.jsxElement opening [] none)
  else
    let (children, close) ← children parse
    discard (advance (← tagMode))
    let closingName ← tagName
    if tagText closingName != text then fail (.mismatchedClosingTag text) closingName.span
    expectPunctuator ">" after
    let closing ← node close (.jsxClosingElement closingName)
    node start (.jsxElement opening children (some closing))

/-- An element or fragment, from behind its opening bracket on. -/
def elementBody (parse : Rule → Parse Node) (start : Position) (after : ScanMode) : Parse Node :=
  nested do
    if ← isAt [">"] then fragment parse start after else namedElement parse start after

end Reflow.Grammar
