import Reflow.Literal.Attribute
import Reflow.Print.Children
import Reflow.Print.Comments
import Reflow.Tree.Kind

/-! # Markup

Elements, fragments, attributes and expressions in braces. -/

namespace Reflow

namespace Node

/-- The text of a node between tags. -/
def markupText? (n : Node) : Option String :=
  match n.form with
  | .jsxText raw => some raw
  | _ => none

/-- Is it text between tags that does not show? -/
def isHiddenText (n : Node) : Bool := n.markupText?.any fun raw => !isMeaningfulText raw.toList

/-- Is it an expression in braces? -/
def isContainer (n : Node) : Bool := n.form matches .jsxExpressionContainer _

/-- Is it a space written as an expression? -/
def isSpaceExpression (a : Attachments) (n : Node) : Bool :=
  match n.form with
  | .jsxExpressionContainer e =>
    match e.form with
    | .stringLiteral value _ => value == " " && !a.has e
    | _ => false
  | _ => false

/-- Is it an element without a closing tag? -/
def isUnclosedElement (n : Node) : Bool := n.form matches .jsxElement _ _ none

/-- The children of an element or fragment. -/
def markupChildren (n : Node) : List Node :=
  match n.form with
  | .jsxElement _ children _ | .jsxFragment _ children _ => children
  | _ => []

/-- Does it hold a comment that asks to leave the next sibling as it is? -/
def asksToIgnoreNext (a : Attachments) (n : Node) : Bool :=
  match n.form with
  | .jsxExpressionContainer e =>
    (e.form matches .jsxEmptyExpression) && (a.of e).any (·.comment.isIgnoreDirective)
  | _ => false

/-- Is it an attribute with a text as its value?  Gives that text. -/
def attributeText? (n : Node) : Option String :=
  match n.form with
  | .jsxAttribute _ (some (.mk _ _ (.stringLiteral value _))) => some value
  | _ => none

/-- Is it the name of the element whose text is translated? -/
def isTranslationName (n : Node) : Bool := n.form matches .jsxIdentifier "fbt"

end Node

/-- Does the sibling before the element at a path ask to leave it as it is? -/
def Path.isIgnoredBySibling (a : Attachments) (p : Path) : Bool :=
  match p.parent?, p.index? with
  | some parent, some i =>
    p.node.isMarkup && parent.isMarkup
      && ((parent.markupChildren.take i).reverse.find? fun n => !n.isHiddenText).any
        (·.asksToIgnoreNext a)
  | _, _ => false

/-- Is the element at a path the wrapper of a fragment? -/
def Path.isFragmentTop (fragment : Bool) (p : Path) : Bool :=
  fragment && (p.parentForm? matches some (.expressionStatement _))
    && p.grandparentForm? matches some (.program _)

/-- Does markup below the path's parent go without parentheses? -/
def Path.keepsMarkupBare (p : Path) : Bool :=
  match p.parentForm? with
  | none | some (.arrayExpression _) | some (.jsxAttribute ..) | some (.jsxElement ..)
  | some (.jsxExpressionContainer _) | some (.jsxFragment ..) | some (.expressionStatement _)
  | some (.callExpression ..) | some (.conditionalExpression ..) | some (.markupRoot _) => true
  | _ => false

/-- Is the path's node what a function returns that is called in braces? -/
def Path.isReturnedInBraces (p : Path) : Bool :=
  let parents : List (Form Node) := p.above.map fun step => step.node.form
  parents matches .arrowFunction .. :: .callExpression .. :: .jsxExpressionContainer _ :: _

namespace Print

/-! ## Attributes and tags -/

/-- Prints an attribute. -/
def tagAttribute (print : PrintNode) (p : Path) (name : Node) (value : Option Node) : Print Doc := do
  let printedName ← child print p .name name
  match value with
  | none => return .cat [printedName]
  | some v =>
    let printed ← match v.form with
      | .stringLiteral _ raw =>
        pure (Doc.text (Literal.printAttribute raw (← options).jsxSingleQuote))
      | _ => child print p .value v
    return .cat [printedName, "=", printed]

/-- Prints something spread in braces. -/
def spread (print : PrintNode) (p : Path) (slot : Slot) (n : Node) : Print Doc := do
  let printed : Doc := .cat ["...", ← child print p slot n]
  let inner ← if ← hasComments n then pure (Doc.softBlock (← withComments n printed))
    else pure printed
  return .cat ["\x7b", inner, "\x7d"]

/-- Does an expression in braces start right behind the opening one? -/
def hugsBraces (p : Path) (commented : Bool) (expression : Node) : Bool :=
  let inAttribute := p.parentForm? matches some (.jsxAttribute ..)
  let amongChildren := p.parentForm? matches some (.jsxElement ..) | some (.jsxFragment ..)
    | some (.markupRoot _)
  !(inAttribute && commented)
    && (expression.isCollection || expression.isFunctionOrArrow || expression.isCall
      || expression.isTemplate || (expression.form matches .jsxEmptyExpression)
      || (amongChildren && (expression.isConditional || expression.isBinary)))

/-- Prints an expression in braces. -/
def container (print : PrintNode) (p : Path) (expression : Node) : Print Doc := do
  let hugs := hugsBraces p (← hasComments expression) expression
  let printed ← child print p .expression expression
  return .grouped (.cat ["\x7b", if hugs then printed else .softBlock printed, .suffixBoundary,
    "\x7d"])

/-- Prints the braces' content where there is no expression. -/
def emptyExpression (p : Path) : Print Doc := do
  let broken := ((← attachments).of p.node).any fun x => !x.comment.isBlock
  let comments ← if broken then indentedDangling p.node else dangling p.node
  return .cat [comments, .when broken .hardline]

/-- Prints an opening tag. -/
def openingElement (print : PrintNode) (p : Path) (name : Node) (attributes : List Node)
    (selfClosing : Bool) : Print Doc := do
  let a ← attachments
  let commented := a.has name
  let printedName ← child print p .name name
  if selfClosing && attributes.isEmpty && !commented then
    return .cat ["<", printedName, " />"]
  let spansLines (n : Node) : Bool := n.attributeText?.any (·.contains '\n')
  let soleText := match attributes with
    | [only] => only.attributeText?.isSome && !spansLines only && !commented && !a.has only
    | _ => false
  let printed ← items print p .attributes attributes
  if soleText then
    return .grouped (.cat ["<", printedName, " ", .cat printed, if selfClosing then " />" else ">"])
  let sameLine := (attributes.isEmpty && !commented)
    || ((← options).jsxBracketSameLine && (!commented || !attributes.isEmpty)
      && !attributes.getLast?.any a.hasTrailing)
  let closing : Doc :=
    if selfClosing then .cat [.space, "/>"]
    else if sameLine then ">"
    else .cat [.softline, ">"]
  let lines : List Doc := printed.map fun d => .cat [.space, d]
  return .group (.cat ["<", printedName, .indent (.cat lines), closing])
    (attributes.any spansLines)

/-- Prints the opening or closing tag of a fragment. -/
def fragmentEdge (p : Path) (opening : Bool) : Print Doc := do
  let comments := (← attachments).of p.node
  let ownLine := comments.any fun x => !x.comment.isBlock
  let lead : Doc :=
    if ownLine then .hardline else .when (!comments.isEmpty && !opening) " "
  return .cat [if opening then "<" else "</", .indent (.cat [lead, ← dangling p.node]),
    .when ownLine .hardline, ">"]

/-! ## Elements -/

/-- White space next to a tag. -/
def whitespace (options : Options) : Children.Whitespace :=
  if options.parser == .html then { doc := .space, raw := " " }
  else
    let raw := if options.singleQuote then "\x7b' '\x7d" else "\x7b\" \"\x7d"
    { doc := .ifBreak (.cat [.text raw, .softline]) " ", raw }

/-- Prints the children that are not text. -/
def markupItems (print : PrintNode) (p : Path) (children : List Node) : Print (List MarkupChild) := do
  let a ← attachments
  (p.items .children children).mapM fun q => do
    match q.node.markupText? with
    | some raw => return .text raw.toList
    | none =>
      if (p.node.form matches .markupRoot _) || !q.node.isSpaceExpression a then
        return .item (← print q {}) q.node.isUnclosedElement
      return .text [' ']

/-- The contents of an element: its parts, and their document when the element is broken. -/
def packed (options : Options) (translated : Bool) (children : List MarkupChild) :
    List ChildPart × Doc :=
  let w := whitespace options
  let hasText := children.any (·.isMeaningful)
  let parts := Children.trim w.doc (Children.clean hasText (Children.pack translated children))
  let docs := Children.broken w parts
  (parts, if hasText then .fill docs else .group (.cat docs) true)

/-- Prints the contents of an element or fragment between its tags. -/
def betweenTags (print : PrintNode) (p : Path) (children : List Node) (opening closing : Doc)
    (attributes : Nat) (translated : Bool) : Print Doc := do
  let options ← options
  let a ← attachments
  let items ← markupItems print p children
  let (parts, content) := packed options translated items
  let containers := children.filter fun n => n.isContainer && !n.isSpaceExpression a
  let broken := opening.willBreak || children.any Node.isMarkup || 1 < attributes
    || 1 < containers.length || p.isFragmentTop (← read).fragment || Children.willBreak parts
  let multiline : Doc :=
    .grouped (.cat [opening, .indent (.cat [.hardline, content]), .hardline, closing])
  if broken then return multiline
  let flat := parts.map (·.doc (whitespace options).doc)
  return .alternatives (.grouped (.cat [opening, .cat flat, closing])) [multiline] false

/-- Is the only child a template in braces? -/
def isSoleTemplate (children : List Node) : Bool :=
  match children with
  | [.mk _ _ (.jsxExpressionContainer e)] => e.isTemplate
  | _ => false

/-- Prints an element or fragment from its parts. -/
def tagged (print : PrintNode) (p : Path) (children : List Node) (opening closing : Doc)
    (attributes : Nat) (translated : Bool) : Print Doc := do
  if isSoleTemplate children then
    return .cat [opening, .cat (← items print p .children children), closing]
  betweenTags print p children opening closing attributes translated

/-- Prints an element. -/
def elementBody (print : PrintNode) (p : Path) (opening : Node) (children : List Node)
    (closing : Option Node) : Print Doc := do
  if children.isEmpty || (children.length = 1 && children.all Node.isHiddenText) then
    return ← print (p.child .openingElement opening) { selfClosing := some true }
  let printedOpening ← child print p .openingElement opening
  let printedClosing ← match closing with
    | some n => child print p .closingElement n
    | none => pure .empty
  let (attributes, translated) := match opening.form with
    | .jsxOpeningElement name attributes _ => (attributes.length, name.isTranslationName)
    | _ => (0, false)
  tagged print p children printedOpening printedClosing attributes translated

/-- Prints a fragment. -/
def fragmentBody (print : PrintNode) (p : Path) (opening : Node) (children : List Node)
    (closing : Node) : Print Doc := do
  let printedOpening ← child print p .openingFragment opening
  let printedClosing ← child print p .closingFragment closing
  tagged print p children printedOpening printedClosing 0 false

/-- Puts the comments of markup around it, and parentheses where it stands in code. -/
def wrapped (p : Path) (body : Doc) : Print Doc := do
  let element ← withComments p.node body
  if p.keepsMarkupBare then return element
  return .group (.cat [.ifBroken "(", .softBlock element, .ifBroken ")"]) p.isReturnedInBraces

/-- Prints the whole of an HTML text. -/
def markupRoot (print : PrintNode) (p : Path) (children : List Node) : Print Doc := do
  let items ← markupItems print p children
  let (parts, content) := packed (← options) false items
  if parts.isEmpty then return .empty
  return .cat [content, .hardline]

end Print

end Reflow
