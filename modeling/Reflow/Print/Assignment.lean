import Reflow.Literal.Quote
import Reflow.Print.Comments
import Reflow.Tree.Kind

/-! # Assignments

Everything with a value behind a sign: assignments, declarations with a value, and properties. -/

namespace Reflow

namespace Node

/-- Does the right operand of a logical expression stay next to the operator? -/
def hugsRightOperand (n : Node) : Bool :=
  match n.form with
  | .logicalExpression _ _ right =>
    match right.form with
    | .objectExpression properties => !properties.isEmpty
    | .arrayExpression elements => !elements.isEmpty
    | _ => right.isMarkup
  | _ => false

/-- Is it a chain of member accesses that starts at a name? -/
def isNameChain : Node → Bool
  | .mk _ _ (.memberExpression object _ _ _) => object.isIdentifier || object.isNameChain
  | _ => false

/-- Is it an operator expression that breaks behind its operators? -/
def breaksAtOperators (n : Node) : Bool := n.isBinary && !n.hugsRightOperand

/-- May the line break between a sign and the value behind it? -/
def mayBreakBefore (left right : Node) : Bool :=
  right.breaksAtOperators
    || (match right.form with
      | .conditionalExpression test _ _ => test.breaksAtOperators
      | _ => false)
    || ((left.form matches .identifier .. | .stringLiteral .. | .memberExpression ..)
      && (right.isString || right.isNameChain))
    || right.isSequence

/-- The text of a key that needs no quotes. -/
def unquotedKey? (n : Node) : Option String :=
  match n.form with
  | .stringLiteral value raw =>
    let plain (c : Char) : Bool := c.isAlpha || c == '_' || c == '$'
    let isName := match value.toList with
      | [] => false
      | c :: rest => plain c && rest.all fun d => plain d || d.isDigit
    if isName && Literal.contentOf raw.toList == value.toList then some value else none
  | _ => none

end Node

namespace Print

/-- The value behind a sign, with the blank or break before it. -/
def valueBehind (print : PrintNode) (p : Path) (left : Node) (slot : Slot) (right : Node) :
    Print Doc := do
  let printed ← child print p slot right
  if (← attachments).hasLeadingOwnLine (← source) right then
    return .indent (.cat [.hardline, printed])
  if left.mayBreakBefore right then
    return .grouped (.indent (.cat [.space, printed]))
  return .cat [" ", printed]

/-- The key of a property or member, without quotes where it needs none. -/
def key (print : PrintNode) (p : Path) (key : Node) (computed : Bool) : Print Doc := do
  if computed then
    return .cat ["[", ← child print p .key key, "]"]
  match key.unquotedKey? with
  | some name => withComments key (.text name)
  | none => child print p .key key

/-- What is assigned to, the sign and the value. -/
def assignment (print : PrintNode) (p : Path) (printedLeft : Doc) (left : Node) (sign : String)
    (slot : Slot) (right : Node) : Print Doc := do
  return .grouped (.cat [printedLeft, .text sign, ← valueBehind print p left slot right])

/-- The declaration of one variable. -/
def declarator (print : PrintNode) (p : Path) (target : Node) (init : Option Node) : Print Doc := do
  let left ← child print p .id target
  match init with
  | none => return left
  | some value => assignment print p left target " =" .init value

/-- A declaration of variables. -/
def variableDeclaration (print : PrintNode) (p : Path) (kind : String) (declarations : List Node) :
    Print Doc := do
  let printed ← items print p .declarations declarations
  let hasValue := declarations.any fun d => d.form matches .variableDeclarator _ (some _)
  let commented ← match declarations with
    | [only] => hasComments only
    | _ => pure true
  let first : Doc := match printed with
    | [] => .empty
    | d :: _ => .cat [" ", if commented then .indent d else d]
  let separator : Doc := if hasValue then .hardline else .space
  let others : List Doc := printed.tail.map fun d => .cat [",", separator, d]
  return .grouped (.cat [.text kind, first, .indent (.cat others), ← semicolon])

end Print

end Reflow
