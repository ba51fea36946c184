import Reflow.Tree.Node

/-! # Kinds of nodes

Questions about the form of a node that several printers ask. -/

namespace Reflow

/-- The parameters of a function of any kind. -/
def Form.params? {α : Type} : Form α → Option (List α)
  | .functionDeclaration _ params _ _ _ | .functionExpression _ params _ _ _
  | .arrowFunction params _ _ | .classMethod _ _ params _ _ _ _ _ _
  | .objectMethod _ params _ _ _ _ _ => some params
  | _ => none

/-- The decorators of a class or of a member of one. -/
def Form.decorators {α : Type} : Form α → List α
  | .classDeclaration decorators _ _ _ _ | .classProperty decorators _ _ _ _
  | .classMethod decorators _ _ _ _ _ _ _ _ => decorators
  | _ => []

/-- Are the two forms of one kind? -/
def Form.sameKind {α : Type} (a b : Form α) : Bool := a.typeName == b.typeName

namespace Node

/-- Is it a statement without anything in it? -/
def isEmptyStatement (n : Node) : Bool := n.form matches .emptyStatement

/-- Is it a block? -/
def isBlock (n : Node) : Bool := n.form matches .block ..

/-- Is it a decorator? -/
def isDecorator (n : Node) : Bool := n.form matches .decorator ..

/-- Is it an element or a fragment? -/
def isMarkup (n : Node) : Bool := n.form matches .jsxElement .. | .jsxFragment ..

/-- Is it an expression with an operator between two operands? -/
def isBinary (n : Node) : Bool := n.form matches .binaryExpression .. | .logicalExpression ..

/-- The operator between the two operands. -/
def binaryOperator? (n : Node) : Option String :=
  match n.form with
  | .binaryExpression operator _ _ | .logicalExpression operator _ _ => some operator
  | _ => none

/-- Is it a member access? -/
def isMember (n : Node) : Bool := n.form matches .memberExpression ..

/-- Is it a call? -/
def isCall (n : Node) : Bool := n.form matches .callExpression ..

/-- Is it an identifier? -/
def isIdentifier (n : Node) : Bool := n.form matches .identifier ..

/-- Is it an identifier with one of the given names? -/
def isNamed (n : Node) (names : List String) : Bool :=
  match n.form with
  | .identifier name => names.contains name
  | _ => false

/-- Is it a number? -/
def isNumber (n : Node) : Bool := n.form matches .numericLiteral ..

/-- Is it a string? -/
def isString (n : Node) : Bool := n.form matches .stringLiteral ..

/-- Is it an object or an array? -/
def isCollection (n : Node) : Bool := n.form matches .objectExpression .. | .arrayExpression ..

/-- Is it an array? -/
def isArray (n : Node) : Bool := n.form matches .arrayExpression ..

/-- Is it a conditional expression? -/
def isConditional (n : Node) : Bool := n.form matches .conditionalExpression ..

/-- Is it a sequence of expressions? -/
def isSequence (n : Node) : Bool := n.form matches .sequenceExpression ..

/-- Is it an arrow function? -/
def isArrow (n : Node) : Bool := n.form matches .arrowFunction ..

/-- Is it a rest element? -/
def isRest (n : Node) : Bool := n.form matches .restElement ..

/-- Is it a function expression or an arrow function? -/
def isFunctionOrArrow (n : Node) : Bool :=
  n.form matches .functionExpression .. | .arrowFunction ..

/-- Is it a template, with or without a tag? -/
def isTemplate (n : Node) : Bool := n.form matches .templateLiteral .. | .taggedTemplate ..

/-- Is it a member access by a number in brackets? -/
def isNumericAccess (n : Node) : Bool :=
  match n.form with
  | .memberExpression _ property computed _ => computed && property.isNumber
  | _ => false

end Node

end Reflow
