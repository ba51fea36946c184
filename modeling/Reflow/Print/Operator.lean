import Reflow.Print.Assignment
import Reflow.Grammar.Operators

/-! # Operators

Operators between operands, in chains of one precedence, and sequences of expressions. -/

namespace Reflow

namespace Node

/-- The operator of an expression and its two operands. -/
def operands? : Node → Option (String × Node × Node)
  | .mk _ _ (.binaryExpression operator left right)
  | .mk _ _ (.logicalExpression operator left right) => some (operator, left, right)
  | _ => none

/-- The left operand is smaller than the operation. -/
theorem sizeOf_leftOperand_lt {n : Node} {x : String × Node × Node} (h : n.operands? = some x) :
    sizeOf x.2.1 < sizeOf n := by
  unfold operands? at h
  split at h <;> simp at h <;> subst h <;> simp <;> omega

/-- Does the left operand go into the chain of an operator? -/
def joinsChain (operator : String) (left : Node) : Bool :=
  left.binaryOperator?.any (Operator.shouldFlatten operator)

end Node

/-- Is the path's node the condition of a statement? -/
def Path.isCondition (p : Path) : Bool :=
  (p.parentForm? matches some (.ifStatement ..)) && p.slot? == some .test

namespace Print

/-- Is the operator of a path's node the only one of its kind around?  Its right operand then stays
with it. -/
def isLoneOperator (p : Path) (left right : Node) : Bool :=
  let form := p.node.form
  !p.parentForm?.any form.sameKind && !left.form.sameKind form && !right.form.sameKind form

/-- The operands and operators of a chain.  A nested expression is part of the chain of the one
around it, and so brings its own comments along.  `insideParens` if the chain is the condition of a
statement. -/
def chainParts (print : PrintNode) (insideParens nested : Bool) (p : Path) : Print (List Doc) :=
  match h : p.node.operands? with
  | none => do return [.grouped (← print p {})]
  | some (operator, left, right) => do
    let first ←
      if left.joinsChain operator then chainParts print insideParens true (p.child .left left)
      else pure [Doc.grouped (← child print p .left left)]
    let printed ← child print p .right right
    let gap : Doc := if p.node.hugsRightOperand then " " else .space
    let operand : Doc := .cat [.text operator, gap, printed]
    let grouped := !(insideParens && p.node.form matches .logicalExpression ..)
      && isLoneOperator p left right
    let parts := first ++ [.text " ", if grouped then .grouped operand else operand]
    if nested && (← hasComments p.node) then
      return [← withComments p.node (.cat parts)]
    return parts
termination_by sizeOf p.node
decreasing_by exact Node.sizeOf_leftOperand_lt h

/-- Do the parts of a chain need no indentation of their own? -/
def keepsIndentation (p : Path) : Bool :=
  match p.parentForm?, p.grandparentForm? with
  | some (.returnStatement _), _ => true
  | some (.jsxExpressionContainer _), some (.jsxAttribute ..) => true
  | some (.arrowFunction ..), _ => p.slot? == some .body
  | some (.conditionalExpression ..), above =>
    !(above matches some (.returnStatement ..) | some (.callExpression ..))
  | _, _ => false

/-- Is the path's node put in parentheses that break onto lines of their own? -/
def breaksParens (p : Path) : Bool :=
  match p.parentForm? with
  | some (.callExpression ..) | some (.newExpression ..) => p.slot? == some .callee
  | some (.unaryExpression ..) => true
  | some (.memberExpression _ _ computed _) => !computed
  | _ => false

/-- Prints an expression with an operator between two operands. -/
def binary (print : PrintNode) (p : Path) (operator : String) (left right : Node) : Print Doc := do
  let parts ← chainParts print p.isCondition false p
  if p.isCondition then return .cat parts
  if breaksParens p then return .grouped (.softBlock (.cat parts))
  let isValue := p.parentForm? matches some (.assignmentExpression ..)
    | some (.variableDeclarator ..) | some (.classProperty ..) | some (.objectProperty ..)
  let inline := p.node.hugsRightOperand
  if keepsIndentation p || (inline && !left.joinsChain operator) || (!inline && isValue) then
    return .grouped (.cat parts)
  let first := parts.take 1
  let rest := parts.drop 1
  if right.isMarkup then
    -- Markup at the end stays outside the indentation of the chain.
    let chain : Doc := .grouped (.cat (first ++ [.indent (.cat rest.dropLast)]))
    return .grouped (.cat (chain :: rest.getLast?.toList))
  return .grouped (.cat (first ++ [.indent (.cat rest)]))

/-- Prints a sequence of expressions. -/
def sequence (print : PrintNode) (p : Path) (expressions : List Node) : Print Doc := do
  let printed ← items print p .expressions expressions
  if p.parentForm? matches some (.expressionStatement _) then
    let others := printed.tail.flatMap fun d => [(",": Doc), .indent (.cat [.space, d])]
    return .grouped (.cat (printed.take 1 ++ others))
  return .grouped (.join (.cat [",", .space]) printed)

/-- Prints an expression with an operator in front. -/
def unary (print : PrintNode) (p : Path) (operator : String) (argument : Node) : Print Doc := do
  let gap : Doc := .when (operator.toList.getLast?.any Char.isAlpha) " "
  let printed ← child print p .argument argument
  let operand : Doc :=
    if ← hasComments argument then
      .grouped (.cat ["(", .indent (.cat [.softline, printed]), .softline, ")"])
    else printed
  return .cat [.text operator, gap, operand]

end Print

end Reflow
