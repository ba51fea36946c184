import Reflow.Grammar.Pieces
import Reflow.Grammar.Markup
import Reflow.Grammar.Operators

/-! # Expressions

From sequences down to names and literals.  Where an arrow function may start, one is tried first,
and the parser comes back if there is none. -/

namespace Reflow.Grammar

/-- Assigned values with commas between them. -/
def expression (parse : Rule → Parse Node) : Parse Node := do
  let start ← startAhead
  let first ← parse .assignment
  if ← isAt [","] then
    let rest ← collect (eat ",") (return (← parse .assignment, true))
    node start (.sequenceExpression (first :: rest))
  else return first

/-- The parameters of an arrow function up to its arrow, and whether it is asynchronous. -/
def arrowHead (parse : Rule → Parse Node) : Parse (List Node × Bool) := do
  let isAsync ←
    if ← isAt ["async"] then
      if (← second).newlineBefore then pure false else pure ((← secondText) != "=>")
    else pure false
  if isAsync then skip
  let params ←
    if ← isAt ["("] then params parse
    else if ← isAtName then (fun name => [name]) <$> identifier
    else want .arrowParameters
  let token ← ahead
  if !isOne token ["=>"] || token.newlineBefore then want (.symbol "=>")
  return (params, isAsync)

/-- An arrow function if one starts here; otherwise the parser comes back. -/
def arrow? (parse : Rule → Parse Node) : Parse (Option Node) := do
  let token ← ahead
  if !(isOne token ["("] || isName token) then return none
  let start ← startAhead
  let back ← snapshot
  match ← observe (arrowHead parse) with
  | .error _ =>
    restore back
    return none
  | .ok (params, isAsync) =>
    skip
    let body ← if ← isAt ["\x7b"] then block parse else parse .assignment
    some <$> node start (.arrowFunction params body isAsync)

/-- Can a value be assigned to the expression? -/
def isAssignable (n : Node) : Bool :=
  match n.form with
  | .identifier .. | .memberExpression .. | .objectExpression .. | .arrayExpression .. => true
  | _ => false

/-- A condition and the two expressions it chooses from, or a binary expression. -/
def conditional (parse : Rule → Parse Node) : Parse Node := do
  let start ← startAhead
  let test ← parse (.binary 0)
  if ← eat "?" then
    let consequent ← parse .assignment
    expect ":"
    let alternate ← parse .assignment
    node start (.conditionalExpression test consequent alternate)
  else return test

/-- An arrow function, an assignment or a conditional expression. -/
def assignment (parse : Rule → Parse Node) : Parse Node := nested do
  match ← arrow? parse with
  | some arrow => return arrow
  | none =>
    let start ← startAhead
    let left ← conditional parse
    let token ← ahead
    if token.kind = .punctuator && Operator.isAssignment token.text then
      if !isAssignable left then fail .invalidAssignmentTarget left.span
      skip
      let right ← parse .assignment
      node start (.assignmentExpression token.text left right)
    else return left

/-- The binary operator that a token is. -/
def binaryOperator? (token : Token) : Option String :=
  match token.kind with
  | .punctuator => if (Operator.precedence? token.text).isSome then some token.text else none
  | .name => if ["in", "instanceof"].contains token.text then some token.text else none
  | _ => none

/-- Operands with binary operators between them that bind as tightly as `least` or tighter.  Chains
group from the left, but powers from the right. -/
def binary (parse : Rule → Parse Node) (least : Nat) : Parse Node := do
  let start ← startAhead
  let first ← parse .unary
  extend (fun left => do
    match binaryOperator? (← ahead) with
    | none => return none
    | some operator =>
      let tier := Operator.precedence operator
      if tier < least then return none
      skip
      let right ← parse (.binary (if operator == "**" then tier else tier + 1))
      let form := if Operator.isLogical operator then Form.logicalExpression operator left right
        else .binaryExpression operator left right
      return some (← node start form)) first

/-- An operand with operators in front of it or behind it. -/
def unary (parse : Rule → Parse Node) : Parse Node := do
  let start ← startAhead
  let token ← ahead
  if (token.kind == .punctuator || token.kind == .name) && Operator.isUnary token.text then
    skip
    let argument ← nested (parse .unary)
    node start (.unaryExpression token.text argument)
  else if isOne token ["++", "--"] then
    skip
    let argument ← parse .unary
    node start (.updateExpression token.text argument true)
  else if isOne token ["await"] then
    skip
    let argument ← parse .unary
    node start (.awaitExpression argument)
  else
    let operand ← parse (.callMember true)
    let token ← ahead
    if isOne token ["++", "--"] && !token.newlineBefore then
      skip
      node start (.updateExpression token.text operand false)
    else return operand

/-- A property name in brackets, behind the opening one. -/
def computedKey (parse : Rule → Parse Node) : Parse Node := do
  skip
  let property ← parse .expression
  expect "]"
  return property

/-- What may follow a value: an access, a call or a template. -/
def suffix (parse : Rule → Parse Node) (allowCall : Bool) (start : Position) (value : Node) :
    Parse (Option Node) := do
  if ← isAt ["."] then
    skip
    let property ← propertyName
    some <$> node start (.memberExpression value property false false)
  else if ← isAt ["?."] then
    skip
    if allowCall && (← isAt ["("]) then
      let arguments ← arguments parse
      some <$> node start (.callExpression value arguments true)
    else if ← isAt ["["] then
      let property ← computedKey parse
      some <$> node start (.memberExpression value property true true)
    else
      let property ← propertyName
      some <$> node start (.memberExpression value property false true)
  else if ← isAt ["["] then
    let property ← computedKey parse
    some <$> node start (.memberExpression value property true false)
  else if allowCall && (← isAt ["("]) then
    let arguments ← arguments parse
    some <$> node start (.callExpression value arguments false)
  else if ← isAt ["`"] then
    let quasi ← template parse
    some <$> node start (.taggedTemplate value quasi)
  else return none

/-- A new object of a class. -/
def newExpression (parse : Rule → Parse Node) : Parse Node := do
  let start ← startAhead
  expect "new"
  let callee ← parse (.callMember false)
  let arguments ← if ← isAt ["("] then arguments parse else pure []
  node start (.newExpression callee arguments)

/-- An expression that starts with a word. -/
def wordExpression (parse : Rule → Parse Node) (start : Position) (word : String) : Parse Node := do
  let literal (form : Form Node) : Parse Node := do
    skip
    node start form
  match word with
  | "this" => literal .thisExpression
  | "super" => literal .super
  | "null" => literal .nullLiteral
  | "true" => literal (.booleanLiteral true)
  | "false" => literal (.booleanLiteral false)
  | "function" => function parse start false
  | "class" => classDeclaration parse start [] true
  | "async" =>
    if (← secondText) == "function" then function parse start false else identifier
  | _ => identifier

/-- A name, a literal or something in brackets. -/
def primary (parse : Rule → Parse Node) : Parse Node := do
  let start ← startAhead
  let token ← ahead
  match token.kind with
  | .number =>
    skip
    node start (.numericLiteral token.text)
  | .string => stringLiteral
  | .name => wordExpression parse start token.text
  | .punctuator =>
    match token.text with
    | "(" =>
      skip
      let inner ← parse .expression
      expect ")"
      return inner
    | "[" => array parse
    | "\x7b" => object parse
    | "`" => template parse
    | "<" => element parse .script
    | "@" =>
      let decorators ← decorators parse
      classDeclaration parse start decorators true
    | "/" | "/=" => fail .regularExpression token.span
    | _ => want .expression
  | _ => want .expression

/-- A value with accesses, calls and templates behind it. -/
def callMember (parse : Rule → Parse Node) (allowCall : Bool) : Parse Node := do
  let start ← startAhead
  let value ← if ← isAt ["new"] then newExpression parse else primary parse
  extend (suffix parse allowCall start) value

end Reflow.Grammar
