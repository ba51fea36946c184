import Reflow.Tree.Path
import Reflow.Grammar.Operators

/-! # Parentheses

When an expression has to be put in parentheses so that it is read as it is meant. -/

namespace Reflow

namespace Node

/-- Is it a class used as an expression? -/
def isClassExpression (n : Node) : Bool :=
  match n.form with
  | .classDeclaration _ _ _ _ isExpression => isExpression
  | _ => false

/-- Is it a function expression? -/
def isFunctionExpression (n : Node) : Bool :=
  match n.form with
  | .functionExpression .. => true
  | _ => false

/-- Is it a statement? -/
def isStatement (n : Node) : Bool :=
  match n.form with
  | .classDeclaration _ _ _ _ isExpression => !isExpression
  | .program .. | .expressionStatement .. | .emptyStatement | .block .. | .returnStatement ..
  | .ifStatement .. | .variableDeclaration .. | .functionDeclaration .. | .importDeclaration ..
  | .exportNamedDeclaration .. | .exportDefaultDeclaration .. => true
  | _ => false

/-- Does the first token of the node belong to one of its children? -/
def hasNakedLeftSide (n : Node) : Bool :=
  match n.form with
  | .updateExpression _ _ before => !before
  | .assignmentExpression .. | .binaryExpression .. | .logicalExpression ..
  | .conditionalExpression .. | .callExpression .. | .memberExpression .. | .sequenceExpression ..
  | .taggedTemplate .. => true
  | _ => false

/-- The left-most operand of an expression, with its place. -/
def leftSide? (n : Node) : Option (Place × Node) :=
  match n with
  | .mk _ _ (.sequenceExpression (first :: _)) => some (⟨.expressions, some 0⟩, first)
  | .mk _ _ (.assignmentExpression _ left _) | .mk _ _ (.binaryExpression _ left _)
  | .mk _ _ (.logicalExpression _ left _) => some (⟨.left, none⟩, left)
  | .mk _ _ (.conditionalExpression test _ _) => some (⟨.test, none⟩, test)
  | .mk _ _ (.memberExpression object _ _ _) => some (⟨.object, none⟩, object)
  | .mk _ _ (.callExpression callee _ _) | .mk _ _ (.newExpression callee _) =>
    some (⟨.callee, none⟩, callee)
  | .mk _ _ (.taggedTemplate tag _) => some (⟨.tag, none⟩, tag)
  | .mk _ _ (.updateExpression _ argument _) | .mk _ _ (.unaryExpression _ argument)
  | .mk _ _ (.awaitExpression argument) => some (⟨.argument, none⟩, argument)
  | _ => none

/-- What a node starts with is smaller than the node. -/
theorem sizeOf_leftSide_lt {n : Node} {p : Place × Node} (h : n.leftSide? = some p) :
    sizeOf p.2 < sizeOf n := by
  unfold leftSide? at h
  split at h <;> simp at h <;> subst h <;> simp <;> omega

/-- Would the node start with a brace (or with `function` or `class`, if those are forbidden too)? -/
def startsWithForbidden (forbidFunctionClass : Bool) : Node → Bool
  | .mk _ _ (.objectExpression _) => true
  | .mk _ _ (.functionExpression ..) => forbidFunctionClass
  | .mk _ _ (.classDeclaration _ _ _ _ isExpression) => isExpression && forbidFunctionClass
  | .mk _ _ (.memberExpression object _ _ _) => object.startsWithForbidden forbidFunctionClass
  | .mk _ _ (.taggedTemplate tag _) =>
    !tag.isFunctionExpression && tag.startsWithForbidden forbidFunctionClass
  | .mk _ _ (.callExpression callee _ _) =>
    !callee.isFunctionExpression && callee.startsWithForbidden forbidFunctionClass
  | .mk _ _ (.conditionalExpression test _ _) => test.startsWithForbidden forbidFunctionClass
  | .mk _ _ (.updateExpression _ argument before) =>
    !before && argument.startsWithForbidden forbidFunctionClass
  | .mk _ _ (.sequenceExpression (first :: _)) => first.startsWithForbidden forbidFunctionClass
  | .mk _ _ (.assignmentExpression _ left _) | .mk _ _ (.binaryExpression _ left _)
  | .mk _ _ (.logicalExpression _ left _) => left.startsWithForbidden forbidFunctionClass
  | _ => false

/-- Does a decorator need parentheses?  Only member accesses, and one call behind them, do not. -/
def decoratorNeedsParens (hasCall hasMember : Bool) : Node → Bool
  | .mk _ _ (.memberExpression object _ _ _) => object.decoratorNeedsParens hasCall true
  | .mk _ _ (.callExpression callee _ _) =>
    hasMember || hasCall || callee.decoratorNeedsParens true hasMember
  | .mk _ _ (.identifier _) => false
  | _ => true

/-- Is there a call in the callee of a `new`, through accesses and templates? -/
def calleeHoldsCall : Node → Bool
  | .mk _ _ (.callExpression ..) => true
  | .mk _ _ (.memberExpression object _ _ _) => object.calleeHoldsCall
  | .mk _ _ (.taggedTemplate tag _) => tag.calleeHoldsCall
  | _ => false

end Node

namespace Parens

/-- A unary expression or an update in a parent. -/
def ofUnary (operator : String) (parent : Form Node) (slot : Option Slot) : Bool :=
  match parent with
  | .unaryExpression outer _ => operator == outer && (operator == "+" || operator == "-")
  | .memberExpression .. => slot == some .object
  | .taggedTemplate .. => true
  | .callExpression .. | .newExpression .. => slot == some .callee
  | .binaryExpression outer _ _ => outer == "**" && slot == some .left
  | _ => false

/-- An update in a parent. -/
def ofUpdate (operator : String) (before : Bool) (parent : Form Node) (slot : Option Slot) : Bool :=
  match parent with
  | .unaryExpression outer _ =>
    before && ((operator == "++" && outer == "+") || (operator == "--" && outer == "-"))
  | _ => ofUnary operator parent slot

/-- An operator inside another one. -/
def ofOperators (outer inner : String) (slot : Option Slot) : Bool :=
  let mixes (a : String) : Bool := a == "||" || a == "&&"
  if ((outer == "??") != (inner == "??")) && (mixes outer || mixes inner) then true
  else
    let po := Operator.precedence outer
    let pi := Operator.precedence inner
    if pi < po then true
    else if po = pi && slot == some .right then true
    else if po = pi && !Operator.shouldFlatten outer inner then true
    else if po < pi && inner == "%" then outer == "+" || outer == "-"
    else Operator.isBitwise outer

/-- A binary or logical expression in a parent. -/
def ofBinary (operator : String) (parent : Form Node) (slot : Option Slot) : Bool :=
  match parent with
  | .callExpression .. | .newExpression .. => slot == some .callee
  | .taggedTemplate .. | .unaryExpression .. | .jsxSpreadAttribute .. | .spreadElement ..
  | .awaitExpression .. | .updateExpression .. => true
  | .memberExpression .. => slot == some .object
  | .binaryExpression outer _ _ | .logicalExpression outer _ _ => ofOperators outer operator slot
  | _ => false

/-- A sequence in a parent. -/
def ofSequence (parent : Form Node) (slot : Option Slot) : Bool :=
  match parent with
  | .returnStatement .. => false
  | .expressionStatement .. => slot != some .expression
  | .arrowFunction .. => slot != some .body
  | _ => true

/-- An await in a parent. -/
def ofAwait (parent : Form Node) (slot : Option Slot) : Bool :=
  match parent with
  | .taggedTemplate .. | .unaryExpression .. | .spreadElement .. | .binaryExpression .. => true
  | .memberExpression .. => slot == some .object
  | .callExpression .. | .newExpression .. => slot == some .callee
  | .conditionalExpression .. => slot == some .test
  | _ => false

/-- An assignment in a parent. -/
def ofAssignment (left : Node) (parent : Form Node) : Bool :=
  match parent with
  | .expressionStatement .. =>
    match left.form with
    | .objectExpression .. => true
    | _ => false
  | .assignmentExpression .. => false
  | _ => true

/-- A conditional expression in a parent. -/
def ofConditional (parent : Form Node) (slot : Option Slot) : Bool :=
  match parent with
  | .taggedTemplate .. | .unaryExpression .. | .spreadElement .. | .binaryExpression ..
  | .logicalExpression .. | .exportDefaultDeclaration .. | .awaitExpression ..
  | .jsxSpreadAttribute .. => true
  | .callExpression .. | .newExpression .. => slot == some .callee
  | .conditionalExpression .. => slot == some .test
  | .memberExpression .. => slot == some .object
  | _ => false

/-- An arrow function in a parent. -/
def ofArrow (parent : Form Node) (slot : Option Slot) : Bool :=
  match parent with
  | .callExpression .. | .newExpression .. => slot == some .callee
  | .memberExpression .. => slot == some .object
  | .taggedTemplate .. | .unaryExpression .. | .logicalExpression .. | .binaryExpression ..
  | .awaitExpression .. => true
  | .conditionalExpression .. => slot == some .test
  | _ => false

/-- Does a form need parentheses behind `extends`? -/
def asSuperclass (form : Form Node) : Bool :=
  match form with
  | .arrowFunction .. | .assignmentExpression .. | .awaitExpression .. | .binaryExpression ..
  | .conditionalExpression .. | .logicalExpression .. | .newExpression .. | .objectExpression ..
  | .sequenceExpression .. | .taggedTemplate .. | .unaryExpression .. | .updateExpression .. => true
  | _ => false

/-- Does a node need parentheses by its form, its parent and its slot alone? -/
def byForm (n : Node) (parent : Form Node) (slot : Option Slot) : Bool :=
  match n.form with
  | .updateExpression operator _ before => ofUpdate operator before parent slot
  | .unaryExpression operator _ => ofUnary operator parent slot
  | .binaryExpression operator _ _ | .logicalExpression operator _ _ => ofBinary operator parent slot
  | .sequenceExpression _ => ofSequence parent slot
  | .awaitExpression _ => ofAwait parent slot
  | .numericLiteral _ =>
    match parent with
    | .memberExpression .. => slot == some .object
    | _ => false
  | .assignmentExpression _ left _ => ofAssignment left parent
  | .conditionalExpression .. => ofConditional parent slot
  | .functionExpression .. =>
    match parent with
    | .callExpression .. => slot == some .callee
    | .taggedTemplate .. => true
    | _ => false
  | .arrowFunction .. => ofArrow parent slot
  | .classDeclaration .. =>
    match parent with
    | .newExpression .. => slot == some .callee
    | _ => false
  | .callExpression .. | .memberExpression .. | .taggedTemplate .. =>
    match parent with
    | .newExpression .. => slot == some .callee && n.calleeHoldsCall
    | _ => false
  | _ => false

/-- Does a node need parentheses below a parent that is not an export by default? -/
def below (n : Node) (parent : Form Node) (slot : Option Slot) : Bool :=
  let name := match n.form with
    | .identifier _ => true
    | _ => false
  if n.isStatement || name then false
  else match parent, slot with
    | .classDeclaration .., some .superclass =>
      asSuperclass n.form || byForm n parent slot
    | .decorator .., some .expression => n.decoratorNeedsParens false false
    | .expressionStatement .., _ => n.startsWithForbidden true || byForm n parent slot
    | .arrowFunction .., some .body =>
      let sequence := match n.form with
        | .sequenceExpression _ => true
        | _ => false
      (!sequence && n.startsWithForbidden false) || byForm n parent slot
    | _, _ => byForm n parent slot

/-- Would the export by default start with a function or class that is only part of it?  `top` at the
exported expression itself. -/
def wrapsExport (parent : Form Node) (slot : Option Slot) (top : Bool) (n : Node) : Bool :=
  if n.isFunctionExpression || n.isClassExpression then top || !below n parent slot
  else if !n.hasNakedLeftSide || (!top && below n parent slot) then false
  else
    match h : n.leftSide? with
    | some p => wrapsExport n.form (some p.1.slot) false p.2
    | none => false
termination_by sizeOf n
decreasing_by exact Node.sizeOf_leftSide_lt h

end Parens

/-- Does the node at a path have to be put in parentheses? -/
def Path.needsParens (p : Path) : Bool :=
  match p.parentForm? with
  | none => false
  | some parent =>
    match parent with
    | .exportDefaultDeclaration _ =>
      match p.node.form with
      | .identifier _ | .functionExpression .. => false
      | .sequenceExpression _ => true
      | _ =>
        if p.node.isStatement || p.node.isClassExpression then false
        else Parens.wrapsExport parent p.slot? true p.node
    | _ => Parens.below p.node parent p.slot?

end Reflow
