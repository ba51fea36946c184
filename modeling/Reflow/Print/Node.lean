import Reflow.Embed.Template
import Reflow.Literal.Number
import Reflow.Print.Chain
import Reflow.Print.Collection
import Reflow.Print.Conditional
import Reflow.Print.ImportExport
import Reflow.Print.Markup
import Reflow.Print.Operator
import Reflow.Print.Statement
import Reflow.Tree.Walk

/-! # Printing nodes

Each form has its printer; around what it gives come the cursor, parentheses, decorators and
comments. -/

namespace Reflow

namespace Print

/-- Prints a template, in its own language if it has one. -/
def template (print : PrintNode) (p : Path) (quasis expressions : List Node) : Print Doc := do
  match ← Embed.template? print p quasis expressions with
  | some d => return d
  | none => templateLiteral print p quasis expressions

/-- Prints a node without what belongs around it. -/
def byForm (print : PrintNode) (p : Path) (flags : PrintFlags) : Print Doc := do
  match p.node.form with
  | .program body => program print p body
  | .expressionStatement e => expressionStatement print p e
  | .emptyStatement => return .empty
  | .block body => block print p body
  | .returnStatement argument => returnStatement print p argument
  | .ifStatement test consequent alternate => ifStatement print p test consequent alternate
  | .variableDeclarator target init => declarator print p target init
  | .variableDeclaration kind declarations => variableDeclaration print p kind declarations
  | .functionDeclaration name params body isAsync generator
  | .functionExpression name params body isAsync generator =>
    function print p name params body isAsync generator
  | .decorator e => return .cat ["@", ← child print p .expression e]
  | .classProperty decorators key value computed isStatic =>
    classProperty print p decorators key value computed isStatic
  | .classMethod decorators key params body kind computed isStatic isAsync generator =>
    let printedDecorators ← memberDecorators print p decorators
    let printed ← method print p key params body kind computed isAsync generator
    return .cat [printedDecorators, .when isStatic "static ", printed]
  | .classBody members => classBody print p members
  | .classDeclaration _ name superclass body _ => classDeclaration print p name superclass body
  | .importSpecifier imported binding => renamed print p .imported imported .localName binding
  | .importDefaultSpecifier binding => child print p .localName binding
  | .importNamespaceSpecifier binding => return .cat ["* as ", ← child print p .localName binding]
  | .importDeclaration specifiers origin => importDeclaration print p specifiers origin
  | .exportSpecifier binding exported => renamed print p .localName binding .exported exported
  | .exportNamedDeclaration (some declaration) _ _ => exportOf print p declaration false
  | .exportNamedDeclaration none specifiers origin => exportNames print p specifiers origin
  | .exportDefaultDeclaration declaration => exportOf print p declaration true
  | .identifier name => return .text name
  | .privateName name => return .text ("#" ++ name)
  | .thisExpression => return "this"
  | .super => return "super"
  | .numericLiteral raw => return .text (Literal.printNumber raw)
  | .stringLiteral _ raw => return .text (Literal.printString raw (← options).singleQuote)
  | .booleanLiteral value => return if value then "true" else "false"
  | .nullLiteral => return "null"
  | .templateElement raw _ => return templateText raw
  | .templateLiteral quasis expressions => template print p quasis expressions
  | .taggedTemplate tag quasi =>
    let printed ← child print p .tag tag
    return .cat [printed, ← child print p .quasi quasi]
  | .arrayExpression elements => array print p elements
  | .objectProperty propertyKey value computed shorthand =>
    if shorthand then child print p .value value
    else
      let printed ← key print p propertyKey computed
      assignment print p printed propertyKey ":" .value value
  | .objectMethod key params body kind computed isAsync generator =>
    method print p key params body kind computed isAsync generator
  | .objectExpression properties => object print p properties
  | .spreadElement argument | .restElement argument =>
    return .cat ["...", ← child print p .argument argument]
  | .assignmentPattern left right =>
    let printed ← child print p .left left
    return .cat [printed, " = ", ← child print p .right right]
  | .memberExpression object property computed _ =>
    memberExpression print p object property computed
  | .callExpression callee arguments _ => callExpression print p callee arguments false
  | .newExpression callee arguments => callExpression print p callee arguments true
  | .arrowFunction params body isAsync => arrowFunction print p params body isAsync flags
  | .unaryExpression operator argument => unary print p operator argument
  | .updateExpression operator argument before =>
    let printed ← child print p .argument argument
    return if before then .cat [.text operator, printed] else .cat [printed, .text operator]
  | .binaryExpression operator left right | .logicalExpression operator left right =>
    binary print p operator left right
  | .conditionalExpression test consequent alternate =>
    conditional print p test consequent alternate
  | .assignmentExpression operator left right =>
    let printed ← child print p .left left
    assignment print p printed left (" " ++ operator) .right right
  | .sequenceExpression expressions => sequence print p expressions
  | .awaitExpression argument => return .cat ["await ", ← child print p .argument argument]
  | .jsxIdentifier name => return .text name
  | .jsxNamespacedName space name =>
    let printed ← child print p .namespaceName space
    return .cat [printed, ":", ← child print p .name name]
  | .jsxMemberExpression object property =>
    let printed ← child print p .object object
    return .cat [printed, ".", ← child print p .property property]
  | .jsxAttribute name value => tagAttribute print p name value
  | .jsxSpreadAttribute argument => spread print p .argument argument
  | .jsxOpeningElement name attributes selfClosing =>
    openingElement print p name attributes (flags.selfClosing.getD selfClosing)
  | .jsxClosingElement name => return .cat ["</", ← child print p .name name, ">"]
  | .jsxOpeningFragment => fragmentEdge p true
  | .jsxClosingFragment => fragmentEdge p false
  | .jsxText raw => return .text raw
  | .jsxEmptyExpression => emptyExpression p
  | .jsxExpressionContainer e => container print p e
  | .jsxSpreadChild e => spread print p .expression e
  | .jsxElement opening children closing =>
    wrapped p (← elementBody print p opening children closing)
  | .jsxFragment opening children closing =>
    wrapped p (← fragmentBody print p opening children closing)
  | .htmlComment value => return .text value
  | .markupRoot children => markupRoot print p children

/-- Does the printer of the form, or of the parent, print the node's comments itself? -/
def printsOwnComments (p : Path) : Bool :=
  p.node.isMarkup
    || match p.parentForm? with
      | some (.jsxSpreadAttribute _) | some (.jsxSpreadChild _) => true
      | some (.classDeclaration ..) => p.slot? == some .superclass
      | _ => false

/-- Prints a node with all that belongs around it.  A node that is to be ignored is copied from the
source. -/
def whole (print : PrintNode) : PrintNode := fun p flags => do
  let a ← attachments
  let n := p.node
  if a.isIgnored n || p.isIgnoredBySibling a then
    markRange n.start n.stop
    return ← withComments n (.text ((← source).text n.start n.stop))
  let printed ← byForm print p flags
  let printed : Doc := if (← read).cursorNode == some n.id then .cat [.cursor, printed] else printed
  let printed : Doc := if p.needsParens then .cat ["(", printed, ")"] else printed
  let printed : Doc := match ← classDecorators? print p with
    | some decorators => .grouped (.cat [decorators, printed])
    | none => printed
  let printed : Doc := if flags.needsSemicolon then .cat [";", printed] else printed
  if printsOwnComments p then return printed
  withComments n printed

/-- Prints the nodes of a tree, down to a depth. -/
def downTo : Nat → PrintNode
  | 0 => fun _ _ => throw .tooDeep
  | depth + 1 => whole (downTo depth)

/-- Gives up if a comment was not printed. -/
def ensureAllPrinted : Print Unit := do
  let printed ← get
  match (← read).comments.find? fun c => !printed.contains c with
  | some c => throw (.lostComment c)
  | none => return ()

/-- Prints a whole tree with all its comments. -/
def tree (root : Node) : Print Doc := do
  let d ← downTo root.height (.ofRoot root) {}
  ensureAllPrinted
  return d

end Print

end Reflow
