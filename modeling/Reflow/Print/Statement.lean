import Reflow.Print.Function

/-! # Statements

Sequences of statements and the statements themselves.  Where semicolons are left out, a statement
that could be taken for a continuation of the one before it gets a semicolon in front. -/

namespace Reflow

/-- Would the expression at a path, at the start of a line, continue the line before it? -/
def Path.continuesLine (options : Options) (a : Attachments) (p : Path) : Bool :=
  if p.needsParens || (p.node.isArrow && !p.node.dropsParameterParens options a)
      || (p.node.form matches .arrayExpression .. | .templateLiteral .. | .unaryExpression "+" _
        | .unaryExpression "-" _)
      || p.node.isMarkup then true
  else if !p.node.hasNakedLeftSide then false
  else match h : p.node.leftSide? with
    | some (place, n) => Path.continuesLine options a (p.childAt place n)
    | none => false
termination_by sizeOf p.node
decreasing_by exact Node.sizeOf_leftSide_lt h

/-- Would the statement at a path continue the line before it? -/
def Path.statementContinuesLine (options : Options) (a : Attachments) (p : Path) : Bool :=
  match p.node.form with
  | .expressionStatement e => (p.child .expression e).continuesLine options a
  | _ => false

/-- Is it the sole statement of a fragment in its wrapper? -/
def Path.isFragmentBody (fragment : Bool) (p : Path) : Bool :=
  fragment
    && (match p.node.form with
      | .expressionStatement e => e.isMarkup
      | _ => false)
    && p.parentForm? matches some (.program [_])

namespace Node

/-- Would the name of a property without a value be taken for a keyword of the member behind it? -/
def isKeywordProperty (n : Node) : Bool :=
  match n.form with
  | .classProperty _ key none _ _ => key.isNamed ["static", "get", "set"]
  | _ => false

/-- Is it a property of a class? -/
def isClassProperty (n : Node) : Bool := n.form matches .classProperty ..

/-- Would a member of a class continue the property before it? -/
def continuesProperty (n : Node) : Bool :=
  let isOperator (key : Node) (computed : Bool) : Bool :=
    !computed && key.isNamed ["in", "instanceof"]
  match n.form with
  | .classProperty _ key _ computed isStatic => !isStatic && (isOperator key computed || computed)
  | .classMethod _ key _ _ kind computed isStatic isAsync generator =>
    !isStatic && (isOperator key computed
      || (!isAsync && kind != .getter && kind != .setter && (computed || generator)))
  | _ => false

/-- Does a comment on a line of its own lead the node, or the left-most part of it? -/
def startsWithOwnLineComment (a : Attachments) (source : Source) (n : Node) : Bool :=
  a.hasLeadingOwnLine source n
    || match h : n.leftSide? with
      | some p => p.2.startsWithOwnLineComment a source
      | none => false
termination_by sizeOf n
decreasing_by exact Node.sizeOf_leftSide_lt h

end Node

namespace Print

/-- Prints a sequence of statements or class members, with the blank lines between them kept. -/
def statements (print : PrintNode) (p : Path) (body : List Node) : Print Doc := do
  let options ← options
  let a ← attachments
  let source ← source
  let fragment := (← read).fragment
  let isClass := p.node.form matches .classBody _
  let paths := (p.items .body body).filter fun q => !q.node.isEmptyStatement
  let last := paths.getLast?.map (·.node.id)
  let printed ← paths.mapM fun q => do
    let guarded := !options.semi && !isClass && !q.isFragmentBody fragment
      && q.statementContinuesLine options a
    let d ← print q { needsSemicolon := guarded }
    let next := q.index?.bind fun i => body[i + 1]?
    let separated := !options.semi && isClass
      && (q.node.isKeywordProperty
        || (q.node.isClassProperty && next.any Node.continuesProperty))
    let blank := last != some q.node.id && source.isNextLineEmpty q.node.stop
    return Doc.cat [d, .when separated ";", .when blank .hardline]
  return .join .hardline printed

/-- Prints a whole program. -/
def program (print : PrintNode) (p : Path) (body : List Node) : Print Doc := do
  let printed ← statements print p body
  let comments ← dangling p.node
  let hasContent := !body.isEmpty || (← hasComments p.node)
  return .cat [printed, comments, .when hasContent .hardline]

/-- Prints an expression as a statement. -/
def expressionStatement (print : PrintNode) (p : Path) (expression : Node) : Print Doc := do
  let printed ← child print p .expression expression
  let bare := p.isFragmentBody (← read).fragment
  return .cat [printed, .when (!bare) (← semicolon)]

/-- Prints a block. -/
def block (print : PrintNode) (p : Path) (body : List Node) : Print Doc := do
  let hasContent := body.any fun n => !n.isEmptyStatement
  let isFunctionBody := (p.parentForm?.bind Form.params?).isSome
  if !hasContent && !(← attachments).hasDangling p.node && isFunctionBody then
    return "\x7b\x7d"
  let contents ← if hasContent then
      pure (Doc.indent (.cat [.hardline, ← statements print p body]))
    else pure .empty
  return .cat ["\x7b", contents, ← indentedDangling p.node, .hardline, "\x7d"]

/-- Prints the body of a class. -/
def classBody (print : PrintNode) (p : Path) (members : List Node) : Print Doc := do
  if !(← hasComments p.node) && members.isEmpty then
    return "\x7b\x7d"
  let contents ← if members.isEmpty then indentedDangling p.node
    else pure (Doc.indent (.cat [.hardline, ← statements print p members]))
  return .cat ["\x7b", contents, .hardline, "\x7d"]

/-- What stands behind `return`, with the blank before it. -/
def returned (print : PrintNode) (p : Path) (argument : Node) : Print Doc := do
  let printed ← child print p .argument argument
  let a ← attachments
  let source ← source
  if a.hasLeadingOwnLine source argument
      || (argument.hasNakedLeftSide && argument.startsWithOwnLineComment a source) then
    return .cat [" (", .indent (.cat [.hardline, printed]), .hardline, ")"]
  if argument.isBinary || argument.isSequence then
    return .grouped (.cat [" ", .ifBroken "(", .softBlock printed, .ifBroken ")"])
  return .cat [" ", printed]

/-- Prints a return statement. -/
def returnStatement (print : PrintNode) (p : Path) (argument : Option Node) : Print Doc := do
  let value ← match argument with
    | some n => returned print p n
    | none => pure .empty
  let a ← attachments
  let comments ← dangling p.node
  let gap : Doc := .when (a.hasDangling p.node) (.cat [" ", comments])
  let semi ← semicolon
  -- A semicolon behind a line comment would be part of it.
  let lastIsLine := (a.of p.node).getLast?.any fun x => !x.comment.isBlock
  return .cat ["return", value, if lastIsLine then .cat [semi, gap] else .cat [gap, semi]]

/-- A branch of a conditional statement with the blank or break before it. -/
def branch (n : Node) (printed : Doc) (sameLine : Bool) : Doc :=
  if n.isEmptyStatement then ";"
  else if n.isBlock || sameLine then .cat [" ", printed]
  else .indent (.cat [.space, printed])

/-- Prints the second branch of a conditional statement, with its keyword. -/
def elseBranch (print : PrintNode) (p : Path) (consequent alternate : Node) : Print Doc := do
  let a ← attachments
  let inside := a.inRole .dangling p.node
  let lineComment := (a.inRole .trailing consequent).any (fun x => !x.comment.isBlock)
    || inside.getLast?.any (fun x => !x.comment.isBlock)
  let sameLine := consequent.isBlock && !lineComment
  let comments ← dangling p.node
  let separator : Doc := if lineComment then .hardline else " "
  let printed ← child print p .alternate alternate
  let isChain := alternate.form matches .ifStatement ..
  return .cat [if sameLine then " " else .hardline,
    .when (!inside.isEmpty) (.cat [comments, separator]),
    "else", .grouped (branch alternate printed isChain)]

/-- Prints a conditional statement. -/
def ifStatement (print : PrintNode) (p : Path) (test consequent : Node) (alternate : Option Node) :
    Print Doc := do
  let printed ← child print p .consequent consequent
  let condition ← child print p .test test
  let opening : Doc := .grouped (.cat ["if (", .grouped (.softBlock condition), ")",
    branch consequent printed false])
  let rest ← match alternate with
    | some n => elseBranch print p consequent n
    | none => pure .empty
  return .grouped (.cat [opening, rest])

end Print

end Reflow
