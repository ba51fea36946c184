import Reflow.Print.Assignment
import Reflow.Print.Template
import Reflow.Print.TestCall

/-! # Functions

Parameters, functions, methods and arrow functions. -/

namespace Reflow

namespace Node

/-- Is the node the sole parameter of a kind that hugs the parentheses? -/
def isHuggedParameter (n : Node) : Bool :=
  match n.form with
  | .assignmentPattern left right =>
    left.isCollection
      && (match right.form with
        | .identifier _ => true
        | .objectExpression properties => properties.isEmpty
        | .arrayExpression elements => elements.isEmpty
        | _ => false)
  | _ => n.isCollection

/-- Does the sole parameter of a function hug the parentheses? -/
def hugsSoleParameter (a : Attachments) (params : List Node) : Bool :=
  match params with
  | [only] => !a.has only && only.isHuggedParameter
  | _ => false

/-- Is the sole parameter of an arrow function printed without parentheses? -/
def dropsParameterParens (options : Options) (a : Attachments) (n : Node) : Bool :=
  match n.form with
  | .arrowFunction [only] _ _ =>
    options.arrowParens == .avoid && only.isIdentifier && !a.has only && !a.hasDangling n
  | _ => false

/-- Does the body of an arrow function stay on the line of the arrow? -/
def staysBehindArrow (source : Source) (body : Node) : Bool :=
  body.isCollection || body.isBlock || body.isArrow || body.isMarkup || body.isHangingTemplate source

end Node

namespace Print

/-- Prints the parameters of a function in their parentheses.  `expand` asks for one line, because
the function is an argument that hugs the parentheses of its call. -/
def parameters (print : PrintNode) (p : Path) (params : List Node) (expand : Bool) : Print Doc := do
  let a ← attachments
  let source ← source
  if params.isEmpty then
    let inside (c : Comment) : Bool := source.nextCharacter? c.stop == some ')'
    return .cat ["(", ← dangling p.node inside, ")"]
  let inTest := p.parent?.any Node.isTestCall
  let hug := Node.hugsSoleParameter a params
  let expand := expand && !params.any a.has
  let printed ← (p.items .params params).mapM fun q => do
    let d ← print q {}
    let separator : List Doc :=
      if q.index? == some (params.length - 1) then []
      else if inTest || hug || expand then [", "]
      else if source.isNextLineEmpty q.node.stop then [",", .hardline, .hardline]
      else [",", .space]
    return Doc.cat (d :: separator)
  if expand then
    return .grouped (.enclosed "(" (printed.map Doc.removeLines) ")")
  if hug || inTest then
    return .enclosed "(" printed ")"
  let endsInRest := params.getLast?.any Node.isRest
  let comma ← argumentComma
  return .cat ["(", .indent (.cat (.softline :: printed)), .ifBroken (.when (!endsInRest) comma),
    .softline, ")"]

/-- Prints a function with its keyword. -/
def function (print : PrintNode) (p : Path) (name : Option Node) (params : List Node) (body : Node)
    (isAsync generator : Bool) : Print Doc := do
  let printedName ← match name with
    | some n => pure (Doc.cat [" ", ← child print p .id n])
    | none => pure Doc.empty
  let printedParams ← parameters print p params false
  let printedBody ← child print p .body body
  return .cat [.when isAsync "async ", "function", .when generator "*", printedName,
    .grouped printedParams, " ", printedBody]

/-- Prints a method without its decorators. -/
def method (print : PrintNode) (p : Path) (methodKey : Node) (params : List Node) (body : Node)
    (kind : MethodKind) (computed isAsync generator : Bool) : Print Doc := do
  let head : List Doc := match kind with
    | .getter | .setter => [.text kind.word, " "]
    | .method | .constructor => [.when isAsync "async ", .when generator "*"]
  let printedKey ← key print p methodKey computed
  let printedParams ← parameters print p params false
  let printedBody ← child print p .body body
  return .cat (head ++ [printedKey, .grouped printedParams, " ", printedBody])

/-- Prints the part of an arrow function before its body. -/
def arrowHead (print : PrintNode) (p : Path) (params : List Node) (isAsync expand : Bool) :
    Print Doc := do
  let source ← source
  let bare := p.node.dropsParameterParens (← options) (← attachments)
  let printedParams ← match bare, params with
    | true, first :: _ => print (p.item .params 0 first) {}
    | _, _ => Doc.grouped <$> parameters print p params expand
  let beforeArrow (c : Comment) : Bool :=
    match source.nextCharacterIndex c.stop with
    | some i => Text.startsWith (source.charsFrom i) ['=', '>']
    | none => false
  let comments ← dangling p.node beforeArrow
  let gap : Doc := if comments.isEmpty then .empty else .cat [" ", comments]
  return .cat [.when isAsync "async ", printedParams, gap, " =>"]

/-- Prints an arrow function. -/
def arrowFunction (print : PrintNode) (p : Path) (params : List Node) (body : Node) (isAsync : Bool)
    (flags : PrintFlags) : Print Doc := do
  let expand := flags.expandFirst || flags.expandLast
  let head ← arrowHead print p params isAsync expand
  let printed ← print (p.child .body body)
    { expandFirst := flags.expandFirst, expandLast := flags.expandLast }
  let a ← attachments
  let source ← source
  if !a.hasLeadingOwnLine source body && body.staysBehindArrow source then
    return .grouped (.cat [head, " ", printed])
  if body.isSequence then
    return .grouped (.cat [head,
      .grouped (.cat [" (", .indent (.cat [.softline, printed]), .softline, ")"])])
  let inContainer := p.parentForm? matches some (.jsxExpressionContainer _)
  let closes := (expand || inContainer) && !a.has p.node
  let comma : Doc := .when flags.expandLast (← argumentComma)
  -- Without parentheses an arrow before a condition is easily taken for a comparison.
  let guarded := body.isConditional && !body.startsWithForbidden false
  return .grouped (.cat [head,
    .grouped (.cat [
      .indent (.cat [.space, .when guarded (.ifFlat "("), printed, .when guarded (.ifFlat ")")]),
      .when closes (.cat [.ifBroken comma, .softline])])])

end Print

end Reflow
