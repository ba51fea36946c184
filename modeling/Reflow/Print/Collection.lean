import Reflow.Print.Function

/-! # Objects and arrays -/

namespace Reflow

/-- Does the part of a path with the given places and nodes lead to something that values are
assigned to?  The nearest parent that settles the question decides. -/
def isTarget (place : Option Place) : List PathStep → Bool
  | [] => false
  | step :: above =>
    let slot := place.map (·.slot)
    match step.node.form with
    | .functionDeclaration .. | .functionExpression .. | .arrowFunction .. | .classMethod ..
    | .objectMethod .. => slot == some .params
    | .variableDeclarator .. => slot == some .id
    | .assignmentExpression .. | .assignmentPattern .. => slot == some .left
    | .objectProperty .. => slot == some .value && isTarget step.place above
    | .objectExpression .. | .arrayExpression .. | .restElement .. => isTarget step.place above
    | _ => false

/-- Is the object or array at a path taken apart rather than built? -/
def Path.isPattern (p : Path) : Bool := isTarget p.place p.above

namespace Print

/-- Is the object at a path the parameter that hugs the parentheses of its function? -/
def isHugged (a : Attachments) (p : Path) : Bool :=
  p.place == some ⟨.params, some 0⟩
    && ((p.parentForm?.bind Form.params?).any (Node.hugsSoleParameter a))

/-- Is an object broken whatever its length?  A pattern is, if it takes apart what is inside a
property; any other object is, if its first property is on a line of its own in the source. -/
def breaksObject (source : Source) (p : Path) (properties : List Node) : Bool :=
  if p.isPattern then
    !(p.parentForm?.any fun f => f.params?.isSome || f matches .assignmentPattern ..)
      && properties.any fun n =>
        match n.form with
        | .objectProperty _ value _ shorthand => !shorthand && value.isCollection
        | _ => false
  else match properties with
    | first :: _ => source.hasNewlineInRange p.node.start first.start
    | [] => false

/-- Items with the separators between them; a blank line in the source is kept as `blank`. -/
def separated (blank : Doc) : List (Doc × Bool) → List Doc
  | [] => []
  | [(d, _)] => [d]
  | (d, blankBehind) :: rest =>
    d :: .cat [",", .space, .when blankBehind blank] :: separated blank rest

/-- An empty collection between its brackets. -/
def emptyCollection (n : Node) (opening closing : String) : Print Doc := do
  if !(← attachments).hasDangling n then return .text (opening ++ closing)
  return .grouped (.cat [.text opening, ← indentedDangling n, .softline, .text closing])

/-- Prints an object. -/
def object (print : PrintNode) (p : Path) (properties : List Node) : Print Doc := do
  let a ← attachments
  let source ← source
  if properties.isEmpty then return ← emptyCollection p.node "\x7b" "\x7d"
  let printed ← items print p .properties properties
  let blanks := properties.map fun n => source.isNextLineEmpty n.stop
  let parts := separated .hardline ((printed.map Doc.grouped).zip blanks)
  let endsInRest := properties.getLast?.any Node.isRest
  let content : Doc := .cat ["\x7b", .indent (.cat (.space :: parts)),
    .ifBroken (.when (!endsInRest) (← trailingComma)), .space, "\x7d"]
  if isHugged a p then return content
  return .group content (breaksObject source p properties)

/-- Prints an array. -/
def array (print : PrintNode) (p : Path) (elements : List (Option Node)) : Print Doc := do
  let source ← source
  if elements.isEmpty then return ← emptyCollection p.node "[" "]"
  let printed ← elements.zipIdx.mapM fun (e, i) =>
    match e with
    | some n => print (p.item .elements i n) {}
    | none => pure .empty
  let blanks := elements.map fun e => e.any fun n => source.isNextLineEmpty n.stop
  let parts := separated .softline ((printed.map Doc.grouped).zip blanks)
  let endsInRest := elements.getLast?.any fun e => e.any Node.isRest
  -- A hole at the end is kept by a comma behind it.
  let endsInHole := elements.getLast? matches some none
  let comma ← trailingComma
  return .grouped (.cat ["[", .indent (.cat (.softline :: parts)), .when endsInHole ",",
    .ifBroken (.when (!endsInRest && !endsInHole) comma), ← dangling p.node, .softline, "]"])

end Print

end Reflow
