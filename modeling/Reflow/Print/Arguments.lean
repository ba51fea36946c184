import Reflow.Print.Comments
import Reflow.Print.TestCall

/-! # Arguments of calls

Arguments stay on the line of the call, or the first or last of them hugs the parentheses, or each
goes on a line of its own. -/

namespace Reflow

namespace Node

/-- The names of functions that compose other functions. -/
def compositionNames : List String :=
  ["pipe", "pipeP", "pipeK", "compose", "composeFlipped", "composeP", "composeK", "flow",
   "flowRight", "connect", "createSelector"]

/-- Is it a function that composes its arguments? -/
def composesFunctions : Node → Bool
  | .mk _ _ (.memberExpression _ property _ _) =>
    property.composesFunctions && !property.isNamed ["connect"]
  | .mk _ _ (.identifier name) => compositionNames.contains name
  | .mk _ _ (.stringLiteral value _) => compositionNames.contains value
  | _ => false

/-- May the argument hug the parentheses of its call? -/
def canHug (a : Attachments) (n : Node) : Bool :=
  match n.form with
  | .objectExpression properties => !properties.isEmpty || a.has n
  | .arrayExpression elements => !elements.isEmpty || a.has n
  | .functionExpression .. => true
  | .arrowFunction _ body _ =>
    body.isBlock || body.isArrow || body.isCollection || body.isCall || body.isConditional
      || body.isMarkup
  | _ => false

end Node

/-- The argument that hugs the parentheses of its call. -/
inductive HuggedArgument where
  | first
  | last
  deriving Repr, DecidableEq

/-- Which argument hugs the parentheses, if one does. -/
def huggedArgument? (a : Attachments) (arguments : List Node) : Option HuggedArgument :=
  let hugsFirst : Bool := match arguments with
    | [first, second] =>
      !a.has first && first.isFunctionWithBlock
        && !(second.isFunctionOrArrow || second.isConditional) && !second.canHug a
    | _ => false
  let hugsLast : Bool := match arguments.reverse with
    | last :: before =>
      !a.hasLeading last && !a.hasTrailing last && last.canHug a
        && !before.head?.any fun n => n.form.sameKind last.form
    | [] => false
  if hugsFirst then some .first else if hugsLast then some .last else none

/-- Are the arguments a function without parameters and the list of what it depends on? -/
def isEffectWithDependencies (a : Attachments) (arguments : List Node) : Bool :=
  match arguments with
  | [effect, dependencies] =>
    (match effect.form with
      | .arrowFunction [] body _ => body.isBlock
      | _ => false)
      && dependencies.isArray && !a.has effect && !a.has dependencies
  | _ => false

/-- Printed arguments, each but the last with its separator. -/
structure PrintedArguments where
  docs : List Doc
  /-- Is there a blank line behind the first one? -/
  blankAfterFirst : Bool
  /-- Is there a blank line behind one of them? -/
  anyBlank : Bool
  /-- The comma behind the last one, if there is to be one. -/
  comma : Doc

namespace PrintedArguments

/-- Each argument on a line of its own. -/
def brokenOut (x : PrintedArguments) : Doc :=
  .group (.cat ["(", .indent (.cat (.space :: x.docs)), x.comma, .space, ")"]) true

/-- All arguments on one line, or each on its own. -/
def plain (x : PrintedArguments) : Doc :=
  .group (.cat ["(", .indent (.cat (.softline :: x.docs)), .ifBroken x.comma, .softline, ")"])
    (Doc.anyWillBreak x.docs || x.anyBlank)

/-- The arguments as they are when one of them hugs the parentheses; `expanded` is that argument,
printed for it. -/
def expandedDocs (x : PrintedArguments) (which : HuggedArgument) (expanded : Doc) : List Doc :=
  match which with
  | .first =>
    let gap : List Doc := if x.blankAfterFirst then [.hardline, .hardline] else [.space]
    .cat ([expanded, .text ","] ++ gap) :: x.docs.drop 1
  | .last => x.docs.dropLast ++ [expanded]

/-- The choice between all arguments on one line, one of them hugging, and each on its own. -/
def hugging (x : PrintedArguments) (which : HuggedArgument) (expanded : Doc) : Doc :=
  let docs := x.expandedDocs which expanded
  let others := match which with
    | .first => x.docs.drop 1
    | .last => x.docs.dropLast
  let someBreak := Doc.anyWillBreak x.docs
  let oneLine : Doc := .cat [
    .ifBreak (.indent (.cat (.text "(" :: .softline :: docs))) (.cat (.text "(" :: docs)),
    .when someBreak (.cat [.ifBroken x.comma, .softline]), ")"]
  let broken (d : Doc) : Doc := .group d true
  let hugged : Doc := match which with
    | .first => .enclosed "(" ((docs.take 1).map broken ++ docs.drop 1) ")"
    | .last => .enclosed "(" (x.docs.dropLast ++ [broken expanded]) ")"
  .cat [.when someBreak .breakParent,
    .alternatives oneLine [hugged, x.brokenOut] (Doc.anyWillBreak others || x.anyBlank)]

end PrintedArguments

namespace Print

/-- Prints each argument with its separator. -/
def separateArguments (print : PrintNode) (p : Path) (arguments : List Node) :
    Print PrintedArguments := do
  let source ← source
  let last := arguments.length - 1
  let blanks := arguments.zipIdx.map fun (n, i) => i != last && source.isNextLineEmpty n.stop
  let printed ← items print p .arguments arguments
  let docs : List Doc := (printed.zip blanks).zipIdx.map fun ((d, blank), i) =>
    if i = last then .cat [d]
    else if blank then .cat [d, ",", .hardline, .hardline]
    else .cat [d, ",", .space]
  return { docs, blankAfterFirst := blanks.head?.getD false, anyBlank := blanks.any id,
           comma := ← argumentComma }

/-- Prints the arguments of a call in their parentheses. -/
def arguments (print : PrintNode) (p : Path) (callee : Node) (arguments : List Node) :
    Print Doc := do
  let a ← attachments
  if arguments.isEmpty then
    return .cat ["(", ← dangling p.node, ")"]
  if isEffectWithDependencies a arguments then
    return .enclosed "(" ((← items print p .arguments arguments).intersperse ", ") ")"
  let separate ← separateArguments print p arguments
  if callee.composesFunctions && 1 < arguments.length then
    return separate.brokenOut
  match huggedArgument? a arguments, arguments.head?, arguments.getLast? with
  | some .first, some first, _ =>
    let expanded ← print (p.item .arguments 0 first) { expandFirst := true }
    return separate.hugging .first expanded
  | some .last, _, some last =>
    let expanded ← print (p.item .arguments (arguments.length - 1) last) { expandLast := true }
    return separate.hugging .last expanded
  | _, _, _ => return separate.plain

end Print

end Reflow
