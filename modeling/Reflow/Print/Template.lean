import Reflow.Layout.Limit
import Reflow.Print.Comments
import Reflow.Tree.Kind

/-! # Templates

Template literals keep their texts; the expressions in them may break at their braces. -/

namespace Reflow

namespace Node

/-- The raw text of a part of a template. -/
def rawText (n : Node) : String :=
  match n.form with
  | .templateElement raw _ => raw
  | _ => ""

/-- Does the text of a template span several lines? -/
def templateSpansLines (n : Node) : Bool :=
  match n.form with
  | .templateLiteral quasis _ => quasis.any fun q => q.rawText.contains '\n'
  | _ => false

/-- Is it a template over several lines that starts on the line of the code before it? -/
def isHangingTemplate (n : Node) (source : Source) : Bool :=
  let spans := match n.form with
    | .taggedTemplate _ quasi => quasi.templateSpansLines
    | _ => n.templateSpansLines
  spans && !source.hasNewline n.start true

/-- Is it a name, or a chain of plain accesses that starts at one, without comments?  The comments
of the node itself are not looked at. -/
def isPlainAccess (a : Attachments) : Node → Bool
  | .mk _ _ (.identifier _) => true
  | .mk _ _ .thisExpression => true
  | .mk _ _ (.memberExpression object property _ _) =>
    (property.isIdentifier || property.isString || property.isNumber) && !a.has object
      && object.isPlainAccess a
  | _ => false

end Node

/-- The lines of the raw text of a template, without their line ends. -/
def templateLines (raw : String) : List (List Char) :=
  let chop (line : List Char) : List Char :=
    if line.getLast? == some '\r' then line.dropLast else line
  let lines := Text.splitAt '\n' raw.toList
  lines.dropLast.map chop ++ lines.getLast?.toList

/-- The document of the raw text of a template. -/
def templateText (raw : String) : Doc :=
  .join .literalline ((templateLines raw).map fun line => .text (String.ofList line))

/-- The quote of a template. -/
def templateMark : Doc := .text (String.singleton templateQuote)

/-- The settings under which a simple expression stays on its line, whatever its length. -/
def unlimited (options : Options) : Layout.Settings := { options.settings with width := Nat.pow 2 63 - 1 }

namespace Print

/-- The text of a document that stays on its line. -/
def onOneLine (options : Options) (d : Doc) : Print Doc := do
  let rendered ← Run.within (Layout.renderWithin (unlimited options) d)
  return .text rendered.text

/-- Prints a template literal. -/
def templateLiteral (print : PrintNode) (p : Path) (quasis expressions : List Node) :
    Print Doc := do
  let a ← attachments
  let options ← options
  let printed ← items print p .expressions expressions
  let simple := !expressions.isEmpty && expressions.all fun e => !a.has e && e.isPlainAccess a
  let printed ← if simple then printed.mapM (onOneLine options) else pure printed
  let hole (e : Node) (d : Doc) : Doc :=
    let inner : Doc :=
      if simple then d
      else if a.has e || e.isMember || e.isConditional || e.isSequence || e.isBinary then .softBlock d
      else d
    .grouped (.cat ["$\x7b", inner, .suffixBoundary, "\x7d"])
  let texts ← items print p .quasis quasis
  let holes : List Doc := (expressions.zip printed).map fun (e, d) => hole e d
  let pairs := texts.zipIdx.flatMap fun (text, i) => text :: (holes[i]?).toList
  return .cat ([.suffixBoundary, templateMark] ++ pairs ++ [templateMark])

end Print

end Reflow
