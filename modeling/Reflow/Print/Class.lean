import Reflow.Print.Function

/-! # Classes

Classes, their members, and decorators. -/

namespace Reflow

namespace Form

/-- Is it an export? -/
def isExport (f : Form Node) : Bool :=
  f matches .exportNamedDeclaration .. | .exportDefaultDeclaration ..

/-- What is declared by an export. -/
def exported? : Form Node → Option Node
  | .exportNamedDeclaration declaration _ _ => declaration
  | .exportDefaultDeclaration declaration => some declaration
  | _ => none

end Form

/-- Do the decorators of an exported class stand before the export? -/
def Node.isDecoratedBeforeExport (n : Node) : Bool :=
  match n.form.exported? with
  | some declaration =>
    match declaration.form.decorators with
    | first :: _ => first.start ≤ n.start
    | [] => false
  | none => false

namespace Print

/-- Prints the decorators of a class, unless the export around it does. -/
def classDecorators? (print : PrintNode) (p : Path) : Print (Option Doc) := do
  match p.node.form with
  | .classDeclaration decorators _ _ _ _ =>
    if decorators.isEmpty || p.parent?.any Node.isDecoratedBeforeExport then return none
    let printed ← items print p .decorators decorators
    let start : Doc := if p.parentForm?.any Form.isExport then .hardline else .breakParent
    return some (.cat [start, .join .space printed, .space])
  | _ => return none

/-- Prints the decorators of a member; decorators on lines of their own stay there. -/
def memberDecorators (print : PrintNode) (p : Path) (decorators : List Node) : Print Doc := do
  if decorators.isEmpty then return .empty
  let source ← source
  let ownLine := decorators.any fun d => source.hasNewline d.stop false
  let printed ← items print p .decorators decorators
  return .grouped (.cat [.join .space printed, if ownLine then .hardline else .space])

/-- Prints a property of a class. -/
def classProperty (print : PrintNode) (p : Path) (decorators : List Node) (propertyKey : Node)
    (value : Option Node) (computed isStatic : Bool) : Print Doc := do
  let printedDecorators ← memberDecorators print p decorators
  let printedKey ← key print p propertyKey computed
  let printedValue ← match value with
    | some v => pure (Doc.cat [" =", ← valueBehind print p propertyKey .value v])
    | none => pure .empty
  return .grouped (.cat [printedDecorators, .when isStatic "static ", printedKey, printedValue,
    ← semicolon])

/-- Prints a class without its decorators. -/
def classDeclaration (print : PrintNode) (p : Path) (name superclass : Option Node) (body : Node) :
    Print Doc := do
  let a ← attachments
  let grouped := name.any a.hasTrailing || superclass.any a.has
  let printedName ← match name with
    | some n => pure (Doc.cat [" ", ← child print p .id n])
    | none => pure .empty
  let heritage ← match superclass with
    | some n =>
      let printed ← child print p .superclass n
      let whole ← withComments n (.cat ["extends ", printed])
      pure (Doc.cat [if grouped then .space else " ", whole])
    | none => pure .empty
  let heading : Doc := .cat [printedName, heritage]
  return .cat ["class", if grouped then .grouped (.indent heading) else heading, " ",
    ← child print p .body body]

end Print

end Reflow
