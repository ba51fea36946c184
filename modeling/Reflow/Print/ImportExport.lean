import Reflow.Print.Class

/-! # Imports and exports -/

namespace Reflow

/-- Are there braces with nothing but white space between them? -/
def holdsEmptyBraces : List Char → Bool
  | [] => false
  | c :: rest =>
    (c == '\x7b' && (rest.dropWhile Text.isSpace).head? == some '\x7d') || holdsEmptyBraces rest

namespace Print

/-- Names in braces, which break onto lines of their own. -/
def bracedNames (printed : List Doc) : Print Doc := do
  return .grouped (.cat ["\x7b", .indent (.cat [.space, .join (.cat [",", .space]) printed]),
    .ifBroken (← trailingComma), .space, "\x7d"])

/-- Prints an import. -/
def importDeclaration (print : PrintNode) (p : Path) (specifiers : List Node) (origin : Node) :
    Print Doc := do
  let a ← attachments
  let source ← source
  let printed ← items print p .specifiers specifiers
  let inBraces (n : Node) : Bool := n.form matches .importSpecifier ..
  let pairs := specifiers.zip printed
  let named := (pairs.filter fun x => inBraces x.1).map (·.2)
  let standalone := (pairs.filter fun x => !inBraces x.1).map (·.2)
  let names ← match standalone, named with
    | _, [] => pure .empty
    | [], [only] =>
      if specifiers.any a.has then bracedNames named else pure (.cat ["\x7b ", only, " \x7d"])
    | _, _ => bracedNames named
  let clause : Doc :=
    if !specifiers.isEmpty then
      .cat [.join ", " standalone, .when (!standalone.isEmpty && !named.isEmpty) ", ", names, " from "]
    else .when (holdsEmptyBraces (source.slice p.node.start origin.start)) "\x7b\x7d from "
  return .cat ["import ", clause, ← child print p .source origin, ← semicolon]

/-- Prints a name with its other name, if it has one. -/
def renamed (print : PrintNode) (p : Path) (slot : Slot) (n : Node) (otherSlot : Slot) (other : Node) :
    Print Doc := do
  let printed ← child print p slot n
  if n.same other then return .cat [printed]
  return .cat [printed, " as ", ← child print p otherSlot other]

/-- Prints an export up to its keywords, with the comments behind them. -/
def exportHead (print : PrintNode) (p : Path) (isDefault : Bool) : Print Doc := do
  let decorators ← match p.node.form.exported? with
    | some declaration =>
      if p.node.isDecoratedBeforeExport then do
        let q := p.child .declaration declaration
        let printed ← items print q .decorators declaration.form.decorators
        pure (Doc.cat [.join .hardline printed, .hardline])
      else pure .empty
    | none => pure .empty
  let inside := (← attachments).inRole .dangling p.node
  let comments ← dangling p.node
  let lineComment := inside.getLast?.any fun x => !x.comment.isBlock
  return .cat [decorators, "export", .when isDefault " default", comments,
    .when lineComment .hardline]

/-- Prints an export of a declaration. -/
def exportOf (print : PrintNode) (p : Path) (declaration : Node) (isDefault : Bool) : Print Doc := do
  let head ← exportHead print p isDefault
  let printed ← child print p .declaration declaration
  let ends := isDefault
    && !(declaration.form matches .classDeclaration .. | .functionDeclaration ..
      | .functionExpression ..)
  return .cat [head, " ", printed, .when ends (← semicolon)]

/-- Prints an export of names. -/
def exportNames (print : PrintNode) (p : Path) (specifiers : List Node) (origin : Option Node) :
    Print Doc := do
  let head ← exportHead print p false
  let a ← attachments
  let printed ← items print p .specifiers specifiers
  let names ← match printed with
    | [] => pure (" \x7b\x7d" : Doc)
    | [only] =>
      if specifiers.any a.has then pure (.cat [" ", ← bracedNames printed])
      else pure (.cat [" \x7b ", only, " \x7d"])
    | _ => pure (.cat [" ", ← bracedNames printed])
  let source ← match origin with
    | some n => pure (Doc.cat [" from ", ← child print p .source n])
    | none => pure .empty
  return .cat [head, names, source, ← semicolon]

end Print

end Reflow
