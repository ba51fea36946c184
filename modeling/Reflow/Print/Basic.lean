import Reflow.Comment.Attachment
import Reflow.Format.Fault
import Reflow.Format.Note
import Reflow.Tree.Path

/-! # Printing

The surroundings in which the nodes of a tree are printed to documents.  A printer reads a context,
marks the comments that it prints and may give up. -/

namespace Reflow

/-- A computation that leaves notes and may give up; its notes stay either way. -/
abbrev Run := ExceptT FormatFault (StateM (List Note))

/-- Leaves a note. -/
def Run.note (n : Note) : Run Unit := modify (· ++ [n])

/-- What may pass a limit, as a run. -/
def Run.within {α : Type} (result : Except Limit α) : Run α :=
  match result with
  | .ok a => return a
  | .error limit => throw (.limit limit)

/-- What the printers of one tree share. -/
structure PrintContext where
  options : Options
  source : Source
  /-- All comments of the source, in order. -/
  comments : List Comment
  attachments : Attachments
  /-- Is the source a fragment in its wrapper? -/
  fragment : Bool := false
  /-- The number of the node that the cursor is in. -/
  cursorNode : Option Nat := none
  /-- The document of a text in another language. -/
  textToDoc : Language → String → Run Doc

/-- The comments printed so far, by the offsets at which they start. -/
structure PrintedComments where
  starts : List Nat := []
  deriving Repr, DecidableEq, Inhabited

/-- Marks a comment. -/
def PrintedComments.insert (p : PrintedComments) (c : Comment) : PrintedComments :=
  if p.starts.contains c.start then p else ⟨c.start :: p.starts⟩

/-- Is the comment marked? -/
def PrintedComments.contains (p : PrintedComments) (c : Comment) : Bool := p.starts.contains c.start

/-- A computation in a context that marks comments. -/
abbrev Print := ReaderT PrintContext (StateT PrintedComments Run)

/-- What a parent asks of the child that it prints. -/
structure PrintFlags where
  /-- The first argument of a call, which hugs the parentheses. -/
  expandFirst : Bool := false
  /-- The last argument of a call, which hugs the parentheses. -/
  expandLast : Bool := false
  /-- Whether a tag is closed at once, if its own form is not to decide. -/
  selfClosing : Option Bool := none
  /-- A semicolon is put in front. -/
  needsSemicolon : Bool := false
  deriving Repr, DecidableEq, Inhabited

/-- Prints a node, with all that belongs around it. -/
abbrev PrintNode := Path → PrintFlags → Print Doc

/-- A document, or nothing if the condition fails. -/
def Doc.when (condition : Bool) (d : Doc) : Doc := if condition then d else .empty

/-- A document that stands only in a broken group. -/
def Doc.ifBroken (d : Doc) : Doc := .ifBreak d .empty

/-- A document that stands only in a group on one line. -/
def Doc.ifFlat (d : Doc) : Doc := .ifBreak .empty d

/-- The parts indented, between two breaks that print nothing on one line. -/
def Doc.softBlock (d : Doc) : Doc := .cat [.indent (.cat [.softline, d]), .softline]

/-- Parts between two texts. -/
def Doc.enclosed (opening : String) (parts : List Doc) (closing : String) : Doc :=
  .cat (.text opening :: parts ++ [.text closing])

namespace Print

/-- The options of the call. -/
def options : Print Options := return (← read).options

/-- The source of the tree. -/
def source : Print Source := return (← read).source

/-- The attached comments. -/
def attachments : Print Attachments := return (← read).attachments

/-- Has the node comments? -/
def hasComments (n : Node) : Print Bool := return (← attachments).has n

/-- Leaves a note. -/
def note (n : Note) : Print Unit := Run.note n

/-- Marks a comment as printed. -/
def mark (c : Comment) : Print Unit := modify (·.insert c)

/-- Marks all comments inside a range as printed. -/
def markRange (start stop : Nat) : Print Unit := do
  ((← read).comments.filter fun c => start ≤ c.start && c.stop ≤ stop).forM mark

/-- The semicolon that ends a statement, if there are any. -/
def semicolon : Print Doc := return .when (← options).semi ";"

/-- The comma behind the last item of a list, where commas are wanted there. -/
def trailingComma : Print Doc := return .when ((← options).trailingComma != .none) ","

/-- The comma behind the last argument or parameter, where commas are wanted even there. -/
def argumentComma : Print Doc := return .when ((← options).trailingComma == .all) ","

/-- Prints the child of a slot. -/
def child (print : PrintNode) (p : Path) (slot : Slot) (n : Node) : Print Doc :=
  print (p.child slot n) {}

/-- Prints all children of a slot. -/
def items (print : PrintNode) (p : Path) (slot : Slot) (ns : List Node) : Print (List Doc) :=
  (p.items slot ns).mapM fun q => print q {}

end Print

end Reflow
