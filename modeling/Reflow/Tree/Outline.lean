import Reflow.Comment.Attachment
import Reflow.Text.Quoted
import Reflow.Text.Trim

/-! # Outlines of trees

A tree as indented text with one node a line: its place in the parent, the name of its form, its
texts and flags, and where it starts.  Its comments follow, and then its children. -/

namespace Reflow

/-- How a text or a flag that is set is shown; children are not. -/
def Field.shown? {α : Type} : Field α → Option String
  | .text label value => some (label ++ "=" ++ Text.quoted value)
  | .flag label true => some (label ++ "=True")
  | _ => none

namespace Node

/-- The line of a node. -/
def headline (n : Node) : String :=
  let shown := n.form.fields.filterMap Field.shown?
  let details := String.join (shown.map (" " ++ ·))
  n.typeName ++ details ++ " @" ++ toString n.span.start.line ++ ":" ++ toString n.span.start.column

/-- The line of a comment. -/
def commentLine (a : Attachment) : String :=
  "comment (" ++ a.role.name ++ ") " ++ Text.quoted a.comment.text

/-- The outline of a node at a depth. -/
def outlineAt (comments : Attachments) (depth : Nat) (label : String) (n : Node) : String :=
  let line (depth : Nat) (s : String) : String := Text.repeated depth "  " ++ s ++ "\n"
  let children := n.placedChildren.attach.map fun ⟨p, _⟩ =>
    outlineAt comments (depth + 1) (p.1.label ++ ": ") p.2
  line depth (label ++ n.headline)
    ++ String.join ((comments.of n).map fun a => line (depth + 1) (commentLine a))
    ++ String.join children
termination_by sizeOf n
decreasing_by exact sizeOf_placedChild_lt (by assumption)

/-- The outline of a tree. -/
def outline (root : Node) (comments : Attachments) : String := outlineAt comments 0 "" root

end Node

end Reflow
