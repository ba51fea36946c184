import Reflow.Token.Basic
import Reflow.Tree.Node

/-! # Attached comments

A comment belongs to one node, before it, behind it or inside it. -/

namespace Reflow

/-- Where a comment stands relative to its node. -/
inductive CommentRole where
  | leading
  | trailing
  /-- Inside the node, but next to none of its children. -/
  | dangling
  deriving Repr, DecidableEq, Inhabited

/-- The name of a role. -/
def CommentRole.name : CommentRole → String
  | .leading => "leading"
  | .trailing => "trailing"
  | .dangling => "dangling"

/-- Where a comment stands on its line. -/
inductive CommentPlacement where
  /-- First on its line. -/
  | ownLine
  /-- Last on its line. -/
  | endOfLine
  /-- With code on both sides. -/
  | remaining
  deriving Repr, DecidableEq, Inhabited

/-- The name of a placement. -/
def CommentPlacement.name : CommentPlacement → String
  | .ownLine => "own-line"
  | .endOfLine => "end-of-line"
  | .remaining => "remaining"

/-- A comment attached to the node with number `owner`. -/
structure Attachment where
  owner : Nat
  comment : Comment
  role : CommentRole
  placement : CommentPlacement
  deriving Repr, DecidableEq, Inhabited

/-- The attached comments of a tree, in the order in which they were attached. -/
structure Attachments where
  all : List Attachment := []
  deriving Repr, DecidableEq, Inhabited

namespace Attachments

/-- The comments of a node. -/
def of (a : Attachments) (n : Node) : List Attachment := a.all.filter (·.owner == n.id)

/-- The comments of a node in one role. -/
def inRole (a : Attachments) (role : CommentRole) (n : Node) : List Attachment :=
  (a.of n).filter (·.role == role)

/-- Has the node comments? -/
def has (a : Attachments) (n : Node) : Bool := !(a.of n).isEmpty

/-- Has the node comments before it? -/
def hasLeading (a : Attachments) (n : Node) : Bool := !(a.inRole .leading n).isEmpty

/-- Has the node comments behind it? -/
def hasTrailing (a : Attachments) (n : Node) : Bool := !(a.inRole .trailing n).isEmpty

/-- Has the node comments inside it? -/
def hasDangling (a : Attachments) (n : Node) : Bool := !(a.inRole .dangling n).isEmpty

/-- The attachment of a comment. -/
def find? (a : Attachments) (c : Comment) : Option Attachment :=
  a.all.find? (·.comment.start == c.start)

/-- Attaches one more comment. -/
def add (a : Attachments) (x : Attachment) : Attachments := ⟨a.all ++ [x]⟩

@[simp] theorem all_add (a : Attachments) (x : Attachment) : (a.add x).all = a.all ++ [x] := rfl

end Attachments

end Reflow
