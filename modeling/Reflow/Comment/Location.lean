import Reflow.Token.Basic
import Reflow.Tree.Node

/-! # Locating comments in a tree

The smallest node around a comment, and the nearest children of that node before and after it.  The
children of a node are sorted and searched by halving. -/

namespace Reflow

/-- The place of a comment in a tree. -/
structure CommentLocation where
  /-- The smallest node around the comment; `none` if that is the root. -/
  enclosing : Option Node := none
  preceding : Option Node := none
  following : Option Node := none
  deriving Inhabited

/-- Does one node start before another, or end before it if both start together? -/
def Node.startsBefore (a b : Node) : Bool :=
  a.start < b.start || (a.start == b.start && a.stop ≤ b.stop)

/-- The children of a node from left to right. -/
def Node.sortedChildren (n : Node) : List Node := n.children.mergeSort Node.startsBefore

/-- Does a node contain a comment? -/
def Node.encloses (n : Node) (c : Comment) : Bool := n.start ≤ c.start && c.stop ≤ n.stop

/-- What the search among children finds. -/
inductive ChildSearch where
  /-- The child with this index contains the comment. -/
  | inside (index : Nat)
  /-- No child does; these are the nearest ones. -/
  | between (preceding following : Option Node)

/-- Searches the sorted children from index `left` to index `right` for the place of a comment. -/
def searchChildren (children : List Node) (c : Comment) (left right : Nat)
    (preceding following : Option Node) : ChildSearch :=
  if h : left < right then
    let middle := (left + right) / 2
    match children[middle]? with
    | none => .between preceding following
    | some child =>
      if child.encloses c then .inside middle
      else if child.stop ≤ c.start then
        searchChildren children c (middle + 1) right (some child) following
      else if c.stop ≤ child.start then
        searchChildren children c left middle preceding (some child)
      else .between preceding following
  else .between preceding following
termination_by right - left

/-- The index of the expression of a template that an offset lies in. -/
def templateIndex (quasis : List Node) (offset : Nat) : Nat :=
  ((quasis.drop 1).findIdx? fun q => offset < q.start).getD (quasis.length - 1)

/-- In a template only the neighbours in the same expression count. -/
def CommentLocation.withinExpression (l : CommentLocation) (c : Comment) : CommentLocation :=
  match l.enclosing.map Node.form with
  | some (.templateLiteral quasis _) =>
    let here := templateIndex quasis c.start
    let near (n : Node) : Bool := templateIndex quasis n.start == here
    { l with preceding := l.preceding.filter near, following := l.following.filter near }
  | _ => l

/-- The place of a comment below a node. -/
def locateBelow (c : Comment) (enclosing : Option Node) (n : Node) : CommentLocation :=
  let children := n.sortedChildren
  match searchChildren children c 0 children.length none none with
  | .between preceding following => { enclosing, preceding, following }
  | .inside index =>
    match h : children[index]? with
    | some child => locateBelow c (some child) child
    | none => { enclosing }
termination_by sizeOf n
decreasing_by
  have := List.mem_of_getElem? h
  exact Node.sizeOf_child_lt (List.mem_mergeSort.1 this)

/-- The place of a comment in a tree. -/
def locate (root : Node) (c : Comment) : CommentLocation :=
  (locateBelow c none root).withinExpression c

end Reflow
