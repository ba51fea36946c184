import Reflow.Tree.Path

/-! # Walks over a tree

The nodes of a tree in preorder, the height of a tree, and the innermost node at an offset. -/

namespace Reflow

/-- A path and the paths of all nodes below it, parents before their children. -/
def Path.preorder (p : Path) : List Path :=
  p :: (p.node.placedChildren.attach.flatMap fun ⟨c, _⟩ => (p.childAt c.1 c.2).preorder)
termination_by sizeOf p.node
decreasing_by exact Node.sizeOf_placedChild_lt (by assumption)

/-- The number of nodes on the longest way down from a node. -/
def Node.height (n : Node) : Nat :=
  (n.children.attach.map fun ⟨c, _⟩ => c.height).foldr max 0 + 1
termination_by sizeOf n
decreasing_by exact Node.sizeOf_child_lt (by assumption)

/-- Does an offset lie in the node, its end left out? -/
def Node.holds (n : Node) (offset : Int) : Bool := n.start ≤ offset && offset < n.stop

/-- The innermost node below a node that holds an offset. -/
def Node.innermost (offset : Int) (n : Node) : Node :=
  match h : n.children.find? (·.holds offset) with
  | some child => child.innermost offset
  | none => n
termination_by sizeOf n
decreasing_by exact Node.sizeOf_child_lt (List.mem_of_find?_eq_some h)

/-- The innermost node of a tree at an offset, if the offset lies in the tree or at its end. -/
def Node.atOffset? (root : Node) (offset : Int) : Option Node :=
  if root.start ≤ offset && offset ≤ root.stop then some (root.innermost offset) else none

end Reflow
