import Reflow.Tree.Node

/-! # Paths

A node together with the way from the root down to it. -/

namespace Reflow

/-- A node and its place in its parent. -/
structure PathStep where
  node : Node
  place : Option Place := none
  deriving Inhabited

/-- A node, its place in its parent, and the nodes above it, the parent first. -/
structure Path where
  node : Node
  place : Option Place := none
  above : List PathStep := []
  deriving Inhabited

namespace Path

/-- The path of a root. -/
def ofRoot (n : Node) : Path := { node := n }

/-- The path of a child. -/
def child (p : Path) (slot : Slot) (n : Node) : Path :=
  { node := n, place := some ⟨slot, none⟩, above := ⟨p.node, p.place⟩ :: p.above }

/-- The path of a child in a list. -/
def item (p : Path) (slot : Slot) (index : Nat) (n : Node) : Path :=
  { node := n, place := some ⟨slot, some index⟩, above := ⟨p.node, p.place⟩ :: p.above }

/-- The path of a child at a place. -/
def childAt (p : Path) (place : Place) (n : Node) : Path :=
  { node := n, place := some place, above := ⟨p.node, p.place⟩ :: p.above }

/-- The paths of all children in a list. -/
def items (p : Path) (slot : Slot) (ns : List Node) : List Path :=
  ns.zipIdx.map fun (n, i) => p.item slot i n

/-- The node some steps above the parent. -/
def ancestor? (p : Path) (level : Nat) : Option Node := p.above[level]?.map (·.node)

/-- The parent. -/
def parent? (p : Path) : Option Node := p.ancestor? 0

/-- The form of the parent. -/
def parentForm? (p : Path) : Option (Form Node) := p.parent?.map Node.form

/-- The form of the parent's parent. -/
def grandparentForm? (p : Path) : Option (Form Node) := (p.ancestor? 1).map Node.form

/-- The slot of the parent that the node is in. -/
def slot? (p : Path) : Option Slot := p.place.map (·.slot)

/-- The index of the node in its slot. -/
def index? (p : Path) : Option Nat := p.place.bind (·.index)

end Path

end Reflow
