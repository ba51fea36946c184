import Reflow.Tree.Form
import Reflow.Source.Position

/-! # Syntax trees

A node has a form, a span of the source and a number that tells it from all other nodes of the tree.
A node that stands in two places, such as the key of a shorthand property that is its value as well,
has one number. -/

namespace Reflow

/-- A node of a syntax tree. -/
inductive Node where
  | mk (id : Nat) (span : Span) (form : Form Node)
  deriving Repr, Inhabited

namespace Node

/-- The number of the node. -/
def id : Node → Nat
  | mk id _ _ => id

/-- The range of the source that the node was read from. -/
def span : Node → Span
  | mk _ span _ => span

/-- The form of the node. -/
def form : Node → Form Node
  | mk _ _ form => form

/-- Offset of the first character. -/
def start (n : Node) : Nat := n.span.start.offset

/-- Offset behind the last character. -/
def stop (n : Node) : Nat := n.span.stop.offset

/-- The name of the node's form. -/
def typeName (n : Node) : String := n.form.typeName

/-- The same node with another span. -/
def withSpan (n : Node) (span : Span) : Node := mk n.id span n.form

/-- Are the two the same node? -/
def same (a b : Node) : Bool := a.id == b.id

/-- The children with their places, in order. -/
def placedChildren (n : Node) : List (Place × Node) := n.form.children

/-- Drops every node that is the same as the one before it. -/
def dropRepeated : Option Nat → List Node → List Node
  | _, [] => []
  | last, n :: rest =>
    if last == some n.id then dropRepeated last rest else n :: dropRepeated (some n.id) rest

/-- The children in order; one that stands in two adjacent places is given once. -/
def children (n : Node) : List Node := dropRepeated none (n.placedChildren.map (·.2))

/-- Dropping repeated nodes adds none. -/
theorem mem_of_mem_dropRepeated {n : Node} {last : Option Nat} {ns : List Node}
    (h : n ∈ dropRepeated last ns) : n ∈ ns := by
  induction ns generalizing last with
  | nil => cases h
  | cons m ns ih =>
    unfold dropRepeated at h
    split at h
    · exact List.mem_cons_of_mem _ (ih h)
    · rcases List.mem_cons.1 h with h | h
      · exact h ▸ List.mem_cons_self
      · exact List.mem_cons_of_mem _ (ih h)

/-- A node among several is smaller than the list of them. -/
theorem sizeOf_lt_of_mem_many {slot : Slot} {i : Nat} {p : Place × Node} {ns : List Node}
    (h : p ∈ placeAll slot i (ns.map some)) : sizeOf p.2 < sizeOf ns := by
  have := mem_of_mem_placeAll h
  simp only [List.mem_map, Option.some.injEq, exists_eq_right] at this
  exact List.sizeOf_lt_of_mem this

/-- So is one in a list with holes. -/
theorem sizeOf_lt_of_mem_holes {slot : Slot} {i : Nat} {p : Place × Node} {ns : List (Option Node)}
    (h : p ∈ placeAll slot i ns) : sizeOf p.2 < sizeOf ns := by
  have := List.sizeOf_lt_of_mem (mem_of_mem_placeAll h)
  simp only [Option.some.sizeOf_spec] at this
  omega

/-- The size of a field, as a bound on the sizes of its children. -/
noncomputable def fieldSize : Field Node → Nat
  | .one _ a => sizeOf a
  | .maybe _ a => sizeOf a
  | .many _ as => sizeOf as
  | .holes _ as => sizeOf as
  | .text .. | .flag .. => 0

/-- A child in a field is no larger than the field. -/
theorem sizeOf_le_of_mem_field {p : Place × Node} {f : Field Node} (h : p ∈ f.children) :
    sizeOf p.2 ≤ fieldSize f := by
  match f with
  | .one slot a => simp only [Field.children, List.mem_singleton] at h; subst h; simp [fieldSize]
  | .maybe slot (some a) =>
    simp only [Field.children, List.mem_singleton] at h; subst h; simp [fieldSize]
  | .maybe slot none => cases h
  | .many slot as => exact Nat.le_of_lt (sizeOf_lt_of_mem_many h)
  | .holes slot as => exact Nat.le_of_lt (sizeOf_lt_of_mem_holes h)
  | .text .. | .flag .. => cases h

/-- A field is smaller than the form. -/
theorem fieldSize_lt (form : Form Node) : ∀ f ∈ form.fields, fieldSize f < sizeOf form := by
  cases form <;> simp [Form.fields, fieldSize] <;> omega

/-- So a child is smaller than its node: functions on trees descend to children. -/
theorem sizeOf_placedChild_lt {p : Place × Node} {n : Node} (h : p ∈ n.placedChildren) :
    sizeOf p.2 < sizeOf n := by
  obtain ⟨f, hf, hp⟩ := List.mem_flatMap.1 h
  have h1 := sizeOf_le_of_mem_field hp
  have h2 := fieldSize_lt n.form f hf
  cases n
  simp only [form, Node.mk.sizeOf_spec] at h2 ⊢
  omega

/-- A child is smaller than its parent. -/
theorem sizeOf_child_lt {c n : Node} (h : c ∈ n.children) : sizeOf c < sizeOf n := by
  obtain ⟨p, hp, rfl⟩ := List.mem_map.1 (mem_of_mem_dropRepeated h)
  exact sizeOf_placedChild_lt hp

end Node

end Reflow
