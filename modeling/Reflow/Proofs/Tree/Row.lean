import Reflow.Tree.Kind
import Mathlib.Data.List.Nodup
import Mathlib.Data.List.Pairwise

/-!
# Rows of nodes

The children of a node, each given once and from left to right, are its row.  A shorthand property
with a default holds its key twice, as its own child and as the target of the default; its row is the
default alone, so that the rows of a tree reach every node by one way only.

`Row i p l j q` says what a parser built when it put the nodes `l` next to each other: all numbers in
their trees are different and were handed out from `i` to `j`, the spans lie between the offsets `p`
and `q` one behind the other, decorators start at `p` or later, every node in the trees is `Sound`,
and every node of the row takes in what stands in its own row.  A class behind `export default` may
have decorators in front of it; until the export is made there is a `Loose` row only.

## Key results

- `Row.append`, `Row.node`: rows are put together, and closed to one node
- `Loose.exportDefault`: an export takes in the decorators in front of its class
- `Node.row_parent_unique`: a node stands in the row of one node only
-/

namespace Reflow

/-- Two lists in turn, up to the end of the shorter one; what is left of the other follows. -/
def interleave {α : Type} : List α → List α → List α
  | a :: as, b :: bs => a :: b :: interleave as bs
  | as, [] => as
  | [], bs => bs

/-- Two lists that are taken in turn are all of both. -/
theorem interleave_perm {α : Type} (as bs : List α) : (interleave as bs).Perm (as ++ bs) := by
  fun_induction interleave as bs with
  | case1 a as b bs ih =>
    have h : (b :: interleave as bs).Perm (as ++ b :: bs) :=
      (ih.cons b).trans List.perm_middle.symm
    exact h.cons a
  | case2 as => simp
  | case3 bs => exact .refl _

/-- Nodes whose spans lie one behind the other between two offsets. -/
def InOrder (p : Nat) : List Node → Nat → Prop
  | [], _ => True
  | n :: rest, q => p ≤ n.start ∧ n.start ≤ n.stop ∧ n.stop ≤ q ∧ InOrder n.stop rest q

namespace InOrder

variable {p p' q q' : Nat} {l l' : List Node}

/-- Nodes between two places are between places further apart. -/
theorem widen (h : InOrder p l q) (hp : p' ≤ p) (hq : q ≤ q') : InOrder p' l q' := by
  induction l generalizing p p' with
  | nil => exact trivial
  | cons n rest ih =>
    obtain ⟨h1, h2, h3, h4⟩ := h
    exact ⟨Nat.le_trans hp h1, h2, Nat.le_trans h3 hq, ih h4 (Nat.le_refl _)⟩

/-- Nodes may be put one behind the other. -/
theorem append (h : InOrder p l q) (h' : InOrder p' l' q') (hp : p ≤ p') (hq : q ≤ p')
    (hq' : q ≤ q') : InOrder p (l ++ l') q' := by
  induction l generalizing p with
  | nil => exact h'.widen hp (Nat.le_refl _)
  | cons n rest ih =>
    obtain ⟨h1, h2, h3, h4⟩ := h
    exact ⟨h1, h2, Nat.le_trans h3 hq', ih h4 (Nat.le_trans h3 hq)⟩

/-- Each of the nodes is between the places. -/
theorem of_mem (h : InOrder p l q) {n : Node} (hn : n ∈ l) :
    p ≤ n.start ∧ n.start ≤ n.stop ∧ n.stop ≤ q := by
  induction l generalizing p with
  | nil => cases hn
  | cons m rest ih =>
    obtain ⟨h1, h2, h3, h4⟩ := h
    rcases List.mem_cons.1 hn with rfl | hn
    · exact ⟨h1, h2, h3⟩
    · have := ih h4 hn
      omega

/-- Of two different nodes in order one lies behind the other. -/
theorem apart (h : InOrder p l q) {a b : Node} (ha : a ∈ l) (hb : b ∈ l) (hab : a ≠ b) :
    a.stop ≤ b.start ∨ b.stop ≤ a.start := by
  induction l generalizing p with
  | nil => cases ha
  | cons n rest ih =>
    obtain ⟨-, -, -, hrest⟩ := h
    rcases List.mem_cons.1 ha with rfl | ha' <;> rcases List.mem_cons.1 hb with rfl | hb'
    · exact absurd rfl hab
    · exact .inl (hrest.of_mem hb').1
    · exact .inr (hrest.of_mem ha').1
    · exact ih hrest ha' hb'

end InOrder

/-- The members that are there are those of the options. -/
theorem filterMap_id_eq {α : Type} (as : List (Option α)) :
    as.filterMap id = as.flatMap Option.toList := by
  induction as with
  | nil => rfl
  | cons a as ih => cases a <;> simpa using ih

@[simp] theorem flatMap_toList_some {α : Type} (as : List α) :
    (as.map some).flatMap Option.toList = as := by
  rw [← filterMap_id_eq]
  simp

@[simp] theorem map_snd_placeAll {α : Type} (slot : Slot) (i : Nat) (as : List (Option α)) :
    (placeAll slot i as).map (·.2) = as.flatMap Option.toList := by
  induction as generalizing i with
  | nil => rfl
  | cons a as ih => cases a <;> simp [placeAll, ih]

-- the children of a form are read off its fields
attribute [local simp] Form.fields

/-- The children in a field without their places. -/
@[simp] theorem map_snd_field_children {α : Type} (f : Field α) :
    f.children.map (·.2) = match f with
      | .one _ a => [a]
      | .maybe _ a => a.toList
      | .many _ as => as
      | .holes _ as => as.flatMap Option.toList
      | .text .. | .flag .. => [] := by
  cases f with
  | maybe slot a => cases a <;> rfl
  | many slot as => simp [Field.children]
  | holes slot as => simp [Field.children]
  | _ => rfl

/-- Is the row of a form the list of its children, all of them inside its span? -/
def Form.isPlain {α : Type} : Form α → Bool
  | .objectProperty _ _ _ true | .templateLiteral .. | .classDeclaration .. => false
  | _ => true

/-- Can one node stand in two places of the form? -/
def Form.mayRepeat {α : Type} : Form α → Bool
  | .objectProperty _ _ _ true | .importSpecifier .. | .exportSpecifier .. => true
  | _ => false

namespace Node

/-- Where no numbers are the same nothing is dropped. -/
theorem dropRepeated_of_nodup {last : Option Nat} {l : List Node} (h : (l.map id).Nodup)
    (hlast : ∀ n ∈ l, last ≠ some n.id) : dropRepeated last l = l := by
  induction l generalizing last with
  | nil => rfl
  | cons n rest ih =>
    have hne : ∀ m ∈ rest, some n.id ≠ some m.id := by
      intro m hm he
      exact (List.nodup_cons.1 h).1 (List.mem_map.2 ⟨m, hm, (Option.some.inj he).symm⟩)
    have hn : (last == some n.id) = false := by simpa using hlast n List.mem_cons_self
    rw [dropRepeated, hn, ih (List.nodup_cons.1 h).2 hne]
    rfl

/-- The children of a node, each once, from left to right. -/
def row (n : Node) : List Node :=
  match n.form with
  | .objectProperty _ value _ true => [value]
  | .templateLiteral quasis expressions => interleave quasis expressions
  | _ => n.children

/-- A node of the row is a child. -/
theorem mem_placed_of_mem_row {m n : Node} (h : m ∈ n.row) : m ∈ n.placedChildren.map (·.2) := by
  unfold row at h
  split at h
  next hform =>
    simp only [List.mem_singleton] at h
    simp [placedChildren, hform, h, Form.children]
  next quasis expressions hform =>
    have := (interleave_perm quasis expressions).mem_iff.1 h
    simpa [placedChildren, hform, Form.children] using this
  next => exact mem_of_mem_dropRepeated h

/-- It is smaller than the node. -/
theorem sizeOf_row_lt {m n : Node} (h : m ∈ n.row) : sizeOf m < sizeOf n := by
  obtain ⟨p, hp, rfl⟩ := List.mem_map.1 (mem_placed_of_mem_row h)
  exact sizeOf_placedChild_lt hp

/-- A node and all nodes below it, parents before their children. -/
def nodes (n : Node) : List Node := n :: n.row.attach.flatMap fun ⟨m, _⟩ => m.nodes
termination_by sizeOf n
decreasing_by exact sizeOf_row_lt (by assumption)

/-- The nodes of a tree are the root and those of the trees in its row. -/
theorem nodes_eq (n : Node) : n.nodes = n :: n.row.flatMap nodes := by
  rw [nodes]
  simp [List.flatMap_subtype]

/-- The root is one of them. -/
theorem mem_nodes_self (n : Node) : n ∈ n.nodes := by
  rw [nodes_eq]
  exact List.mem_cons_self

/-- What holds of a node if it holds of all nodes in its row holds of every node. -/
theorem row_induction {motive : Node → Prop} (step : ∀ n, (∀ m ∈ n.row, motive m) → motive n)
    (n : Node) : motive n :=
  step n fun m _ => row_induction step m
termination_by sizeOf n
decreasing_by exact sizeOf_row_lt (by assumption)

/-- None of them is larger than the root. -/
theorem sizeOf_le_of_mem_nodes {m n : Node} (h : m ∈ n.nodes) : sizeOf m ≤ sizeOf n := by
  induction n using row_induction with
  | step n ih =>
    rw [nodes_eq] at h
    rcases List.mem_cons.1 h with rfl | h
    · exact Nat.le_refl _
    · obtain ⟨a, ha, h⟩ := List.mem_flatMap.1 h
      have := ih a ha h
      have := sizeOf_row_lt ha
      omega

/-- The row is part of them. -/
theorem row_subset_nodes {m n : Node} (h : m ∈ n.row) : m ∈ n.nodes := by
  rw [nodes_eq]
  exact List.mem_cons_of_mem _ (List.mem_flatMap.2 ⟨m, h, mem_nodes_self m⟩)

/-- The nodes of a node are nodes of the tree. -/
theorem nodes_trans {a b n : Node} (ha : a ∈ n.nodes) (hb : b ∈ a.nodes) : b ∈ n.nodes := by
  induction n using row_induction with
  | step n ih =>
    rw [nodes_eq] at ha
    rcases List.mem_cons.1 ha with rfl | ha
    · exact hb
    · obtain ⟨m, hm, ha⟩ := List.mem_flatMap.1 ha
      rw [nodes_eq]
      exact List.mem_cons_of_mem _ (List.mem_flatMap.2 ⟨m, hm, ih m hm ha⟩)

/-- What lies inside the span of a node.  The decorators of a class may stand before the words in
front of it, so they are left out. -/
def inside (n : Node) : List Node :=
  match n.form with
  | .classDeclaration _ name superclass body _ => name.toList ++ (superclass.toList ++ [body])
  | _ => n.row

/-- The spans inside a node lie one behind the other in its own.  The value of a shorthand property
is its key or gives its key a default, and the children of most forms are all different. -/
structure Formed (n : Node) : Prop where
  order : InOrder n.start n.inside n.stop
  full : n.form.mayRepeat = false → n.children = n.placedChildren.map (·.2)
  shorthand : ∀ key value computed, n.form = .objectProperty key value computed true →
    value = key ∨ ∃ right, value.form = .assignmentPattern key right

/-- Nothing in the row of a node starts before the node. -/
def Encloses (n : Node) : Prop := ∀ m ∈ n.row, n.start ≤ m.start

/-- What stands in the row of a node starts in it, but for decorators that end before it starts. -/
def EnclosesBehind (n : Node) : Prop :=
  ∀ m ∈ n.row, n.start ≤ m.start ∨ m ∈ n.form.decorators ∧ m.stop ≤ n.start

/-- The spans in the row of a node lie one behind the other, and each of these nodes takes in its own
row.  A class behind `export default` need not take in its decorators; the export does. -/
structure Sound (n : Node) : Prop extends Formed n where
  behind : ∃ p, InOrder p n.row n.stop
  encloses : ∀ m ∈ n.row, m.Encloses ∨
    n.form = .exportDefaultDeclaration m ∧ m.EnclosesBehind ∧ ∀ d ∈ m.form.decorators, n.start ≤ d.start

/-- A node that is formed encloses what lies inside. -/
theorem Formed.encloses {n : Node} (h : n.Formed) (hinside : n.inside = n.row) : n.Encloses := by
  intro m hm
  exact (h.order.of_mem (hinside ▸ hm)).1

/-- The node is a shorthand property, and the second node gives the first one a default. -/
def Defaults (n key value : Node) : Prop :=
  ∃ computed right, n.form = .objectProperty key value computed true ∧
    value.form = .assignmentPattern key right

/-- A child stands in the row, or it is the key of a shorthand property with a default. -/
theorem Formed.mem_row_of_child {m n : Node} (hn : n.Formed) (h : m ∈ n.children) :
    m ∈ n.row ∨ ∃ v ∈ n.row, m ∈ v.row ∧ n.Defaults m v := by
  -- a node that occurs twice is one of the children nonetheless
  have hm := mem_of_mem_dropRepeated h
  unfold row
  split
  next key value computed hform =>
    rw [placedChildren, hform] at hm
    have hm : m = key ∨ m = value := by
      simpa [Form.children] using hm
    rcases hm with rfl | rfl
    · -- the key of a shorthand is its value, or stands in the pattern that gives the value
      rcases hn.shorthand m value computed hform with rfl | ⟨right, hv⟩
      · exact .inl List.mem_cons_self
      · refine .inr ⟨value, List.mem_cons_self, ?_, computed, right, hform, hv⟩
        simp [hv, children, placedChildren, Form.children,
          dropRepeated]
    · exact .inl List.mem_cons_self
  next quasis expressions hform =>
    rw [placedChildren, hform] at hm
    left
    -- the pieces of a template alternate with its expressions
    rw [(interleave_perm quasis expressions).mem_iff]
    simpa [Form.children] using hm
  next => exact .inl h

/-- Its children are nodes of the tree. -/
theorem Formed.child_mem_nodes {m n : Node} (hn : n.Formed) (h : m ∈ n.children) : m ∈ n.nodes := by
  rcases hn.mem_row_of_child h with h | ⟨v, hv, hm, -⟩
  · exact row_subset_nodes h
  · exact nodes_trans (row_subset_nodes hv) (row_subset_nodes hm)

/-- A node that can be reached from another by going to children. -/
inductive Reaches (root : Node) : Node → Prop
  | here : Reaches root root
  | child {n m : Node} (hn : Reaches root n) (hm : m ∈ n.children) : Reaches root m

/-- What is reached is not larger. -/
theorem Reaches.sizeOf_le {root n : Node} (h : root.Reaches n) : sizeOf n ≤ sizeOf root := by
  induction h with
  | here => exact Nat.le_refl _
  | child _ hm ih => exact Nat.le_of_lt (Nat.lt_of_lt_of_le (sizeOf_child_lt hm) ih)

/-- No child of a node is the root again. -/
theorem Reaches.child_ne_root {root n m : Node} (h : root.Reaches n) (hm : m ∈ n.children) :
    m ≠ root := by
  rintro rfl
  have h1 := h.sizeOf_le
  have h2 := sizeOf_child_lt hm
  omega

/-- In a sound tree all nodes that are reached are nodes of it. -/
theorem Reaches.mem_nodes {root n : Node} (hroot : ∀ m ∈ root.nodes, m.Sound)
    (h : root.Reaches n) : n ∈ root.nodes := by
  induction h with
  | here => exact mem_nodes_self root
  | child _ hm ih => exact nodes_trans ih ((hroot _ ih).child_mem_nodes hm)

@[simp] theorem row_withSpan (n : Node) (span : Span) : (n.withSpan span).row = n.row := rfl

@[simp] theorem inside_withSpan (n : Node) (span : Span) :
    (n.withSpan span).inside = n.inside := rfl

/-- A sound node may be given more space. -/
theorem Sound.withSpan {n : Node} (h : n.Sound) {span : Span} (hstart : span.start.offset ≤ n.start)
    (hstop : n.stop ≤ span.stop.offset) : (n.withSpan span).Sound where
  order := h.order.widen hstart hstop
  full := h.full
  shorthand := h.shorthand
  behind := by
    obtain ⟨p, hp⟩ := h.behind
    exact ⟨p, hp.widen (Nat.le_refl _) hstop⟩
  encloses m hm := by
    obtain hm | ⟨hform, hbehind, hdecorators⟩ := h.encloses m hm
    · exact .inl hm
    · exact .inr ⟨hform, hbehind, fun d hd => Nat.le_trans hstart (hdecorators d hd)⟩

end Node

/-- What a parser built between two moments: the numbers of all nodes are new and different, the
spans lie one behind the other, no decorators stand before them, and the nodes are sound. -/
structure Loose (i p : Nat) (l : List Node) (j q : Nat) : Prop where
  nodup : ((l.flatMap Node.nodes).map Node.id).Nodup
  ids : ∀ n ∈ l.flatMap Node.nodes, i ≤ n.id ∧ n.id < j
  order : InOrder p l q
  decorated : ∀ n ∈ l, ∀ d ∈ n.form.decorators, p ≤ d.start
  sound : ∀ n ∈ l.flatMap Node.nodes, n.Sound

/-- What a parser built between two moments, each node with all that stands in it. -/
structure Row (i p : Nat) (l : List Node) (j q : Nat) : Prop extends Loose i p l j q where
  encloses : ∀ n ∈ l, n.Encloses

namespace Row

variable {i i' j j' p p' q q' : Nat} {l l' : List Node} {n : Node}

/-- An empty row. -/
theorem nil (i p j q : Nat) : Row i p [] j q :=
  ⟨⟨List.nodup_nil, by simp, trivial, by simp, by simp⟩, by simp⟩

/-- A row between numbers and places is one between others further apart. -/
theorem widen (h : Row i p l j q) (hi : i' ≤ i) (hp : p' ≤ p) (hj : j ≤ j') (hq : q ≤ q') :
    Row i' p' l j' q' where
  nodup := h.nodup
  ids n hn := by
    have := h.ids n hn
    omega
  order := h.order.widen hp hq
  decorated n hn d hd := Nat.le_trans hp (h.decorated n hn d hd)
  sound := h.sound
  encloses := h.encloses

/-- Two rows, one behind the other. -/
theorem append (h : Row i p l j q) (h' : Row i' p' l' j' q') (hi : i ≤ i') (hj : j ≤ i')
    (hj' : j ≤ j') (hp : p ≤ p') (hq : q ≤ p') (hq' : q ≤ q') : Row i p (l ++ l') j' q' where
  nodup := by
    rw [List.flatMap_append, List.map_append]
    -- the identifiers of the first part lie below those of the second
    refine List.Nodup.append h.nodup h'.nodup ?_
    intro a ha ha'
    obtain ⟨m, hm, rfl⟩ := List.mem_map.1 ha
    obtain ⟨m', hm', he⟩ := List.mem_map.1 ha'
    have h1 := (h.ids m hm).2
    have h2 := (h'.ids m' hm').1
    omega
  ids n hn := by
    rw [List.flatMap_append] at hn
    rcases List.mem_append.1 hn with hn | hn
    · have := h.ids n hn
      omega
    · have := h'.ids n hn
      omega
  order := h.order.append h'.order hp hq hq'
  decorated n hn d hd := by
    rcases List.mem_append.1 hn with hn | hn
    · exact h.decorated n hn d hd
    · exact Nat.le_trans hp (h'.decorated n hn d hd)
  sound n hn := by
    rw [List.flatMap_append] at hn
    rcases List.mem_append.1 hn with hn | hn
    · exact h.sound n hn
    · exact h'.sound n hn
  encloses n hn := by
    rcases List.mem_append.1 hn with hn | hn
    · exact h.encloses n hn
    · exact h'.encloses n hn

/-- The heads of trees are nodes of them, in the same order. -/
theorem sublist_flatMap_nodes (l : List Node) : l.Sublist (l.flatMap Node.nodes) := by
  induction l with
  | nil => exact .slnil
  | cons n rest ih =>
    rw [List.flatMap_cons, Node.nodes_eq]
    exact .cons_cons n (ih.trans (List.sublist_append_right _ _))

/-- The heads of a row have different numbers. -/
theorem heads_nodup (h : Row i p l j q) : (l.map Node.id).Nodup :=
  h.nodup.sublist ((sublist_flatMap_nodes l).map Node.id)

end Row

/-- A sound node over a row is a row by itself. -/
theorem Loose.close {i j p p' q q' : Nat} {l : List Node} {n : Node} (h : Loose i p l j q)
    (hid : n.id = j) (hij : i ≤ j) (hrow : n.row = l)
    (hdecorators : ∀ d ∈ n.form.decorators, d ∈ l) (hn : n.Sound) (hp : p' ≤ p)
    (hstart : p' ≤ n.start) (hle : n.start ≤ n.stop) (hq : n.stop ≤ q') :
    Loose i p' [n] (j + 1) q' where
  nodup := by
    rw [List.flatMap_singleton, Node.nodes_eq, hrow, List.map_cons, List.nodup_cons]
    -- the node has the next identifier, and so none of those below it
    refine ⟨?_, h.nodup⟩
    intro ha
    obtain ⟨m, hm, he⟩ := List.mem_map.1 ha
    have := (h.ids m hm).2
    omega
  ids m hm := by
    -- a node of the row is the new one or lies below it
    rw [List.flatMap_singleton, Node.nodes_eq, hrow] at hm
    rcases List.mem_cons.1 hm with rfl | hm
    · omega
    · have := h.ids m hm
      omega
  order := ⟨hstart, hle, hq, trivial⟩
  decorated m hm d hd := by
    rw [List.mem_singleton.1 hm] at hd
    exact Nat.le_trans hp (h.order.of_mem (hdecorators d hd)).1
  sound m hm := by
    rw [List.flatMap_singleton, Node.nodes_eq, hrow] at hm
    rcases List.mem_cons.1 hm with rfl | hm
    · exact hn
    · exact h.sound m hm

namespace Row

variable {i i' j j' p p' q q' : Nat} {l l' : List Node} {n : Node}

/-- A node is sound if it ends behind the row that it stands over. -/
theorem sound_of_formed (h : Row i p l j q) (hn : n.Formed) (hrow : n.row = l)
    (hstop : q ≤ n.stop) : n.Sound where
  toFormed := hn
  behind := ⟨p, hrow ▸ h.order.widen (Nat.le_refl _) hstop⟩
  encloses m hm := .inl (h.encloses m (hrow ▸ hm))

/-- A node over a row is a row by itself, if it starts before the row. -/
theorem close (h : Row i p l j q) (hid : n.id = j) (hij : i ≤ j) (hrow : n.row = l)
    (hdecorators : ∀ d ∈ n.form.decorators, d ∈ l) (hn : n.Formed) (hinside : n.inside = n.row)
    (hp : p' ≤ p) (hstart : p' ≤ n.start) (hle : n.start ≤ n.stop) (hstop : q ≤ n.stop)
    (hq : n.stop ≤ q') : Row i p' [n] (j + 1) q' where
  toLoose := h.toLoose.close hid hij hrow hdecorators (h.sound_of_formed hn hrow hstop) hp hstart hle
    hq
  encloses m hm := by
    rw [List.mem_singleton.1 hm]
    exact hn.encloses hinside

/-- The numbers in a tree that was built as a row are all different. -/
theorem nodes_nodup (h : Row i p [n] j q) : (n.nodes.map Node.id).Nodup := by
  simpa using h.nodup

/-- A node that is given a wider span stays a row. -/
theorem withSpan (h : Row i p [n] j q) {span : Span} (hpp : p' ≤ p) (hp : p' ≤ span.start.offset)
    (hstart : span.start.offset ≤ n.start) (hstop : n.stop ≤ span.stop.offset)
    (hq : span.stop.offset ≤ q') : Row i p' [n.withSpan span] j q' := by
  -- the span changes the node itself, and none of those below it
  have hnodes : (n.withSpan span).nodes = n.withSpan span :: n.row.flatMap Node.nodes := by
    rw [Node.nodes_eq, Node.row_withSpan]
  have hself : n ∈ [n].flatMap Node.nodes := by simpa using Node.mem_nodes_self n
  have hbelow : ∀ m ∈ n.row.flatMap Node.nodes, m ∈ [n].flatMap Node.nodes := by
    intro m hm
    rw [List.flatMap_singleton, Node.nodes_eq]
    exact List.mem_cons_of_mem _ hm
  have hle := h.order.2.1
  have hsound := h.sound n hself
  refine ⟨⟨?_, ?_, ?_, ?_, ?_⟩, ?_⟩
  · have := h.nodup
    rw [List.flatMap_singleton, Node.nodes_eq] at this
    rw [List.flatMap_singleton, hnodes]
    exact this
  · intro m hm
    rw [List.flatMap_singleton, hnodes] at hm
    rcases List.mem_cons.1 hm with rfl | hm
    · exact h.ids n hself
    · exact h.ids m (hbelow m hm)
  · exact ⟨hp, Nat.le_trans hstart (Nat.le_trans hle hstop), hq, trivial⟩
  · intro m hm d hd
    rw [List.mem_singleton.1 hm] at hd
    exact Nat.le_trans hpp (h.decorated n List.mem_cons_self d hd)
  · intro m hm
    rw [List.flatMap_singleton, hnodes] at hm
    rcases List.mem_cons.1 hm with rfl | hm
    · -- the new span encloses what the old one did
      exact hsound.withSpan hstart hstop
    · exact h.sound m (hbelow m hm)
  · intro m hm
    rw [List.mem_singleton.1 hm]
    exact fun d hd => Nat.le_trans hstart (h.encloses n List.mem_cons_self d hd)

end Row

namespace Node

variable {id : Nat} {span : Span} {form : Form Node} {l : List Node}

/-- In a plain form the row are the children. -/
theorem row_of_isPlain {n : Node} (h : n.form.isPlain = true) : n.row = n.children := by
  unfold row
  split
  next hform => simp [hform, Form.isPlain] at h
  next hform => simp [hform, Form.isPlain] at h
  next => rfl

/-- They are what lies inside, too. -/
theorem inside_of_isPlain {n : Node} (h : n.form.isPlain = true) : n.inside = n.row := by
  unfold inside
  split
  next hform => simp [hform, Form.isPlain] at h
  next => rfl

/-- A plain node is formed if its row is in order. -/
theorem formed_of_isPlain {n : Node} (h : n.form.isPlain = true)
    (horder : InOrder n.start n.row n.stop)
    (hfull : n.form.mayRepeat = false → n.children = n.placedChildren.map (·.2)) : n.Formed where
  order := by rwa [inside_of_isPlain h]
  full := hfull
  shorthand key value computed hform := by simp [hform, Form.isPlain] at h

end Node

/-- Decorators are children, and of a form in which none is repeated. -/
theorem Form.decorators_subset {α : Type} (form : Form α) {d : α} (hd : d ∈ form.decorators) :
    form.mayRepeat = false ∧ d ∈ form.children.map (·.2) := by
  unfold Form.decorators at hd
  split at hd
  · exact ⟨rfl, by simp [Form.children, hd]⟩
  · exact ⟨rfl, by simp [Form.children, hd]⟩
  · exact ⟨rfl, by simp [Form.children, hd]⟩
  · cases hd

namespace Row

variable {i i' j j' p p' q q' : Nat} {l l' : List Node} {n : Node} {start stop : Position}
  {form : Form Node}

/-- Nodes become the children of a new node, which starts where they start or before. -/
theorem node_of_children (h : Row i p l j q) (hform : form.isPlain = true)
    (hl : Node.dropRepeated none (form.children.map (·.2)) = l)
    (hfull : form.mayRepeat = false → form.children.map (·.2) = l) (hij : i ≤ j)
    (hp : start.offset ≤ p) (hle : start.offset ≤ stop.offset) (hq : q ≤ stop.offset) :
    Row i start.offset [.mk j ⟨start, stop⟩ form] (j + 1) stop.offset := by
  have hplain : (Node.mk j ⟨start, stop⟩ form).form.isPlain = true := hform
  have hchildren : (Node.mk j ⟨start, stop⟩ form).children = l := hl
  have hrow := (Node.row_of_isPlain hplain).trans hchildren
  refine h.close rfl hij hrow (fun d hd => ?_) (Node.formed_of_isPlain hplain ?_ ?_)
    (Node.inside_of_isPlain hplain) hp (Nat.le_refl _) hle hq (Nat.le_refl _)
  · -- decorators are children of a form that repeats nothing
    obtain ⟨hrepeat, hmem⟩ := form.decorators_subset hd
    exact hfull hrepeat ▸ hmem
  · rw [hrow]
    exact h.order.widen hp hq
  · intro hrepeat
    exact hchildren.trans (hfull hrepeat).symm

/-- A row of children becomes a row of their node. -/
theorem node (h : Row i p l j q) (hform : form.isPlain = true)
    (hl : form.children.map (·.2) = l) (hij : i ≤ j)
    (hp : start.offset ≤ p) (hle : start.offset ≤ stop.offset) (hq : q ≤ stop.offset) :
    Row i start.offset [.mk j ⟨start, stop⟩ form] (j + 1) stop.offset := by
  refine h.node_of_children hform ?_ (fun _ => hl) hij hp hle hq
  rw [hl]
  exact Node.dropRepeated_of_nodup h.heads_nodup (by simp)

/-- A name becomes a property that is its own value. -/
theorem shorthand {key : Node} {computed : Bool} (h : Row i p [key] j q) (hij : i ≤ j)
    (hp : start.offset ≤ p) (hle : start.offset ≤ stop.offset) (hq : q ≤ stop.offset) :
    Row i start.offset [.mk j ⟨start, stop⟩ (.objectProperty key key computed true)] (j + 1)
      stop.offset := by
  refine h.close rfl hij rfl nofun ⟨h.order.widen hp hq, nofun, ?_⟩ rfl hp (Nat.le_refl _) hle hq
    (Nat.le_refl _)
  intro key' value' computed' hform
  simp only [Node.form, Form.objectProperty.injEq] at hform
  exact .inl (hform.2.1.symm.trans hform.1)

/-- A name with a default becomes a property; the name is its key as well. -/
theorem shorthandDefault {key value pattern : Node} {computed : Bool} (h : Row i p [pattern] j q)
    (hpattern : pattern.form = .assignmentPattern key value) (hij : i ≤ j)
    (hp : start.offset ≤ p) (hle : start.offset ≤ stop.offset) (hq : q ≤ stop.offset) :
    Row i start.offset [.mk j ⟨start, stop⟩ (.objectProperty key pattern computed true)] (j + 1)
      stop.offset := by
  refine h.close rfl hij rfl nofun ⟨h.order.widen hp hq, nofun, ?_⟩ rfl hp (Nat.le_refl _) hle hq
    (Nat.le_refl _)
  intro key' value' computed' hform
  simp only [Node.form, Form.objectProperty.injEq] at hform
  obtain ⟨rfl, rfl, -⟩ := hform
  exact .inr ⟨value, hpattern⟩

/-- Texts and expressions in turn become a template. -/
theorem template {quasis expressions : List Node} (h : Row i p (interleave quasis expressions) j q)
    (hij : i ≤ j) (hp : start.offset ≤ p) (hle : start.offset ≤ stop.offset)
    (hq : q ≤ stop.offset) :
    Row i start.offset [.mk j ⟨start, stop⟩ (.templateLiteral quasis expressions)] (j + 1)
      stop.offset := by
  refine h.close rfl hij rfl nofun ⟨h.order.widen hp hq, ?_, nofun⟩ rfl hp (Nat.le_refl _) hle hq
    (Nat.le_refl _)
  intro _
  have hperm := (interleave_perm quasis expressions).map Node.id
  refine Node.dropRepeated_of_nodup ?_ (by simp)
  simpa [Node.placedChildren, Node.form, Form.children] using
    hperm.nodup_iff.1 h.heads_nodup

/-- Decorators and the parts of a class become a class; decorators may stand before its start. -/
theorem classDeclaration {decorators : List Node} {name superclass : Option Node} {body : Node}
    {isExpression : Bool}
    (h : Row i p (decorators ++ (name.toList ++ (superclass.toList ++ [body]))) j q)
    (horder : InOrder start.offset (name.toList ++ (superclass.toList ++ [body])) q) (hij : i ≤ j)
    (hpp : p' ≤ p) (hp : p' ≤ start.offset) (hle : start.offset ≤ stop.offset) (hq : q ≤ stop.offset)
    (hn : n = .mk j ⟨start, stop⟩
      (.classDeclaration decorators name superclass body isExpression)) :
    Loose i p' [n] (j + 1) stop.offset ∧ ∀ m ∈ n.row, n.start ≤ m.start ∨ m ∈ decorators := by
  have hl : (Form.classDeclaration decorators name superclass body isExpression).children.map
      (·.2) = decorators ++ (name.toList ++ (superclass.toList ++ [body])) := by
    simp [Form.children]
  -- the decorators, the name, the superclass and the body are four nodes at least, or as many as
  -- there are
  have hchildren : Node.dropRepeated none
      ((Form.classDeclaration decorators name superclass body isExpression).children.map (·.2)) =
      decorators ++ (name.toList ++ (superclass.toList ++ [body])) := by
    rw [hl]
    exact Node.dropRepeated_of_nodup h.heads_nodup (by simp)
  have hrow : n.row = decorators ++ (name.toList ++ (superclass.toList ++ [body])) := by
    rw [hn]
    exact hchildren
  -- the decorators may stand in front of the node, and the others lie in it
  have hformed : n.Formed := by
    rw [hn]
    exact ⟨horder.widen (Nat.le_refl _) hq, fun _ => hchildren.trans hl.symm, nofun⟩
  have hsound : n.Sound := h.sound_of_formed hformed hrow (by rw [hn]; exact hq)
  constructor
  · subst hn
    exact h.toLoose.close rfl hij hrow (fun _ => List.mem_append_left _) hsound hpp hp hle
      (Nat.le_refl _)
  intro m hm
  have hstart : n.start = start.offset := by rw [hn]; rfl
  rw [hrow] at hm
  rw [hstart]
  -- a decorator, or a part that lies in the class
  rcases List.mem_append.1 hm with hm | hm
  · exact .inr hm
  · exact .inl (horder.of_mem hm).1

end Row

/-- An export by default takes in what it exports, and the decorators in front of a class. -/
theorem Loose.exportDefault {i j p q : Nat} {m : Node} {start stop : Position}
    (h : Loose i p [m] j q) (hm : m.EnclosesBehind) (hij : i ≤ j)
    (hp : start.offset ≤ p) (hle : start.offset ≤ stop.offset) (hq : q ≤ stop.offset) :
    Row i start.offset [.mk j ⟨start, stop⟩ (.exportDefaultDeclaration m)] (j + 1)
      stop.offset := by
  have hrow : (Node.mk j ⟨start, stop⟩ (.exportDefaultDeclaration m)).row = [m] := rfl
  have horder := h.order.widen hp hq
  -- the declaration is the only node of the row
  have hformed : (Node.mk j ⟨start, stop⟩ (.exportDefaultDeclaration m)).Formed :=
    Node.formed_of_isPlain rfl horder fun _ => rfl
  refine ⟨h.close rfl hij hrow nofun ⟨hformed, ⟨_, horder⟩, fun d hd => ?_⟩ hp (Nat.le_refl _) hle
    (Nat.le_refl _), fun d hd => ?_⟩
  · -- the decorators of the declaration may stand in front of it, but behind the start
    obtain rfl : d = m := by simpa [hrow] using hd
    exact .inr ⟨rfl, hm, fun d' hd' =>
      Nat.le_trans hp (h.decorated d List.mem_cons_self d' hd')⟩
  · rw [List.mem_singleton.1 hd]
    exact hformed.encloses rfl

namespace Node

/-- In a tree whose numbers are all different, a number leads to one node. -/
theorem eq_of_id {root a b : Node} (h : (root.nodes.map id).Nodup) (ha : a ∈ root.nodes)
    (hb : b ∈ root.nodes) (hid : a.id = b.id) : a = b :=
  List.inj_on_of_nodup_map h ha hb hid

/-- Two nodes of a row have no number in common below them. -/
theorem eq_of_id_below {root a b x y : Node} (h : (root.nodes.map id).Nodup) (ha : a ∈ root.row)
    (hb : b ∈ root.row) (hx : x ∈ a.nodes) (hy : y ∈ b.nodes) (hid : x.id = y.id) : a = b := by
  rw [nodes_eq, List.map_cons, List.nodup_cons, List.map_flatMap, List.nodup_flatMap] at h
  by_contra hne
  have : Std.Symm (Function.onFun List.Disjoint fun m : Node => m.nodes.map id) :=
    ⟨fun _ _ h _ h1 h2 => h h2 h1⟩
  have := h.2.2.forall ha hb hne
  exact this (List.mem_map_of_mem hx) (hid ▸ List.mem_map_of_mem hy)

/-- The numbers of a tree in the row are different. -/
theorem nodup_of_mem_row {root m : Node} (h : (root.nodes.map id).Nodup) (hm : m ∈ root.row) :
    (m.nodes.map id).Nodup := by
  rw [nodes_eq, List.map_cons, List.nodup_cons, List.map_flatMap, List.nodup_flatMap] at h
  exact h.2.1 m hm

/-- A node does not stand below the nodes of its own row. -/
theorem not_mem_row_below {root m x y : Node} (h : (root.nodes.map id).Nodup) (hx : x ∈ root.row)
    (hm : m ∈ root.row) {b : Node} (hb : b ∈ m.nodes) (hy : y ∈ b.row) : x.id ≠ y.id := by
  intro hid
  have hym : y ∈ m.nodes := nodes_trans hb (row_subset_nodes hy)
  obtain rfl := eq_of_id_below h hx hm (mem_nodes_self x) hym hid
  -- now `y` stands strictly below `x` and has its number
  have hyx := eq_of_id (nodup_of_mem_row h hx) (mem_nodes_self x) hym hid
  subst hyx
  have h1 := sizeOf_row_lt hy
  have h2 := sizeOf_le_of_mem_nodes hb
  omega

/-- A node stands in the row of one node only. -/
theorem row_parent_unique {root a b x y : Node} (h : (root.nodes.map id).Nodup)
    (ha : a ∈ root.nodes) (hb : b ∈ root.nodes) (hx : x ∈ a.row) (hy : y ∈ b.row)
    (hid : x.id = y.id) : a = b := by
  induction root using row_induction with
  | step root ih =>
    rw [nodes_eq] at ha hb
    rcases List.mem_cons.1 ha with rfl | ha <;> rcases List.mem_cons.1 hb with rfl | hb
    · rfl
    · obtain ⟨m, hm, hb⟩ := List.mem_flatMap.1 hb
      exact absurd hid (not_mem_row_below h hx hm hb hy)
    · obtain ⟨m, hm, ha⟩ := List.mem_flatMap.1 ha
      exact absurd hid.symm (not_mem_row_below h hy hm ha hx)
    · -- both lie below the row, and then below the same node of it
      obtain ⟨m, hm, ha⟩ := List.mem_flatMap.1 ha
      obtain ⟨m', hm', hb⟩ := List.mem_flatMap.1 hb
      obtain rfl := eq_of_id_below h hm hm' (nodes_trans ha (row_subset_nodes hx))
        (nodes_trans hb (row_subset_nodes hy)) hid
      exact ih m hm (nodup_of_mem_row h hm) ha hb

/-- The numbers in a tree are all different, its nodes are sound, and it takes in what stands in
it. -/
structure WellBuilt (root : Node) : Prop where
  nodup : (root.nodes.map id).Nodup
  sound : ∀ n ∈ root.nodes, n.Sound
  encloses : root.Encloses
  start_le : root.start ≤ root.stop

namespace WellBuilt

variable {root a b x y n : Node}

/-- What is reached in a well-built tree is a node of it. -/
theorem mem_nodes (h : root.WellBuilt) (hn : root.Reaches n) : n ∈ root.nodes :=
  hn.mem_nodes h.sound

/-- It is sound. -/
theorem sound_of_reaches (h : root.WellBuilt) (hn : root.Reaches n) : n.Sound :=
  h.sound n (h.mem_nodes hn)

/-- It is known by its number. -/
theorem eq_of_id (h : root.WellBuilt) (ha : root.Reaches a) (hb : root.Reaches b)
    (hid : a.id = b.id) : a = b :=
  Node.eq_of_id h.nodup (h.mem_nodes ha) (h.mem_nodes hb) hid

/-- Where one node cannot stand twice, all that stands in a form is a child. -/
theorem mem_children (h : root.WellBuilt) (hn : root.Reaches n) (hform : n.form.mayRepeat = false)
    (hx : x ∈ n.form.children.map (·.2)) : x ∈ n.children :=
  ((h.sound_of_reaches hn).full hform).symm ▸ hx

/-- Two nodes share a child only if one of them is a name with a default in a shorthand property. -/
theorem parent_unique (h : root.WellBuilt) (ha : root.Reaches a) (hb : root.Reaches b)
    (hplain : b.form.isPlain = true)
    (hpattern : ∀ left right, b.form ≠ .assignmentPattern left right)
    (hx : x ∈ a.children) (hy : y ∈ b.children) (hid : x.id = y.id) : a = b := by
  have hy : y ∈ b.row := by rwa [row_of_isPlain hplain]
  rcases (h.sound_of_reaches ha).mem_row_of_child hx with hx | ⟨v, hv, hx, _, right, -, hform⟩
  · exact row_parent_unique h.nodup (h.mem_nodes ha) (h.mem_nodes hb) hx hy hid
  · have hva := nodes_trans (h.mem_nodes ha) (row_subset_nodes hv)
    obtain rfl := row_parent_unique h.nodup hva (h.mem_nodes hb) hx hy hid
    exact absurd hform (hpattern x right)

end WellBuilt

end Node

end Reflow
