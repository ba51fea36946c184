import Reflow.Proofs.Comment.Location
import Reflow.Proofs.Grammar.Follow
import Reflow.Grammar.Parse

/-!
# The nearest neighbours of a comment

Where the children of every node lie apart and a comment is cut by none of them, the search by halving
finds what a search from child to child would find: the child around the comment, if there is one, and
else the last child in front of the comment and the first one behind it.  Nodes may be empty, and may
touch each other and the comment.

## Key results

- `searchChildren_splits`: the search ends at a child around the comment, or where the comment splits
  the children
- `locate_nearest`: the location of a comment in a tree
-/

namespace Reflow

variable {c : Comment} {children : List Node}

/-- One of two nodes ends where the other starts, or before. -/
def Node.Apart (a b : Node) : Prop := a.stop ≤ b.start ∨ b.stop ≤ a.start

/-- A node overlaps a comment and does not take in all of it. -/
def Node.Cuts (n : Node) (c : Comment) : Prop :=
  c.start < n.stop ∧ n.start < c.stop ∧ n.encloses c = false

instance (a b : Node) : Decidable (a.Apart b) := inferInstanceAs (Decidable (_ ∨ _))

instance (n : Node) (c : Comment) : Decidable (n.Cuts c) := inferInstanceAs (Decidable (_ ∧ _))

/-- The spans of a tree start before they end, and the children of each node lie apart. -/
structure Node.Spaced (root : Node) : Prop where
  span : ∀ n, root.Reaches n → n.start ≤ n.stop
  apart : ∀ n, root.Reaches n → n.children.Pairwise Node.Apart

/-- From a node to a child around the comment, and on in the same way as far as there is one. -/
inductive Node.NarrowsTo (c : Comment) : Node → Node → Prop
  | here {n : Node} (h : ∀ m ∈ n.children, m.encloses c = false) : NarrowsTo c n n
  | child {n m k : Node} (hm : m ∈ n.children) (hc : m.encloses c = true)
      (h : NarrowsTo c m k) : NarrowsTo c n k

/-- The last child, from left to right, that ends at or before the start of a comment. -/
def Node.lastBefore? (n : Node) (c : Comment) : Option Node :=
  n.sortedChildren.findRev? fun m => m.stop ≤ c.start

/-- The first child, from left to right, that starts at or after the end of a comment. -/
def Node.firstBehind? (n : Node) (c : Comment) : Option Node :=
  n.sortedChildren.find? fun m => c.stop ≤ m.start

/-- To enclose is to start no later and to end no earlier. -/
theorem Node.encloses_iff {n : Node} :
    n.encloses c = true ↔ n.start ≤ c.start ∧ c.stop ≤ n.stop := by
  rw [encloses, Bool.and_eq_true, decide_eq_true_eq, decide_eq_true_eq]

/-- A comment that a node does not cut lies in it, behind it or in front of it. -/
theorem Node.encloses_or_of_not_cuts {n : Node} (h : ¬n.Cuts c) :
    n.encloses c = true ∨ n.stop ≤ c.start ∨ c.stop ≤ n.start := by
  by_cases hc : n.encloses c = true
  · exact .inl hc
  · right
    have : ¬(c.start < n.stop ∧ n.start < c.stop) :=
      fun hover => h ⟨hover.1, hover.2, Bool.eq_false_iff.2 hc⟩
    omega

/-! ## Children from left to right -/

/-- Nodes are ordered by their start, and then by their end. -/
theorem Node.startsBefore_iff {a b : Node} :
    a.startsBefore b = true ↔ a.start < b.start ∨ a.start = b.start ∧ a.stop ≤ b.stop := by
  simp only [startsBefore, Bool.or_eq_true, decide_eq_true_eq, Bool.and_eq_true, beq_iff_eq]

/-- Sorted by their starts, children that lie apart stand one behind the other. -/
theorem Node.sortedChildren_pairwise {n : Node} (hspan : ∀ m ∈ n.children, m.start ≤ m.stop)
    (hapart : n.children.Pairwise Node.Apart) :
    n.sortedChildren.Pairwise fun a b => a.stop ≤ b.start := by
  have hperm : n.sortedChildren.Perm n.children := List.mergeSort_perm ..
  have hsorted : n.sortedChildren.Pairwise fun a b => a.startsBefore b = true := by
    apply List.pairwise_mergeSort
    · intro a b d hab hbd
      rw [startsBefore_iff] at hab hbd ⊢
      omega
    · intro a b
      rw [Bool.or_eq_true, startsBefore_iff, startsBefore_iff]
      omega
  have happart : n.sortedChildren.Pairwise Node.Apart :=
    hperm.symm.pairwise hapart fun h => Or.symm h
  refine (hsorted.and happart).imp_of_mem fun {a b} ha hb h => ?_
  have hleft := startsBefore_iff.1 h.1
  have ha := hspan a (hperm.mem_iff.1 ha)
  have hb := hspan b (hperm.mem_iff.1 hb)
  -- the later of the two can only end first if both are empty and stand at the same place
  rcases h.2 with h | h <;> omega

/-! ## The search -/

/-- The children are split by a comment: those in front of it, and those behind it. -/
structure SplitBy (c : Comment) (front back : List Node) : Prop where
  before : ∀ m ∈ front, m.stop ≤ c.start
  behind : ∀ m ∈ back, c.stop ≤ m.start

/-- The search ends at a child around the comment, or has split the children at the comment.  What it
has found so far are the neighbours of the part that is still to be searched, and everything outside
of this part lies on its side of the comment. -/
theorem searchChildren_splits {left right : Nat} {preceding following : Option Node}
    (hsorted : children.Pairwise fun a b => a.stop ≤ b.start)
    (hspan : ∀ m ∈ children, m.start ≤ m.stop) (hcuts : ∀ m ∈ children, ¬m.Cuts c)
    (hle : left ≤ right) (hlength : right ≤ children.length)
    (hsplit : SplitBy c (children.take left) (children.drop right))
    (hpreceding : preceding = (children.take left).getLast?)
    (hfollowing : following = (children.drop right).head?) :
    (∃ index, searchChildren children c left right preceding following = .inside index) ∨
      ∃ front back, children = front ++ back ∧ SplitBy c front back ∧
        searchChildren children c left right preceding following =
          .between front.getLast? back.head? := by
  fun_induction searchChildren children c left right preceding following with
  | case1 left right preceding following hlt middle hnone =>
    have : children.length ≤ middle := List.getElem?_eq_none_iff.1 hnone
    omega
  | case2 => exact .inl ⟨_, rfl⟩
  | case3 left right preceding following hlt middle child hchild _ hstop ih =>
    have hmiddle : middle < children.length := (List.getElem?_eq_some_iff.1 hchild).1
    have htake : children.take (middle + 1) = children.take middle ++ [child] := by
      rw [List.take_add_one, hchild]
      rfl
    apply ih (by omega) hlength
    · refine ⟨?_, hsplit.behind⟩
      -- a child in front of this one ends before this one starts
      have hall := hsorted
      rw [← List.take_append_drop (middle + 1) children, List.pairwise_append, htake,
        List.pairwise_append] at hall
      intro m hm
      rw [htake, List.mem_append, List.mem_singleton] at hm
      rcases hm with hm | rfl
      · have h1 := hall.1.2.2 m hm child (List.mem_singleton_self _)
        have h2 := hspan child (List.mem_of_getElem? hchild)
        omega
      · exact hstop
    · rw [htake, List.getLast?_concat]
    · exact hfollowing
  | case4 left right preceding following hlt middle child hchild _ hstop hstart ih =>
    have hmiddle : middle < children.length := (List.getElem?_eq_some_iff.1 hchild).1
    have hdrop : children.drop middle = child :: children.drop (middle + 1) := by
      rw [List.drop_eq_getElem_cons hmiddle, (List.getElem?_eq_some_iff.1 hchild).2]
    apply ih (by omega) (by omega)
    · refine ⟨hsplit.before, ?_⟩
      have hall := hsorted
      rw [← List.take_append_drop middle children, List.pairwise_append, hdrop,
        List.pairwise_cons] at hall
      intro m hm
      rw [hdrop, List.mem_cons] at hm
      rcases hm with rfl | hm
      · exact hstart
      · have h1 := hall.2.1.1 m hm
        have h2 := hspan child (List.mem_of_getElem? hchild)
        omega
    · exact hpreceding
    · rw [hdrop, List.head?_cons]
  | case5 left right preceding following hlt middle child hchild hencloses hstop hstart =>
    -- such a child cuts the comment
    have := Node.encloses_or_of_not_cuts (hcuts child (List.mem_of_getElem? hchild))
    simp only [hencloses, Bool.false_eq_true, false_or] at this
    omega
  | case6 left right preceding following hlt =>
    obtain rfl : left = right := by omega
    exact .inr ⟨_, _, (List.take_append_drop left children).symm, hsplit, by rw [hpreceding, hfollowing]⟩

namespace SplitBy

variable {front back : List Node}

/-- Where a comment splits the children, none is around it. -/
theorem encloses_eq_false (h : SplitBy c front back) (hc : c.start < c.stop) {m : Node}
    (hm : m ∈ front ++ back) : m.encloses c = false := by
  rw [← Bool.not_eq_true, Node.encloses_iff]
  rcases List.mem_append.1 hm with hm | hm
  · have := h.before m hm
    omega
  · have := h.behind m hm
    omega

/-- The last child in front of the comment is the last of the front part. -/
theorem findRev? (h : SplitBy c front back) (hc : c.start < c.stop)
    (hspan : ∀ m ∈ back, m.start ≤ m.stop) :
    (front ++ back).findRev? (fun m => decide (m.stop ≤ c.start)) = front.getLast? := by
  -- no node behind the comment ends before it
  have hback : back.reverse.find? (fun m => decide (m.stop ≤ c.start)) = none := by
    rw [List.find?_eq_none]
    intro m hm
    have h1 := h.behind m (List.mem_reverse.1 hm)
    have h2 := hspan m (List.mem_reverse.1 hm)
    rw [decide_eq_true_eq]
    omega
  rw [List.findRev?_eq_find?_reverse, List.reverse_append, List.find?_append, hback, Option.none_or,
    List.getLast?_eq_head?_reverse]
  -- the last node in front is the last one that ends before it
  cases hfront : front.reverse with
  | nil => rfl
  | cons m rest =>
    have hm : m ∈ front := by
      rw [← List.mem_reverse, hfront]
      exact List.mem_cons_self
    exact List.find?_cons_of_pos (decide_eq_true (h.before m hm))

/-- The first child behind the comment is the first of the back part. -/
theorem find? (h : SplitBy c front back) (hc : c.start < c.stop)
    (hspan : ∀ m ∈ front, m.start ≤ m.stop) :
    (front ++ back).find? (fun m => decide (c.stop ≤ m.start)) = back.head? := by
  -- no node in front starts behind the comment
  have hfront : front.find? (fun m => decide (c.stop ≤ m.start)) = none := by
    rw [List.find?_eq_none]
    intro m hm
    have h1 := h.before m hm
    have h2 := hspan m hm
    rw [decide_eq_true_eq]
    omega
  rw [List.find?_append, hfront, Option.none_or]
  -- the first node behind is the first one that starts behind it
  cases back with
  | nil => rfl
  | cons m rest => exact List.find?_cons_of_pos (decide_eq_true (h.behind m List.mem_cons_self))

end SplitBy

/-! ## The tree -/

variable {root n : Node}

/-- At most one of the children of a node is around a comment. -/
theorem Node.eq_of_encloses (hapart : n.children.Pairwise Node.Apart) (hc : c.start < c.stop)
    {a b : Node} (ha : a ∈ n.children) (hb : b ∈ n.children) (ha' : a.encloses c = true)
    (hb' : b.encloses c = true) : a = b := by
  by_contra hne
  have : Std.Symm Node.Apart := ⟨fun _ _ h => Or.symm h⟩
  have : a.Apart b := hapart.forall ha hb hne
  rw [Node.Apart] at this
  rw [encloses_iff] at ha' hb'
  omega

/-- The way to the innermost node around a comment is determined. -/
theorem Node.NarrowsTo.unique (hroot : root.Spaced) (hc : c.start < c.stop) {k k' : Node}
    (hn : root.Reaches n) (h : NarrowsTo c n k) (h' : NarrowsTo c n k') : k = k' := by
  -- induction on how the node narrows down
  induction h with
  -- no child encloses the comment, so that both stop here
  | here hnone =>
    cases h' with
    | here => rfl
    | child hm hencloses _ =>
      rw [hnone _ hm] at hencloses
      cases hencloses
  | child hm hencloses _ ih =>
    cases h' with
    | here hnone =>
      rw [hnone _ hm] at hencloses
      cases hencloses
    | child hm' hencloses' h' =>
      -- two children that enclose it are one, because the children lie apart
      obtain rfl := eq_of_encloses (hroot.apart _ hn) hc hm hm' hencloses hencloses'
      exact ih (.child hn hm) h'

/-- The search below a node ends at the innermost node around the comment, with its nearest
children. -/
theorem locateBelow_nearest (hroot : root.Spaced) (hc : c.start < c.stop)
    (hcuts : ∀ m, root.Reaches m → ¬m.Cuts c) {enclosing : Option Node} (hn : root.Reaches n)
    (henclosing : enclosing = none ∧ n = root ∨ enclosing = some n ∧ n ≠ root) :
    ∃ k, n.NarrowsTo c k ∧ ∃ around, (around = none ∧ k = root ∨ around = some k ∧ k ≠ root) ∧
      locateBelow c enclosing n =
        { enclosing := around, preceding := k.lastBefore? c, following := k.firstBehind? c } := by
  -- the children are sorted, but they are the same
  have hmem {n m : Node} : m ∈ n.sortedChildren ↔ m ∈ n.children := List.mem_mergeSort
  have hsearch {n : Node} (hn : root.Reaches n) :
      (∃ index, searchChildren n.sortedChildren c 0 n.sortedChildren.length none none =
        .inside index) ∨
      ∃ front back, n.sortedChildren = front ++ back ∧ SplitBy c front back ∧
        searchChildren n.sortedChildren c 0 n.sortedChildren.length none none =
          .between front.getLast? back.head? :=
    searchChildren_splits
      (Node.sortedChildren_pairwise (fun m hm => hroot.span m (.child hn hm)) (hroot.apart n hn))
      (fun m hm => hroot.span m (.child hn (hmem.1 hm)))
      (fun m hm => hcuts m (.child hn (hmem.1 hm)))
      (Nat.zero_le _) (Nat.le_refl _) ⟨by simp, by simp⟩ rfl (by simp)
  -- induction down the nodes that enclose the comment
  fun_induction locateBelow c enclosing n with
  | case1 enclosing n _ preceding following h =>
    -- the search cannot have found a child
    rcases hsearch hn with ⟨index, hinside⟩ | ⟨front, back, hchildren, hsplit, hbetween⟩
    · rw [h] at hinside
      cases hinside
    rw [h] at hbetween
    obtain ⟨rfl, rfl⟩ := ChildSearch.between.inj hbetween
    have hspan : ∀ m ∈ front ++ back, m.start ≤ m.stop := fun m hm =>
      hroot.span m (.child hn (hmem.1 (hchildren ▸ hm)))
    -- no child encloses the comment, and its neighbours are those of the search
    refine ⟨n, .here fun m hm => ?_, enclosing, henclosing, ?_⟩
    · exact hsplit.encloses_eq_false hc (hchildren ▸ hmem.2 hm)
    · rw [Node.lastBefore?, Node.firstBehind?, hchildren,
        hsplit.findRev? hc fun m hm => hspan m (List.mem_append_right _ hm),
        hsplit.find? hc fun m hm => hspan m (List.mem_append_left _ hm)]
  -- the child that was found encloses it, and the narrowing goes on there
  | case2 enclosing n _ index h child hchild ih =>
    have hm : child ∈ n.children := hmem.1 (List.mem_of_getElem? hchild)
    obtain ⟨m, hindex, hencloses⟩ := searchChildren_inside h
    obtain rfl : child = m := Option.some.inj (hchild.symm.trans hindex)
    obtain ⟨k, hk, hlocated⟩ := ih (.child hn hm) (.inr ⟨rfl, hn.child_ne_root hm⟩)
    exact ⟨k, .child hm hencloses hk, hlocated⟩
  -- the child that was found is there
  | case3 enclosing n _ index h hnone =>
    obtain ⟨m, hindex, -⟩ := searchChildren_inside h
    rw [hnone] at hindex
    cases hindex

/-- In a tree whose nodes have children that lie apart, a comment that no node cuts is located by going
from the root to a child around it as long as there is one.  This ends at one node only; the comment's
neighbours are the last child of that node in front of it and the first one behind it, and in a
template only those in the same expression are kept. -/
theorem locate_nearest (hroot : root.Spaced) (hc : c.start < c.stop)
    (hcuts : ∀ n, root.Reaches n → ¬n.Cuts c) :
    ∃ n, (∀ m, root.NarrowsTo c m ↔ m = n) ∧
      ∃ around, (around = none ∧ n = root ∨ around = some n ∧ n ≠ root) ∧
        locate root c = CommentLocation.withinExpression
          { enclosing := around, preceding := n.lastBefore? c, following := n.firstBehind? c } c := by
  obtain ⟨n, hn, around, haround, hlocated⟩ :=
    locateBelow_nearest hroot hc hcuts .here (.inl ⟨rfl, rfl⟩)
  refine ⟨n, fun m => ⟨fun hm => hm.unique hroot hc .here hn, ?_⟩, around, haround, ?_⟩
  · rintro rfl
    exact hn
  · rw [locate, hlocated]

/-- A property that all nodes have is one of those that can be reached. -/
theorem Node.Reaches.of_all {p : Node → Bool} (h : root.all p = true) (hn : root.Reaches n) :
    n.all p = true := by
  induction hn with
  | here => exact h
  | child _ hm ih => exact (all_iff.1 ih).2 _ (mem_of_mem_dropRepeated hm)

set_option maxRecDepth 100000 in
/-- A comment in a template, behind an empty text that touches nothing but the brace. -/
theorem locate_nearest_template :
    let source : Source := .ofString "f(x, `$\x7b/* c */ a\x7d$\x7bb\x7d`)"
    ∃ parsed c, Grammar.parse source false = .ok parsed ∧ parsed.comments = [c] ∧
      parsed.root.Spaced ∧ c.start < c.stop ∧ (∀ n, parsed.root.Reaches n → ¬n.Cuts c) ∧
      ∃ n, (∀ m, parsed.root.NarrowsTo c m ↔ m = n) ∧
        ∃ around, (around = none ∧ n = parsed.root ∨ around = some n ∧ n ≠ parsed.root) ∧
          locate parsed.root c = CommentLocation.withinExpression
            { enclosing := around, preceding := n.lastBefore? c, following := n.firstBehind? c } c := by
  intro source
  -- the three facts about a node that the theorem asks for
  let fine (c : Comment) (n : Node) : Bool :=
    decide (n.start ≤ n.stop ∧ n.children.Pairwise Node.Apart ∧ ¬n.Cuts c)
  -- they are computed for every node of the tree
  have hfacts : (Grammar.parse source false).toOption.any (fun parsed =>
      parsed.comments.length == 1 && parsed.comments.all fun c =>
        decide (c.start < c.stop) && parsed.root.all (fine c)) = true := by
    decide +kernel
  cases hparse : Grammar.parse source false with
  | error fault => simp [hparse, Except.toOption] at hfacts
  | ok parsed =>
    simp only [hparse, Except.toOption, Option.any_some, Bool.and_eq_true, beq_iff_eq] at hfacts
    obtain ⟨c, hcomments⟩ := List.length_eq_one_iff.1 hfacts.1
    obtain ⟨hc, hall⟩ := Bool.and_eq_true_iff.1
      (List.all_eq_true.1 hfacts.2 c (by rw [hcomments]; exact List.mem_singleton_self c))
    -- what holds of all nodes, read off for one
    have hfine (n : Node) (hn : parsed.root.Reaches n) :
        n.start ≤ n.stop ∧ n.children.Pairwise Node.Apart ∧ ¬n.Cuts c :=
      of_decide_eq_true (Node.all_iff.1 (hn.of_all hall)).1
    have hspaced : parsed.root.Spaced := ⟨fun n hn => (hfine n hn).1, fun n hn => (hfine n hn).2.1⟩
    have hcuts (n : Node) (hn : parsed.root.Reaches n) : ¬n.Cuts c := (hfine n hn).2.2
    exact ⟨parsed, c, rfl, hcomments, hspaced, of_decide_eq_true hc, hcuts,
      locate_nearest hspaced (of_decide_eq_true hc) hcuts⟩

end Reflow
