import Reflow.Comment.Location
import Reflow.Proofs.Tree.Row

/-!
# Where a comment is located

The location of a comment is read off one node of the tree: the root, or the smallest node around the
comment.  The nodes next to the comment are children of that node and lie before and behind it.

## Key results

- `locate_located`: every location is read off a node that can be reached
- `Located.neighbours_of_if`: the two neighbours of a comment in a condition are next to each other
-/

namespace Reflow

variable {c : Comment} {children : List Node} {left right : Nat} {preceding following : Option Node}

/-- What the search among children finds stands where it is said to stand. -/
theorem searchChildren_between {P F : Option Node}
    (h : searchChildren children c left right preceding following = .between P F)
    (hP : ∀ p ∈ preceding, p ∈ children ∧ p.stop ≤ c.start)
    (hF : ∀ f ∈ following, f ∈ children ∧ c.stop ≤ f.start) :
    (∀ p ∈ P, p ∈ children ∧ p.stop ≤ c.start) ∧ ∀ f ∈ F, f ∈ children ∧ c.stop ≤ f.start := by
  -- induction along the search, of which both bounds only get closer
  fun_induction searchChildren children c left right preceding following with
  -- the search ends, and what was found last is kept
  | case1 | case5 | case6 =>
    cases h
    exact ⟨hP, hF⟩
  | case2 => cases h
  -- the child in the middle lies before the comment
  | case3 left right preceding following _ middle child hchild _ hstop ih =>
    refine ih h ?_ hF
    rintro p ⟨⟩
    exact ⟨List.mem_of_getElem? hchild, hstop⟩
  -- the child in the middle lies behind it
  | case4 left right preceding following _ middle child hchild _ _ hstart ih =>
    refine ih h hP ?_
    rintro f ⟨⟩
    exact ⟨List.mem_of_getElem? hchild, hstart⟩

/-- A child that is found to enclose a comment does. -/
theorem searchChildren_inside {index : Nat}
    (h : searchChildren children c left right preceding following = .inside index) :
    ∃ n, children[index]? = some n ∧ n.encloses c = true := by
  fun_induction searchChildren children c left right preceding following with
  | case1 | case5 | case6 => cases h
  | case2 left right preceding following _ middle child hchild hencloses =>
    exact ⟨child, ChildSearch.inside.inj h ▸ hchild, hencloses⟩
  | case3 _ _ _ _ _ _ _ _ _ _ ih => exact ih h
  | case4 _ _ _ _ _ _ _ _ _ _ _ ih => exact ih h

/-- In order, children need not be sorted. -/
theorem Node.sortedChildren_of_inOrder {n : Node} {p q : Nat} (h : InOrder p n.children q) :
    n.sortedChildren = n.children := by
  refine List.mergeSort_of_pairwise ?_
  generalize n.children = l at h
  induction l generalizing p with
  | nil => exact .nil
  | cons a rest ih =>
    obtain ⟨-, ha, -, hrest⟩ := h
    refine .cons (fun b hb => ?_) (ih hrest)
    have := hrest.of_mem hb
    simp only [startsBefore, Bool.or_eq_true, decide_eq_true_eq, Bool.and_eq_true, beq_iff_eq]
    omega

/-- A location is read off a node of the tree. -/
structure Located (root : Node) (c : Comment) (l : CommentLocation) (parent : Node) : Prop where
  reaches : root.Reaches parent
  enclosing : l.enclosing = none ∧ parent = root ∨
    l.enclosing = some parent ∧ parent ≠ root ∧ parent.encloses c = true
  found : ∃ P F, searchChildren parent.sortedChildren c 0 parent.sortedChildren.length none none =
    .between P F ∧ (∀ p ∈ l.preceding, P = some p) ∧ ∀ f ∈ l.following, F = some f

/-- The search comes down to a parent below which it ends. -/
theorem locateBelow_located {root n : Node} {enclosing : Option Node} (hn : root.Reaches n)
    (hle : sizeOf n ≤ sizeOf root)
    (henclosing : enclosing = none ∧ n = root ∨
      enclosing = some n ∧ n ≠ root ∧ n.encloses c = true) :
    ∃ parent, Located root c (locateBelow c enclosing n) parent := by
  -- induction down the nodes that enclose the comment
  fun_induction locateBelow c enclosing n with
  -- no child encloses it
  | case1 enclosing n _ P F h =>
    exact ⟨n, hn, henclosing, P, F, h, by simp, by simp⟩
  -- a child does, and it is below its parent
  | case2 enclosing n _ index h child hchild ih =>
    have hmem : child ∈ n.children := List.mem_mergeSort.1 (List.mem_of_getElem? hchild)
    have hlt := Node.sizeOf_child_lt hmem
    obtain ⟨m, hm, hencloses⟩ := searchChildren_inside h
    obtain rfl : child = m := Option.some.inj (hchild.symm.trans hm)
    refine ih (.child hn hmem) (by omega) (.inr ⟨rfl, ?_, hencloses⟩)
    rintro rfl
    omega
  | case3 enclosing n _ index h hnone =>
    obtain ⟨m, hm, -⟩ := searchChildren_inside h
    exact absurd (hm.symm.trans hnone) (by simp)

/-- In a template neighbours may be dropped, but none are added. -/
theorem withinExpression_enclosing (l : CommentLocation) :
    (l.withinExpression c).enclosing = l.enclosing := by
  unfold CommentLocation.withinExpression
  split <;> rfl

/-- Within an expression the node before is still the node before. -/
theorem preceding_of_withinExpression {l : CommentLocation} {p : Node}
    (h : p ∈ (l.withinExpression c).preceding) : p ∈ l.preceding := by
  unfold CommentLocation.withinExpression at h
  split at h
  · exact (Option.mem_filter_iff.1 h).1
  · exact h

/-- So is the node behind. -/
theorem following_of_withinExpression {l : CommentLocation} {f : Node}
    (h : f ∈ (l.withinExpression c).following) : f ∈ l.following := by
  unfold CommentLocation.withinExpression at h
  split at h
  · exact (Option.mem_filter_iff.1 h).1
  · exact h

/-- The search finds a parent in the tree. -/
theorem locate_located (root : Node) (c : Comment) :
    ∃ parent, Located root c (locate root c) parent := by
  obtain ⟨parent, h⟩ : ∃ parent, Located root c (locateBelow c none root) parent :=
    locateBelow_located .here (Nat.le_refl _) (.inl ⟨rfl, rfl⟩)
  obtain ⟨P, F, hfound, hP, hF⟩ := h.found
  refine ⟨parent, h.reaches, ?_, P, F, hfound, ?_, ?_⟩
  · rw [locate, withinExpression_enclosing]
    exact h.enclosing
  · exact fun p hp => hP p (preceding_of_withinExpression hp)
  · exact fun f hf => hF f (following_of_withinExpression hf)

namespace Located

variable {root parent p f n : Node} {l : CommentLocation}

/-- The node before a comment is a child of the parent, and ends in front of it. -/
theorem of_preceding (h : Located root c l parent) (hp : l.preceding = some p) :
    p ∈ parent.children ∧ p.stop ≤ c.start := by
  obtain ⟨P, F, hfound, hP, -⟩ := h.found
  have hmem := (searchChildren_between hfound (by simp) (by simp)).1 p (hP p hp)
  exact ⟨List.mem_mergeSort.1 hmem.1, hmem.2⟩

/-- The node behind a comment is a child of the parent, and starts behind it. -/
theorem of_following (h : Located root c l parent) (hf : l.following = some f) :
    f ∈ parent.children ∧ c.stop ≤ f.start := by
  obtain ⟨P, F, hfound, -, hF⟩ := h.found
  have hmem := (searchChildren_between hfound (by simp) (by simp)).2 f (hF f hf)
  exact ⟨List.mem_mergeSort.1 hmem.1, hmem.2⟩

/-- The node around a comment is the parent, unless that is the root. -/
theorem of_enclosing (h : Located root c l parent) (hn : l.enclosing = some n) :
    n = parent ∧ parent ≠ root ∧ parent.encloses c = true := by
  rcases h.enclosing with ⟨hnone, -⟩ | ⟨hsome, hne, hencloses⟩
  · rw [hn] at hnone
    cases hnone
  · rw [hn] at hsome
    exact ⟨Option.some.inj hsome, hne, hencloses⟩

/-- A node that is not the root encloses the comments that are located in it. -/
theorem of_ne_root (h : Located root c l parent) (hne : parent ≠ root) :
    l.enclosing = some parent ∧ parent.start ≤ c.start := by
  rcases h.enclosing with ⟨-, heq⟩ | ⟨hsome, -, hencloses⟩
  · exact absurd heq hne
  · simp only [Node.encloses, Bool.and_eq_true, decide_eq_true_eq] at hencloses
    exact ⟨hsome, hencloses.1⟩

/-- The node before a comment is in the tree. -/
theorem reaches_preceding (h : Located root c l parent) (hp : l.preceding = some p) :
    root.Reaches p := .child h.reaches (h.of_preceding hp).1

/-- So is the node behind it. -/
theorem reaches_following (h : Located root c l parent) (hf : l.following = some f) :
    root.Reaches f := .child h.reaches (h.of_following hf).1

/-- So is the node around it. -/
theorem reaches_enclosing (h : Located root c l parent) (hn : l.enclosing = some n) :
    root.Reaches n := (h.of_enclosing hn).1 ▸ h.reaches

end Located

/-- A search that has nothing left to look at. -/
theorem searchChildren_done : searchChildren children c left left preceding following =
    .between preceding following := by
  rw [searchChildren, dif_neg (Nat.lt_irrefl left)]

/-- One step of the search that ends between two children. -/
theorem searchChildren_step (child : Node) {P F : Option Node} (hlt : left < right)
    (hchild : children[(left + right) / 2]? = some child)
    (h : searchChildren children c left right preceding following = .between P F) :
    searchChildren children c ((left + right) / 2 + 1) right (some child) following = .between P F ∨
    searchChildren children c left ((left + right) / 2) preceding (some child) = .between P F ∨
    (P = preceding ∧ F = following) := by
  -- one turn of the search, with the child in the middle
  rw [searchChildren, dif_pos hlt] at h
  simp only [hchild] at h
  split at h
  · cases h
  · split at h
    · -- the child lies before the comment, so that the search goes on behind it
      exact .inl h
    · split at h
      · exact .inr (.inl h)
      · -- the child lies on neither side, and the search ends
        cases h
        exact .inr (.inr ⟨rfl, rfl⟩)

/-- A search with one child left. -/
theorem searchChildren_last (child : Node) {P F : Option Node}
    (hchild : children[left]? = some child)
    (h : searchChildren children c left (left + 1) preceding following = .between P F) :
    (P = some child ∧ F = following) ∨ (P = preceding ∧ F = some child) ∨
      (P = preceding ∧ F = following) := by
  have hmiddle : (left + (left + 1)) / 2 = left := by omega
  have h := searchChildren_step child (by omega) (by rw [hmiddle]; exact hchild) h
  rw [hmiddle, searchChildren_done, searchChildren_done] at h
  simpa [eq_comm] using h

/-- Among two children, a comment between two of them lies before the second. -/
theorem searchChildren_two {a b p f : Node}
    (h : searchChildren [a, b] c 0 2 none none = .between (some p) (some f)) :
    p = a ∧ f = b := by
  rcases searchChildren_step b (by omega) rfl h with h | h | h
  · simp [searchChildren_done] at h
  · simpa using searchChildren_last a rfl h
  · simp at h

/-- Among three children, a comment between two of them lies before the second or behind it. -/
theorem searchChildren_three {a b d p f : Node}
    (h : searchChildren [a, b, d] c 0 3 none none = .between (some p) (some f)) :
    p = a ∧ f = b ∨ p = b ∧ f = d := by
  rcases searchChildren_step b (by omega) rfl h with h | h | h
  · exact .inr (by simpa using searchChildren_last d rfl h)
  · exact .inl (by simpa using searchChildren_last a rfl h)
  · simp at h

/-- A comment between two children of a condition lies before the first branch, or between the two
branches. -/
theorem Located.neighbours_of_if {root parent p f test consequent : Node} {alternate : Option Node}
    {l : CommentLocation} (h : Located root c l parent) (hparent : parent.Sound)
    (hform : parent.form = .ifStatement test consequent alternate) (hp : l.preceding = some p)
    (hf : l.following = some f) : f = consequent ∨ p = consequent ∧ alternate = some f := by
  -- the branches are the children, in their order
  have hchildren : parent.children = test :: consequent :: alternate.toList := by
    rw [hparent.full (by rw [hform]; rfl), Node.placedChildren, hform]
    simp [Form.children, Form.fields]
  have hplain : parent.form.isPlain = true := by rw [hform]; rfl
  have horder := hparent.order
  rw [Node.inside_of_isPlain hplain, Node.row_of_isPlain hplain] at horder
  obtain ⟨P, F, hfound, hP, hF⟩ := h.found
  -- the search is through that order
  rw [Node.sortedChildren_of_inOrder horder, hchildren, hP p hp, hF f hf] at hfound
  -- without an alternative there is one pair of neighbours, with one there are two
  cases alternate with
  | none => exact .inl (searchChildren_two hfound).2
  | some d =>
    rcases searchChildren_three hfound with ⟨-, h⟩ | ⟨h, rfl⟩
    · exact .inl h
    · exact .inr ⟨h, rfl⟩

end Reflow
