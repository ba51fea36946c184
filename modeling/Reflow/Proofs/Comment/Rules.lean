import Reflow.Comment.Attach
import Reflow.Proofs.Comment.Location

/-!
# Where the rules put comments

Every rule puts a comment on a node that can be reached from the root.  A comment that waits between
two nodes and a later comment that a rule takes never meet on the same side of the same node, so that
it does not matter which of them is attached first.

## Key results

- `byRules_reaches`: the rules put comments on nodes of the tree
- `Waits.not_meets`: a comment that waits and a later one that a rule takes do not meet
-/

namespace Reflow.Attach

variable {root parent m n : Node} {source : Source} {c : Comment} {l : CommentLocation}
  {t : CommentTarget}

@[simp, grind =] theorem leading_eq (n : Node) : leading n = some ⟨n, .leading⟩ := rfl

@[simp, grind =] theorem trailing_eq (n : Node) : trailing n = some ⟨n, .trailing⟩ := rfl

@[simp, grind =] theorem dangling_eq (n : Node) : dangling n = some ⟨n, .dangling⟩ := rfl

/-- The forms that hold members hold each of them once, and take them in. -/
theorem of_firstMember? (h : firstMember? n = some m) :
    m ∈ n.form.children.map (·.2) ∧ n.form.mayRepeat = false ∧ n.form.isPlain = true ∧
      ∀ left right, n.form ≠ .assignmentPattern left right := by
  unfold firstMember? at h
  -- the member is found in one of the fields, as an element or behind an empty place
  split at h
  case h_1 hform | h_2 hform | h_3 hform =>
    have := List.mem_of_find?_eq_some h
    simp [hform, Form.children, Form.fields, Form.mayRepeat, Form.isPlain, this]
  case h_4 hform =>
    have := List.mem_of_head? h
    simp [hform, Form.children, Form.fields, Form.mayRepeat, Form.isPlain, this]
  case h_5 elements hform =>
    obtain ⟨a, ha, rfl⟩ := List.exists_of_findSome?_eq_some h
    have : ∃ a ∈ elements, m ∈ a := ⟨_, ha, rfl⟩
    simpa [hform, Form.children, Form.fields, Form.mayRepeat, Form.isPlain] using this
  case h_6 => cases h

/-- Before the first member of a node, or inside it. -/
theorem firstInBlock_eq_some (h : firstInBlock n = some t) :
    (∃ m, firstMember? n = some m ∧ t = ⟨m, .leading⟩) ∨ t = ⟨n, .dangling⟩ := by
  unfold firstInBlock at h
  split at h
  next m hm => exact .inl ⟨m, hm, (Option.some.inj h).symm⟩
  next => exact .inr (Option.some.inj h).symm

/-- A block always gives a target: its first statement, or itself. -/
theorem firstInBlock_ne_none (n : Node) : firstInBlock n ≠ none := by
  unfold firstInBlock
  split <;> simp

/-- That target is in the tree. -/
theorem firstInBlock_reaches (hw : root.WellBuilt) (hn : root.Reaches n)
    (h : firstInBlock n = some t) : root.Reaches t.node := by
  rcases firstInBlock_eq_some h with ⟨m, hm, rfl⟩ | rfl
  · obtain ⟨hmem, hrepeat, -, -⟩ := of_firstMember? hm
    exact .child hn (hw.mem_children hn hrepeat hmem)
  · exact hn

/-- The rules that put a comment on a node next to it. -/
def nearbyRules : List AttachRule :=
  [memberProperty, conditionalBranch, insideProperty, lastParameter, emptyParentheses, beforeArrow,
   behindMemberDecorators, insideSpecifier, behindSpecifier, insideDefault]

/-- The rules that look nearby attach to one of the three nodes that were found. -/
theorem nearbyRules_target {rule : AttachRule} (hrule : rule ∈ nearbyRules)
    (h : rule source c l = some t) :
    l.enclosing = some t.node ∨ l.preceding = some t.node ∨ l.following = some t.node := by
  -- rule by rule: each takes a neighbour or the enclosing node
  simp only [nearbyRules, List.mem_cons, List.not_mem_nil, or_false] at hrule
  rcases hrule with rfl | rfl | rfl | rfl | rfl | rfl | rfl | rfl | rfl | rfl
  · grind [memberProperty]
  · grind [conditionalBranch]
  · grind [insideProperty]
  · grind [lastParameter]
  · grind [emptyParentheses]
  · grind [beforeArrow]
  · grind [behindMemberDecorators]
  · grind [insideSpecifier]
  · grind [behindSpecifier]
  · grind [insideDefault]

section

variable (hw : root.WellBuilt) (hl : Located root c l parent)

include hw hl

/-- A container without members is in the tree. -/
theorem emptyContainer_reaches (h : emptyContainer source c l = some t) : root.Reaches t.node := by
  unfold emptyContainer at h
  split at h
  next e hform =>
    obtain ⟨enclosing, hsome, hform⟩ := Option.map_eq_some_iff.1 hform
    have ht : t.node = e := by grind
    have hn := hl.reaches_enclosing hsome
    refine .child hn (hw.mem_children hn (by simp [hform, Form.mayRepeat]) ?_)
    simp [hform, ht, Form.children, Form.fields]
  next => cases h

/-- So is the first argument of a call. -/
theorem firstArgument_reaches (h : firstArgument source c l = some t) : root.Reaches t.node := by
  unfold firstArgument at h
  split at h
  next callee first rest optional hform =>
    obtain ⟨enclosing, hsome, hform⟩ := Option.map_eq_some_iff.1 hform
    have ht : t.node = first := by grind
    have hn := hl.reaches_enclosing hsome
    refine .child hn (hw.mem_children hn (by simp [hform, Form.mayRepeat]) ?_)
    simp [hform, ht, Form.children, Form.fields]
  next => cases h

/-- So is a class whose decorators the comment stands behind. -/
theorem behindClassDecorators_reaches (h : behindClassDecorators source c l = some t) :
    root.Reaches t.node := by
  unfold behindClassDecorators at h
  split at h
  next decorators _ _ _ _ hform =>
    obtain ⟨enclosing, hsome, hform⟩ := Option.map_eq_some_iff.1 hform
    have ht : decorators.getLast? = some t.node := by grind
    have := List.mem_of_getLast? ht
    have hn := hl.reaches_enclosing hsome
    refine .child hn (hw.mem_children hn (by simp [hform, Form.mayRepeat]) ?_)
    simp [hform, this, Form.children, Form.fields]
  next => cases h

/-- So is a value that is assigned. -/
theorem assignedValue_reaches (h : assignedValue source c l = some t) : root.Reaches t.node := by
  have hfollowing : ∃ f, l.following = some f ∧ firstInBlock f = some t := by
    grind [assignedValue]
  obtain ⟨f, hf, ht⟩ := hfollowing
  exact firstInBlock_reaches hw (hl.reaches_following hf) ht

/-- So is the body of a function. -/
theorem beforeFunctionBody_reaches (h : beforeFunctionBody source c l = some t) :
    root.Reaches t.node := by
  have hfollowing : ∃ f, l.following = some f ∧ firstInBlock f = some t := by
    grind [beforeFunctionBody]
  obtain ⟨f, hf, ht⟩ := hfollowing
  exact firstInBlock_reaches hw (hl.reaches_following hf) ht

end

/-- What the rule for conditions does: a comment goes behind what precedes it or behind the first
branch, into the condition, or before something in what follows. -/
theorem ifBranches_eq_some (h : ifBranches source c l = some t) :
    ∃ enclosing following test consequent alternate,
      l.enclosing = some enclosing ∧ l.following = some following ∧
      enclosing.form = .ifStatement test consequent alternate ∧
      (l.preceding = some t.node ∧ t.role = .trailing ∨
        t.node = consequent ∧ t.role = .trailing ∨
        t.node = enclosing ∧ t.role = .dangling ∨
        t.node = following ∧ t.role = .leading ∨
        firstInBlock following = some t ∨
        ∃ test' inner alternate', following.form = .ifStatement test' inner alternate' ∧
          (firstInBlock inner = some t ∨ t.node = inner ∧ t.role = .leading)) := by
  unfold ifBranches at h
  -- the rule asks for both neighbours, and for a conditional around them
  split at h
  next enclosing following hE hF =>
    split at h
    next test consequent alternate hform =>
      refine ⟨enclosing, following, test, consequent, alternate, hE, hF, hform, ?_⟩
      -- the comment stands in front of `else`, or the branch behind it decides
      split at h
      · obtain ⟨p, hp, ht⟩ := Option.bind_eq_some_iff.1 h
        cases ht
        exact .inl ⟨hp, rfl⟩
      · grind
    next => cases h
  next => cases h

/-- The branches of a conditional statement are its children. -/
theorem branch_mem_children (hw : root.WellBuilt) (hn : root.Reaches n) {test consequent : Node}
    {alternate : Option Node} (hform : n.form = .ifStatement test consequent alternate) :
    consequent ∈ n.children := by
  refine hw.mem_children hn (by simp [hform, Form.mayRepeat]) ?_
  simp [hform, Form.children, Form.fields]

/-- A target in one of its branches is in the tree. -/
theorem ifBranches_reaches (hw : root.WellBuilt) (hl : Located root c l parent)
    (h : ifBranches source c l = some t) : root.Reaches t.node := by
  obtain ⟨enclosing, following, test, consequent, alternate, hE, hF, hform, ht⟩ :=
    ifBranches_eq_some h
  have henclosing := hl.reaches_enclosing hE
  have hfollowing := hl.reaches_following hF
  -- each target lies in the tree, because what it was found from does
  rcases ht with ⟨hp, -⟩ | ⟨rfl, -⟩ | ⟨rfl, -⟩ | ⟨rfl, -⟩ | ht | ⟨_, inner, _, hinner, ht⟩
  · exact hl.reaches_preceding hp
  · exact .child henclosing (branch_mem_children hw henclosing hform)
  · exact henclosing
  · exact hfollowing
  · exact firstInBlock_reaches hw hfollowing ht
  · have hinner : root.Reaches inner :=
      .child hfollowing (branch_mem_children hw hfollowing hinner)
    rcases ht with ht | ⟨rfl, -⟩
    · exact firstInBlock_reaches hw hinner ht
    · exact hinner

/-- The rules that put a comment on a node below the nodes next to it. -/
def deeperRules : List AttachRule :=
  [emptyContainer, ifBranches, firstArgument, behindClassDecorators, assignedValue,
   beforeFunctionBody]

/-- So is what the rules find that look deeper. -/
theorem deeperRules_reaches (hw : root.WellBuilt) (hl : Located root c l parent)
    {rule : AttachRule} (hrule : rule ∈ deeperRules) (h : rule source c l = some t) :
    root.Reaches t.node := by
  simp only [deeperRules, List.mem_cons, List.not_mem_nil, or_false] at hrule
  rcases hrule with rfl | rfl | rfl | rfl | rfl | rfl
  · exact emptyContainer_reaches hw hl h
  · exact ifBranches_reaches hw hl h
  · exact firstArgument_reaches hw hl h
  · exact behindClassDecorators_reaches hw hl h
  · exact assignedValue_reaches hw hl h
  · exact beforeFunctionBody_reaches hw hl h

/-- The rules for comments on a line of their own are among the two kinds. -/
theorem ownLineRules_subset : ownLineRules ⊆ nearbyRules ++ deeperRules := by
  simp [ownLineRules, nearbyRules, deeperRules]

/-- So are those for comments at the end of a line. -/
theorem endOfLineRules_subset : endOfLineRules ⊆ nearbyRules ++ deeperRules := by
  simp [endOfLineRules, nearbyRules, deeperRules]

/-- So are those for the other comments. -/
theorem remainingRules_subset : remainingRules ⊆ nearbyRules ++ deeperRules := by
  simp [remainingRules, nearbyRules, deeperRules]

/-- Rules put comments on nodes of the tree. -/
theorem byRules_reaches (hw : root.WellBuilt) (hl : Located root c l parent)
    {rules : List AttachRule} (hrules : rules ⊆ nearbyRules ++ deeperRules)
    (h : byRules rules source c l = some t) : root.Reaches t.node := by
  obtain ⟨rule, hrule, h⟩ := List.exists_of_findSome?_eq_some h
  rcases List.mem_append.1 (hrules hrule) with hrule | hrule
  · rcases nearbyRules_target hrule h with h | h | h
    · exact hl.reaches_enclosing h
    · exact hl.reaches_preceding h
    · exact hl.reaches_following h
  · exact deeperRules_reaches hw hl hrule h

/-! ### Comments that wait -/

/-- A comment that no rule takes, between two nodes on one line. -/
structure Waits (root : Node) (source : Source) (tie : Tie) : Prop where
  preceding : (locate root tie.comment).preceding = some tie.preceding
  following : (locate root tie.comment).following = some tie.following
  free : byRules remainingRules source tie.comment (locate root tie.comment) = none

/-- A waiting comment may come to stand on that side of the node with that number. -/
def Tie.Meets (tie : Tie) (owner : Nat) (role : CommentRole) : Prop :=
  role = .trailing ∧ owner = tie.preceding.id ∨ role = .leading ∧ owner = tie.following.id

/-- A comment that waits has passed all rules for the other comments. -/
theorem Waits.rule_eq_none {tie : Tie} (h : Waits root source tie) (rule : AttachRule)
    (hrule : rule ∈ remainingRules) :
    rule source tie.comment (locate root tie.comment) = none :=
  List.findSome?_eq_none_iff.1 h.free rule hrule

/-- In a condition no comment waits. -/
theorem Waits.not_in_if {tie : Tie} (h : Waits root source tie) (hw : root.WellBuilt)
    (hl : Located root tie.comment (locate root tie.comment) parent) (hne : parent ≠ root)
    {test consequent : Node} {alternate : Option Node} :
    parent.form ≠ .ifStatement test consequent alternate := by
  intro hform
  have hnone := h.rule_eq_none ifBranches (by simp [remainingRules])
  have hsame : ∀ n : Node, n.same n = true := fun n => by simp [Node.same]
  have hneighbours := hl.neighbours_of_if (hw.sound_of_reaches hl.reaches) hform h.preceding
    h.following
  simp only [ifBranches, (hl.of_ne_root hne).1, h.following, h.preceding, hform, Option.bind_some,
    Option.any_some] at hnone
  -- the rule takes a comment before the first branch and one between the branches
  rcases hneighbours with rfl | ⟨rfl, rfl⟩
  · grind [firstInBlock_ne_none]
  · grind

/-- The members of a class body. -/
def isMember (n : Node) : Bool :=
  match n.form with
  | .classMethod .. | .classProperty .. => true
  | _ => false

/-- Behind the decorators of a member a comment trails the last of them. -/
theorem behindMemberDecorators_eq_some (h : behindMemberDecorators source c l = some t) :
    (∃ n, l.enclosing = some n ∧ isMember n = true) ∧ l.preceding = some t.node ∧
      t.node.isDecorator = true ∧ t.role = .trailing := by
  cases hE : l.enclosing with
  | none => simp [behindMemberDecorators, hE] at h
  | some n =>
    simp only [behindMemberDecorators, hE, Option.map_some] at h
    have hmember : isMember n = true := by grind [isMember]
    refine ⟨⟨n, rfl, hmember⟩, ?_⟩
    grind

/-- Behind a decorator of a member no comment waits. -/
theorem Waits.not_behind_decorator {tie : Tie} (h : Waits root source tie)
    (hl : Located root tie.comment (locate root tie.comment) parent) (hne : parent ≠ root)
    (hparent : isMember parent = true) : tie.preceding.isDecorator = false := by
  have hnone := h.rule_eq_none behindMemberDecorators (by simp [remainingRules])
  simp only [behindMemberDecorators, (hl.of_ne_root hne).1, h.preceding, Option.map_some] at hnone
  grind [isMember]

/-- Of the rules for comments with code on both sides, two do not put them inside a node. -/
theorem remainingRules_target (h : byRules remainingRules source c l = some t) :
    t.role = .dangling ∨ ifBranches source c l = some t ∨
      behindMemberDecorators source c l = some t := by
  obtain ⟨rule, hrule, h⟩ := List.exists_of_findSome?_eq_some h
  simp only [remainingRules, List.mem_cons, List.not_mem_nil, or_false] at hrule
  rcases hrule with rfl | rfl | rfl | rfl | rfl
  · left; grind [emptyContainer]
  · exact .inr (.inl h)
  · left; grind [emptyParentheses]
  · exact .inr (.inr h)
  · left; grind [beforeArrow]

section

variable {tie : Tie} (h : Waits root source tie) (hw : root.WellBuilt)

include h hw

/-- If the node behind a waiting comment is a child of a node, that node starts before the
comment. -/
theorem Waits.start_le (hn : root.Reaches n) (hne : n ≠ root) (hplain : n.form.isPlain = true)
    (hpattern : ∀ left right, n.form ≠ .assignmentPattern left right) (hm : m ∈ n.children)
    (hid : m.id = tie.following.id) : n.start ≤ tie.comment.start := by
  obtain ⟨parent, hl⟩ := locate_located root tie.comment
  obtain rfl := hw.parent_unique hl.reaches hn hplain hpattern (hl.of_following h.following).1 hm
    hid.symm
  exact (hl.of_ne_root hne).2

/-- The nodes next to a waiting comment are no children of a condition. -/
theorem Waits.not_meets_child_of_if (hn : root.Reaches n) (hne : n ≠ root) {test consequent : Node}
    {alternate : Option Node} (hform : n.form = .ifStatement test consequent alternate)
    (ht : t.node ∈ n.children) : ¬tie.Meets t.node.id t.role := by
  obtain ⟨parent, hl⟩ := locate_located root tie.comment
  -- neither form shares its children with another node
  have hplain : n.form.isPlain = true := by rw [hform]; rfl
  have hpattern : ∀ left right, n.form ≠ .assignmentPattern left right := by simp [hform]
  -- a tie that meets the target would have the target next to it, in a conditional
  rintro (⟨-, hid⟩ | ⟨-, hid⟩)
  · obtain rfl := hw.parent_unique hl.reaches hn hplain hpattern (hl.of_preceding h.preceding).1 ht
      hid.symm
    exact h.not_in_if hw hl hne hform
  · obtain rfl := hw.parent_unique hl.reaches hn hplain hpattern (hl.of_following h.following).1 ht
      hid.symm
    exact h.not_in_if hw hl hne hform

/-- A waiting comment does not go before the first member of a node that starts behind it. -/
theorem Waits.not_meets_firstInBlock (hn : root.Reaches n) (hne : n ≠ root)
    (hstart : tie.comment.start < n.start) (ht : firstInBlock n = some t) :
    ¬tie.Meets t.node.id t.role := by
  rcases firstInBlock_eq_some ht with ⟨m, hm, rfl⟩ | rfl
  · obtain ⟨hmem, hrepeat, hplain, hpattern⟩ := of_firstMember? hm
    rintro (⟨hrole, -⟩ | ⟨-, hid⟩)
    · cases hrole
    · have := h.start_le hw hn hne hplain hpattern (hw.mem_children hn hrepeat hmem) hid
      omega
  · rintro (⟨hrole, -⟩ | ⟨hrole, -⟩) <;> cases hrole

/-- What waits is not met by a comment between branches. -/
theorem Waits.not_meets_ifBranches (hlt : tie.comment.start < c.start) (hc : c.start ≤ c.stop)
    (ht : ifBranches source c (locate root c) = some t) : ¬tie.Meets t.node.id t.role := by
  obtain ⟨parent, hl⟩ := locate_located root c
  obtain ⟨enclosing, following, test, consequent, alternate, hE, hF, hform, ht⟩ :=
    ifBranches_eq_some ht
  obtain ⟨rfl, hne, -⟩ := hl.of_enclosing hE
  obtain ⟨hfollowing, hstop⟩ := hl.of_following hF
  have hreaches := hl.reaches_following hF
  have hroot := hl.reaches.child_ne_root hfollowing
  -- what the later comment stands before starts behind the waiting one
  have hstart : tie.comment.start < following.start := by omega
  rcases ht with ⟨hp, -⟩ | ⟨rfl, -⟩ | ⟨-, hrole⟩ | ⟨rfl, -⟩ | ht | ⟨_, inner, _, hinner, ht⟩
  · exact h.not_meets_child_of_if hw hl.reaches hne hform (hl.of_preceding hp).1
  · exact h.not_meets_child_of_if hw hl.reaches hne hform (branch_mem_children hw hl.reaches hform)
  · simp [Tie.Meets, hrole]
  · exact h.not_meets_child_of_if hw hl.reaches hne hform hfollowing
  · exact h.not_meets_firstInBlock hw hreaches hroot hstart ht
  · have hmem := branch_mem_children hw hreaches hinner
    rcases ht with ht | ⟨rfl, -⟩
    · have hplain : following.form.isPlain = true := by rw [hinner]; rfl
      have horder := (hw.sound_of_reaches hreaches).order
      rw [Node.inside_of_isPlain hplain, Node.row_of_isPlain hplain] at horder
      have hle := (horder.of_mem hmem).1
      exact h.not_meets_firstInBlock hw (.child hreaches hmem) (hreaches.child_ne_root hmem)
        (by omega) ht
    · exact h.not_meets_child_of_if hw hreaches hroot hinner hmem

/-- Nor is it by one behind decorators. -/
theorem Waits.not_meets_behindMemberDecorators
    (ht : behindMemberDecorators source c (locate root c) = some t) :
    ¬tie.Meets t.node.id t.role := by
  obtain ⟨parent, hl⟩ := locate_located root c
  obtain ⟨⟨n, hE, hmember⟩, hp, hdecorator, hrole⟩ := behindMemberDecorators_eq_some ht
  -- the comment stands among the members of a class
  obtain ⟨rfl, hne, -⟩ := hl.of_enclosing hE
  have hplain : n.form.isPlain = true := by grind [isMember, Form.isPlain]
  have hpattern : ∀ left right, n.form ≠ .assignmentPattern left right := by grind [isMember]
  -- a tie behind the decorator would have the decorator in front of it
  rintro (⟨-, hid⟩ | ⟨hleading, -⟩)
  · obtain ⟨parent', hl'⟩ := locate_located root tie.comment
    obtain rfl := hw.parent_unique hl'.reaches hl.reaches hplain hpattern
      (hl'.of_preceding h.preceding).1 (hl.of_preceding hp).1 hid.symm
    have hnode := hw.eq_of_id (hl.reaches_preceding hp) (hl'.reaches_preceding h.preceding) hid
    have hnot := h.not_behind_decorator hl' hne hmember
    rw [← hnode, hdecorator] at hnot
    -- the rule never puts a comment in front
    cases hnot
  · rw [hrole] at hleading
    cases hleading

/-- A comment that waits and a later one that a rule takes do not meet. -/
theorem Waits.not_meets (hlt : tie.comment.start < c.start) (hc : c.start ≤ c.stop)
    (ht : byRules remainingRules source c (locate root c) = some t) :
    ¬tie.Meets t.node.id t.role := by
  rcases remainingRules_target ht with hrole | ht | ht
  · simp [Tie.Meets, hrole]
  · exact h.not_meets_ifBranches hw hlt hc ht
  · exact h.not_meets_behindMemberDecorators hw ht

end

end Reflow.Attach
