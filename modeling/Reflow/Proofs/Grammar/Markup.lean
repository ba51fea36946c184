import Reflow.Grammar.Markup
import Reflow.Proofs.Grammar.Pieces

/-!
# Markup builds rows

Tags, attributes, elements and what stands between tags.  An element starts at a bracket that was
taken before its rule is called; so does a closing tag.
-/

namespace Reflow.Grammar

-- the children of a node are read off its form
attribute [local simp] Form.children Form.fields

variable {parse : Rule → Parse Node} (hp : BuildRules parse) {i p : Nat} {l : List Node} {n : Node}
  {s : State} {start : Position}

/-- To pass over a token makes no nodes, in any mode. -/
theorem pass_moves (mode : ScanMode) : Moves (discard (advance mode)) :=
  fun _ hs => (pass_leads hs mode).mono fun _ _ _ _ => trivial

/-- Nor does a punctuator that has to be there. -/
theorem expectPunctuator_moves (value : String) (mode : ScanMode) :
    Moves (expectPunctuator value mode) :=
  fun _ hs => (expectPunctuator_leads hs value mode).mono fun _ _ _ _ => trivial

/-- A name in markup is one node. -/
theorem markupIdentifier_builds (wanted : Wanted) : Builds (markupIdentifier wanted) ([·]) := by
  intro s hs
  refine .look _ rfl (.look _ rfl (unless_leads (want_leads _) (.look _ rfl ?_)))
  refine (advance_leads hs _).bind fun token s1 h1 hback => ?_
  exact node_built ((Built.start hs).kept h1) rfl hback.2 (by simp)

/-- The name of a tag is one node, around the names between its dots. -/
theorem tagName_builds : Builds tagName ([·]) := by
  intro s hs
  refine .look _ rfl ((markupIdentifier_builds _ s hs).bind fun name s1 _ b1 => ?_)
  -- a prefix, or members one after the other
  refine .look _ rfl (.ite (fun _ => .look _ rfl ?_) fun _ => ?_)
  · refine ((pass_moves _).after b1).bind fun _ s2 _ b2 => ?_
    refine ((markupIdentifier_builds _).after b2).bind fun inner s3 _ b3 => ?_
    exact node_built b3 rfl (b3.le_back (by simp)) (by simp)
  · -- the name that was read last is the only node of the row
    refine extend_leads (Q := fun n s' => Built s.nextId s.front [n] s') (fun _ _ b => b.ready)
      (fun _ _ b => b.noted) ?_ b1
    intro object s2 b2
    refine .look _ rfl (.ite (fun _ => .look _ rfl ?_) fun _ => pure_leads b2.ready b2)
    refine ((pass_moves _).after b2).bind fun _ s3 _ b3 => ?_
    refine ((markupIdentifier_builds _).after b3).bind fun property s4 _ b4 => ?_
    exact (node_built b4 rfl (b4.le_back (by simp)) (by simp)).bind fun _ _ _ b5 =>
      pure_leads b5.ready b5

include hp

/-- An element is one node, from its opening bracket on. -/
theorem element_builds (after : ScanMode) : Builds (element parse after) ([·]) := by
  intro s hs
  refine .look _ rfl (.look _ rfl ((pass_leads hs _).bind fun _ s1 h1 hback => ?_))
  exact hp.element after ((Built.start hs).kept h1) hback

/-- An expression in braces is one node. -/
theorem expressionContainer_builds (after : ScanMode) (child : Bool) :
    Builds (expressionContainer parse after child) ([·]) := by
  intro s hs
  refine .look _ rfl ((skip_leads hs).bind fun _ s1 h1 hback => ?_)
  have b1 := (Built.start hs).kept h1
  refine .look _ rfl (.ite (fun _ => .get_bind ?_) fun _ => ?_)
  · refine (nodeAt_leads h1.ready _).bind fun empty s2 h2 ⟨hempty, hs2⟩ => ?_
    subst hs2
    refine (expectPunctuator_leads h2.ready _ _).bind fun _ s3 h3 hback3 => ?_
    -- the empty expression lies between the braces, before what the closing one is taken with
    have hrow : Row s.nextId s1.back [empty] (s1.nextId + 1) s1.front := by
      rw [hempty]
      exact (Row.nil s.nextId s1.back s1.nextId 0).node rfl rfl h1.ids (Nat.le_refl _)
        h1.ready.front (Nat.zero_le _)
    have b3 : Built s.nextId s.front [empty] s3 := ⟨h3.ready,
      Nat.le_trans h1.ids (h2.trans h3).ids, Nat.le_trans h1.front (h2.trans h3).front,
      hrow.widen (Nat.le_refl _) hback h3.ids hback3⟩
    exact node_built b3 rfl (b3.le_back (by simp)) (by simp)
  · refine either_leads (P := fun _ s' => Built s.nextId s.front [] s') ((eat_moves _).after b1)
      (pure_leads b1.ready b1) fun spread s2 _ b2 => ?_
    refine (hp.expression.after b2).bind fun expression s3 _ b3 => ?_
    refine ((expectPunctuator_moves _ _).after b3).bind fun _ s4 _ b4 => ?_
    cases spread <;> exact node_built b4 rfl (b4.le_back (by simp)) (by simp)

/-- The value of an attribute is one node. -/
theorem attributeValue_builds : Builds (attributeValue parse) ([·]) := by
  intro s hs
  refine .get_bind (.look _ rfl ((pass_leads hs _).bind fun _ s1 h1 _ => ?_))
  have b1 := (Built.start hs).kept h1
  refine .look _ rfl (.look _ rfl (.ite (fun _ => .look _ rfl ?_) fun _ => ?_))
  · refine b1.leads ([·]) ((pass_leads h1.ready _).bind fun _ s2 h2 hback => ?_)
    exact node_built ((Built.start h1.ready).kept h2) rfl hback (by simp)
  · refine .ite (fun _ => .look _ rfl ((expressionContainer_builds hp _ _).after b1)) fun _ => ?_
    exact .ite (fun _ => .look _ rfl ((element_builds hp _).after b1)) fun _ => want_leads _

/-- An attribute is one node, around its name and its value. -/
theorem tagAttribute_builds : Builds (tagAttribute parse) ([·]) := by
  intro s hs
  -- an interpolation in the place of an attribute, or a name
  refine .look _ rfl (.get_bind (.look _ rfl (.ite (fun _ => ?_) fun _ => ?_)))
  · refine (skip_leads hs).bind fun _ s1 h1 _ => ?_
    refine (expect_leads h1.ready _).bind fun _ s2 h2 _ => ?_
    refine (hp.assignment.after ((Built.start hs).kept (h1.trans h2))).bind
      fun argument s3 _ b3 => .look _ rfl ?_
    refine ((expectPunctuator_moves _ _).after b3).bind fun _ s4 _ b4 => ?_
    exact node_built b4 rfl (b4.le_back (by simp)) (by simp)
  · refine (markupIdentifier_builds _ s hs).bind fun first s1 _ b1 => .look _ rfl ?_
    extract_lets finish
    -- the value follows the name, if there is one
    have hfinish : ∀ name s2, Built s.nextId s.front [name] s2 →
        course.Leads (finish name) s2 fun n s' => Built s.nextId s.front [n] s' := by
      intro name s2 b2
      refine .look _ rfl (either_leads
        (P := fun o s' => Built s.nextId s.front ([name] ++ o.toList) s')
        (.map ((attributeValue_builds hp).after b2)) (pure_leads b2.ready b2) ?_)
      intro value s3 _ b3
      exact node_built b3 rfl (b3.le_back (by simp)) (by simp)
    refine .ite (fun _ => .look _ rfl ?_) fun _ => hfinish first s1 b1
    refine ((pass_moves _).after b1).bind fun _ s2 _ b2 => ?_
    refine ((markupIdentifier_builds _).after b2).bind fun inner s3 _ b3 => ?_
    exact (node_built b3 rfl (b3.le_back (by simp)) (by simp)).bind fun name s4 _ b4 =>
      hfinish name s4 b4

/-- A child of an element is one node. -/
theorem child_builds (mode : ScanMode) (topLevel : Bool) :
    Builds (child parse mode topLevel) ([·]) := by
  intro s hs
  refine .look _ rfl (.look _ rfl (.ite (fun _ => ?_) fun _ => .ite (fun _ => ?_) fun _ => ?_))
  · refine (pass_leads hs _).bind fun _ s1 h1 hback => ?_
    exact node_built ((Built.start hs).kept h1) rfl hback (by simp)
  · refine (pass_leads hs _).bind fun _ s1 h1 hback => ?_
    exact node_built ((Built.start hs).kept h1) rfl hback (by simp)
  · refine .ite (fun _ => expressionContainer_builds hp _ _ s hs) fun _ => ?_
    exact .ite (fun _ => element_builds hp _ s hs) fun _ => failAhead_leads _

/-- The nodes up to a closing tag, and the bracket of that tag lies behind them. -/
theorem childrenUpTo_leads (mode : ScanMode) (n : Nat) (hs : s.Ready) :
    course.Leads (childrenUpTo parse mode n) s fun r s' =>
      ∃ s1, s.Kept s1 ∧ Built s.nextId s.front r.1 s1 ∧ s1.Kept s' ∧ r.2.offset = s1.front ∧
        s1.front ≤ s'.back := by
  -- by induction on the rounds: every child stands behind those before it
  induction n generalizing s with
  | zero => exact exhausted_leads
  | succ n ih =>
    refine .look _ rfl (.look _ rfl (unless_leads (failAhead_leads _) ?_))
    refine .look _ rfl (.ite (fun _ => .look _ rfl (.look _ rfl ?_)) fun _ => ?_)
    · -- the bracket is passed before it is known whether an element opens or the tag closes
      refine (pass_leads hs _).bind fun _ s1 h1 hback => .look _ rfl ?_
      refine .ite (fun _ => ?_) fun _ => ?_
      · exact pure_leads h1.ready ⟨s, .refl hs, .start hs, h1, rfl, hback⟩
      · -- an element starts at the bracket, which was taken already
        refine (hp.element mode ((Built.start hs).kept h1) hback).bind fun element s2 h2 b2 => ?_
        refine note_leads fun noted => ?_
        have h2 := h2.noted noted
        have b2 := b2.noted noted
        refine (ih b2.ready).bind fun r s3 _ ⟨s4, h4, b4, h5, hclose, hback5⟩ => ?_
        exact pure_leads h5.ready ⟨s4, h1.trans (h2.trans h4), b2.append h4 b4, h5, hclose, hback5⟩
    · -- a text or an interpolation
      refine (child_builds hp mode false s hs).bind fun first s2 h2 b2 => ?_
      refine note_leads fun noted => ?_
      have h2 := h2.noted noted
      have b2 := b2.noted noted
      refine (ih b2.ready).bind fun r s3 _ ⟨s4, h4, b4, h5, hclose, hback5⟩ => ?_
      exact pure_leads h5.ready ⟨s4, h2.trans h4, b2.append h4 b4, h5, hclose, hback5⟩

/-- A bracket taken before, the children of an element and the closing tag make one row. -/
theorem children_leads {α : Type} {f : List Node × Position → Parse α} {Q : α → State → Prop}
    (b : Built i p l s)
    (hf : ∀ children close s1 s2, Built i p (l ++ children) s1 → s1.Kept s2 →
      close.offset = s1.front → s1.front ≤ s2.back → course.Leads (f (children, close)) s2 Q) :
    course.Leads (children parse >>= f) s Q := by
  have hchildren : course.Leads (children parse) s fun r s' =>
      ∃ s1, s.Kept s1 ∧ Built s.nextId s.front r.1 s1 ∧ s1.Kept s' ∧ r.2.offset = s1.front ∧
        s1.front ≤ s'.back :=
    .look _ rfl (.look _ rfl (childrenUpTo_leads hp _ _ b.ready))
  refine hchildren.bind fun r s2 _ ⟨s1, h1, b1, h2, hclose, hback⟩ => ?_
  exact hf r.1 r.2 s1 s2 (b.append h1 b1) h2 hclose hback

/-- A fragment is one node, around its tags and children. -/
theorem fragment_leads (after : ScanMode) (b : Built i start.offset [] s)
    (hback : start.offset ≤ s.back) :
    course.Leads (fragment parse start after) s fun n s' => Built i start.offset [n] s' := by
  refine .look _ rfl ((pass_leads b.ready _).bind fun _ s1 h1 _ => ?_)
  -- the opening tag starts where the element does
  refine (node_built (b.kept h1) rfl (Nat.le_trans hback h1.back) (by simp)).bind ?_
  intro opening s2 _ b2
  refine children_leads hp b2 fun children close s3 s4 b3 h4 hclose hback4 => .look _ rfl ?_
  refine (pass_leads h4.ready _).bind fun _ s5 h5 _ => ?_
  refine (expectPunctuator_leads h5.ready _ _).bind fun _ s6 h6 _ => ?_
  have h36 : s3.Kept s6 := h4.trans (h5.trans h6)
  -- the closing tag starts behind the children, at the bracket that was taken before
  have bclose : Built s3.nextId close.offset [] s6 :=
    ⟨h36.ready, h36.ids, hclose ▸ h36.front, .nil ..⟩
  have hle : close.offset ≤ s6.back := hclose ▸ Nat.le_trans hback4 (h5.trans h6).back
  refine (node_built bclose rfl hle (by simp)).bind fun closing s7 h7 b7 => ?_
  have b7 := b3.append (h36.trans h7) (hclose ▸ b7)
  exact node_built b7 rfl (b7.le_back (by simp)) (by simp)

/-- An element with a name is one node, around its tags and children. -/
theorem namedElement_leads (after : ScanMode) (b : Built i start.offset [] s) :
    course.Leads (namedElement parse start after) s fun n s' => Built i start.offset [n] s' := by
  -- attributes one after the other
  have hattributes : Builds (collect (return !(← isAt [">", "/"])) do
      if ← isAtEnd then want (.symbol ">")
      return (← tagAttribute parse, true)) id := by
    refine collect_nodes (moves_of_look fun s => ⟨_, rfl⟩) fun s hs => ?_
    refine .look _ rfl (unless_leads (want_leads _) ?_)
    exact (tagAttribute_builds hp s hs).bind fun _ _ _ b => pure_leads b.ready b
  refine (tagName_builds.after b).bind fun name s1 _ b1 => ?_
  refine (hattributes.after b1).bind fun attributes s2 _ b2 => .look _ rfl ?_
  extract_lets text finish
  -- the end of the opening tag, the children and the closing tag
  have hfinish : ∀ u s3, Built i start.offset (name :: attributes) s3 →
      course.Leads (finish u) s3 fun n s' => Built i start.offset [n] s' := by
    intro u s3 b3
    refine .get_bind (.look _ rfl ?_)
    refine ((expectPunctuator_moves _ _).after b3).bind fun _ s4 _ b4 => ?_
    refine (node_built b4 rfl (b4.le_back (by simp)) (by simp)).bind fun opening s5 _ b5 => ?_
    refine .ite (fun _ => node_built b5 rfl (b5.le_back (by simp)) (by simp)) fun _ => ?_
    refine children_leads hp b5 fun children close s6 s7 b6 h7 hclose hback7 => .look _ rfl ?_
    -- the closing tag starts at the bracket behind the children, which was taken before
    have b7 : Built s6.nextId close.offset [] s7 :=
      ⟨h7.ready, h7.ids, hclose ▸ h7.front, .nil ..⟩
    refine ((pass_moves _).after b7).bind fun _ s8 h8 b8 => ?_
    refine (tagName_builds.after b8).bind fun closingName s9 h9 b9 => ?_
    refine unless_leads (fail_leads _ _) (((expectPunctuator_moves _ _).after b9).bind
      fun _ s10 h10 b10 => ?_)
    refine (node_built b10 rfl (b10.le_back (by simp)) (by simp)).bind fun closing s11 h11 b11 => ?_
    have h611 : s6.Kept s11 := h7.trans (h8.trans (h9.trans (h10.trans h11)))
    have b11 := b6.append h611 (hclose ▸ b11)
    exact node_built b11 rfl (b11.le_back (by simp)) (by simp)
  refine .ite (fun _ => .look _ rfl ?_) fun _ => hfinish ⟨⟩ s2 b2
  exact ((pass_moves _).after b2).bind fun u s3 _ b3 => hfinish u s3 b3

/-- Behind the opening bracket comes a fragment or an element with a name. -/
theorem elementBody_leads (after : ScanMode) (b : Built i start.offset [] s)
    (hback : start.offset ≤ s.back) :
    course.Leads (elementBody parse start after) s fun n s' => Built i start.offset [n] s' := by
  have b' := b.depth (s.depth + 1)
  apply nested_leads (P := fun n s' => Built i start.offset [n] s')
  · exact .look _ rfl (.ite (fun _ => fragment_leads hp after b' hback) fun _ =>
      namedElement_leads hp after b')
  · exact fun _ _ _ b => b.depth _

end Reflow.Grammar
