import Reflow.Proofs.Grammar.Expression
import Reflow.Proofs.Grammar.Follow

/-!
# Pieces of the grammar follow a plain scan

One lemma for each part of the grammar, given that the rules which refer to each other follow the
scan.  Elements and templates are read in other modes; the nodes they give are no scripts.
-/

namespace Reflow.Grammar

-- the children of a node are read off its form
attribute [local simp] Form.children Form.fields

/-- What is known of the rules that refer to each other: each follows the scan, and an element gives
markup. -/
structure FollowRules (parse : Rule → Parse Node) : Prop where
  builds : BuildRules parse
  statement : Follows (parse .statement) ([·])
  expression : Follows (parse .expression) ([·])
  assignment : Follows (parse .assignment) ([·])
  binary : ∀ least, Follows (parse (.binary least)) ([·])
  unary : Follows (parse .unary) ([·])
  callMember : ∀ allowCall, Follows (parse (.callMember allowCall)) ([·])
  bindingTarget : Follows (parse .bindingTarget) ([·])
  element : ∀ start after s, (Course.free State).Leads (parse (.element start after)) s fun n _ =>
    n.isMarkup = true

variable {parse : Rule → Parse Node} (hp : FollowRules parse) {l : List Node} {n : Node}
  {o s : State} {start : Position}

/-! ### Parts that are read in other modes -/

/-- Nothing is known of the way to a node that is no script. -/
theorem follows_of_not_script {x : Parse Node} (hbuilds : Builds x ([·]))
    (hx : ∀ s, (Course.free State).Leads x s fun n _ => ∀ source, ¬n.Script source) :
    Follows x ([·]) := fun s hs =>
  (hbuilds s hs).with_run.mono fun _ _ h ⟨hrun, _⟩ =>
    .of_not_script h ((hx s).ok hrun).2 List.mem_cons_self

/-- Markup is no script. -/
theorem not_script_of_markup (hn : n.isMarkup = true) (source : Source) : ¬n.Script source :=
  fun h => Bool.noConfusion (hn.symm.trans h.here.1)

/-- A node with a form of markup is markup. -/
theorem markup_node {form : Form Node} (hform : ∀ id span, (Node.mk id span form).isMarkup = true) :
    (Course.free State).Leads (node start form) s fun n _ => n.isMarkup = true :=
  .of_ok rfl trivial (hform _ _)

/-- A fragment is markup. -/
theorem fragment_markup (after : ScanMode) :
    (Course.free State).Leads (fragment parse start after) s fun n _ => n.isMarkup = true := by
  unfold fragment
  refine Course.free_bind fun _ _ => Course.free_bind fun _ _ => Course.free_bind fun _ _ => ?_
  refine Course.free_bind fun _ _ => Course.free_bind fun _ _ => Course.free_bind fun _ _ => ?_
  exact Course.free_bind fun _ _ => Course.free_bind fun _ _ => markup_node fun _ _ => rfl

/-- So is an element with a name. -/
theorem namedElement_markup (after : ScanMode) :
    (Course.free State).Leads (namedElement parse start after) s fun n _ => n.isMarkup = true := by
  -- every node that an element can end with is one of markup
  refine Course.free_bind fun _ _ => Course.free_bind fun _ _ => Course.free_bind fun _ s1 => ?_
  extract_lets text finish
  have hfinish : ∀ u s, (Course.free State).Leads (finish u) s fun n _ => n.isMarkup = true := by
    intro u s
    refine Course.free_bind fun _ _ => Course.free_bind fun _ _ => Course.free_bind fun _ _ => ?_
    refine Course.free_bind fun _ _ => .ite (fun _ => markup_node fun _ _ => rfl) fun _ => ?_
    refine Course.free_bind fun _ _ => Course.free_bind fun _ _ => Course.free_bind fun _ _ => ?_
    -- a closing tag of another name is refused before any node is made
    refine Course.free_bind fun _ _ => .ite (fun _ => Course.free_bind fun _ _ => ?_) fun _ => ?_ <;>
      exact Course.free_bind fun _ _ => Course.free_bind fun _ _ => markup_node fun _ _ => rfl
  refine .ite (fun _ => ?_) fun _ => hfinish ⟨⟩ s1
  exact Course.free_bind fun _ _ => Course.free_bind fun u s2 => hfinish u s2

/-- Leaving a level changes no result. -/
theorem leaving_free {α : Type} {x : Parse α} {P : α → Prop}
    (hx : (Course.free State).Leads x s fun a _ => P a) :
    (Course.free State).Leads (leaving x) s fun a _ => P a := by
  rcases h : x s with ⟨fault | a, s'⟩
  · exact .of_error (by rw [leaving, h]) trivial
  · exact .of_ok (by rw [leaving, h]) trivial (hx.ok h).2

/-- So is whatever stands behind the bracket of an element. -/
theorem elementBody_markup (start : Position) (after : ScanMode) (s : State) :
    (Course.free State).Leads (elementBody parse start after) s fun n _ => n.isMarkup = true := by
  refine Course.free_bind fun _ s => leaving_free ?_
  exact .look _ rfl (.ite (fun _ => fragment_markup after) fun _ => namedElement_markup after)

include hp in
/-- Nothing is claimed of an element, since it is no script. -/
theorem element_follows (after : ScanMode) : Follows (element parse after) ([·]) := by
  refine follows_of_not_script (element_builds hp.builds after) fun s => ?_
  refine Course.free_bind fun _ _ => Course.free_bind fun _ _ => Course.free_bind fun _ s1 => ?_
  exact (hp.element _ _ s1).mono fun _ _ _ hn => not_script_of_markup hn

/-- A template without a tag is no script. -/
theorem not_script_of_template {quasis expressions : List Node}
    (hn : n.form = .templateLiteral quasis expressions) (source : Source) : ¬n.Script source := by
  intro h
  have := h.here.2.1
  rw [Node.isTemplateLiteral, hn] at this
  cases this

include hp in
/-- Nothing is claimed of a template, for the same reason. -/
theorem template_follows : Follows (template parse) ([·]) := by
  refine follows_of_not_script (template_builds hp.builds) fun s => ?_
  -- a template is no script, so the sources that its row follows do not matter
  have hnode : ∀ quasis expressions start s, (Course.free State).Leads
      (node start (.templateLiteral quasis expressions)) s fun n _ => ∀ source, ¬n.Script source :=
    fun _ _ _ _ => .of_ok rfl trivial (not_script_of_template rfl)
  have hrest : ∀ start s, (Course.free State).Leads (do
      modify fun s => { s with lastEnd := s.token.span.stop }
      let r ← templateParts parse (← rounds)
      node start (.templateLiteral r.1 r.2)) s fun n _ => ∀ source, ¬n.Script source :=
    fun _ _ => Course.free_bind fun _ _ => Course.free_bind fun _ _ => Course.free_bind fun _ _ =>
      hnode _ _ _ _
  -- the mark is wanted, and taken in either case
  refine Course.free_bind fun _ _ => Course.free_bind fun _ _ => .ite (fun _ => ?_) fun _ => ?_
  · exact Course.free_bind fun _ _ => hrest _ _
  · exact hrest _ _

/-! ### Pieces -/

include hp

/-- A block takes its braces and what its statements take. -/
theorem block_follows : Follows (block parse) ([·]) := by
  intro s hs
  refine .look _ rfl ((expect_passes _ s hs).bind fun _ s1 _ f1 => ?_)
  have hbody : Follows (collect (return !(← isAt ["\x7d"])) do
      if ← isAtEnd then want (.symbol "\x7d")
      return (← parse .statement, true)) id := by
    refine collect_each (passes_of_look fun s => ⟨_, rfl⟩) fun s hs => ?_
    refine .look _ rfl (unless_leads (want_leads _) ?_)
    exact (hp.statement s hs).bind fun n s' _ f => pure_leads f.ready f
  refine (hbody.after f1).bind fun body s2 _ f2 => ?_
  exact (skip_passes.after f2).bind fun _ s3 _ f3 => node_followed f3 (by simp)

omit hp in
/-- A string takes one token. -/
theorem stringLiteral_follows : Follows stringLiteral ([·]) := fun _ hs =>
  .look _ rfl (unless_leads (want_leads _) (.look _ rfl (leaf_follows hs)))

/-- An item takes what its expression takes, behind three dots if they are there. -/
theorem spreadable_follows : Follows (spreadable parse) ([·]) := by
  intro s hs
  refine .look _ rfl ((eat_passes _ s hs).bind fun found s1 _ f1 => ?_)
  refine .ite (fun _ => ?_) fun _ => hp.assignment.after f1
  exact (hp.assignment.after f1).bind fun argument s2 _ f2 => node_followed f2 (by simp)

/-- Arguments take their brackets and what their items take. -/
theorem arguments_follows : Follows (arguments parse) id := by
  intro s hs
  refine (expect_passes _ s hs).bind fun _ s1 _ f1 => ?_
  refine ((separated_each ")" (spreadable_follows hp)).after f1).bind fun arguments s2 _ f2 => ?_
  exact ((expect_passes _).after f2).bind fun _ s3 _ f3 => pure_leads f3.ready f3

/-- A parameter takes what its target and its default take. -/
theorem param_follows : Follows (param parse) ([·]) := by
  intro s hs
  refine .look _ rfl ((eat_passes _ s hs).bind fun found s1 _ f1 => ?_)
  refine .ite (fun _ => ?_) fun _ => ?_
  · exact (hp.bindingTarget.after f1).bind fun target s2 _ f2 => node_followed f2 (by simp)
  · refine (hp.bindingTarget.after f1).bind fun target s2 _ f2 => ?_
    refine ((eat_passes _).after f2).bind fun found s3 _ f3 => ?_
    refine .ite (fun _ => ?_) fun _ => pure_leads f3.ready f3
    exact (hp.assignment.after f3).bind fun value s4 _ f4 => node_followed f4 (by simp)

/-- Parameters take their brackets, and each what it takes. -/
theorem params_follows : Follows (params parse) id := by
  intro s hs
  refine (expect_passes _ s hs).bind fun _ s1 _ f1 => ?_
  refine ((separated_each ")" (param_follows hp)).after f1).bind fun params s2 _ f2 => ?_
  exact ((expect_passes _).after f2).bind fun _ s3 _ f3 => pure_leads f3.ready f3

/-- A key takes one token, or brackets and what is in them. -/
theorem propertyKey_follows : Follows (propertyKey parse) fun r => [r.1] := by
  intro s hs
  refine .look _ rfl (.look _ rfl (.look _ rfl (.ite (fun _ => ?_) fun _ => ?_)))
  · refine (skip_passes s hs).bind fun _ s1 _ f1 => ?_
    refine (hp.assignment.after f1).bind fun key s2 _ f2 => ?_
    exact ((expect_passes _).after f2).bind fun _ s3 _ f3 => pure_leads f3.ready f3
  · refine .ite (fun _ => ?_) fun _ => .ite (fun _ => ?_) fun _ => ?_
    · exact (stringLiteral_follows s hs).bind fun _ _ _ f => pure_leads f.ready f
    · refine (skip_passes s hs).bind fun _ s1 _ f1 => ?_
      exact (node_followed f1 (by simp)).bind fun _ _ _ f2 => pure_leads f2.ready f2
    · exact (propertyName_follows s hs).bind fun _ _ _ f => pure_leads f.ready f

omit hp in
/-- Names with dots between them. -/
theorem dotted_followed (f : Followed o [n] s) :
    course.Leads (extend (fun object => do
        if ← isAt ["."] then
          skip
          let property ← propertyName
          return some (← node start (.memberExpression object property false false))
        else return none) n) s fun n s' => Followed o [n] s' := by
  -- the member that was read last is always the only node
  refine extend_leads (Q := fun n s' => Followed o [n] s') (fun _ _ f => f.ready)
    (fun _ _ f => f.noted) ?_ f
  intro object s f
  refine .look _ rfl (.ite (fun _ => ?_) fun _ => pure_leads f.ready f)
  refine (skip_passes.after f).bind fun _ s1 _ f1 => ?_
  refine (propertyName_follows.after f1).bind fun property s2 _ f2 => ?_
  exact (node_followed f2 (by simp)).bind fun _ _ _ f3 => pure_leads f3.ready f3

/-- The at sign of a decorator is taken first. -/
theorem decorator_followed (hs : s.Ready) :
    course.Leads (decorator parse) s fun n s' =>
      Followed s [n] s' ∧ s.token.span.stop.offset ≤ s'.back := by
  refine .look _ rfl ((skip_stops hs).bind fun _ s1 _ ⟨f1, hstop⟩ => ?_)
  -- the text of the decorator lies behind its sign
  refine Course.Leads.mono (P := fun n s' => Followed s [n] s') ?_ fun n s' h f =>
    ⟨f, Nat.le_trans hstop h.back⟩
  refine .look _ rfl (.ite (fun _ => ?_) fun _ => ?_)
  · refine (skip_passes.after f1).bind fun _ s2 _ f2 => ?_
    refine (hp.expression.after f2).bind fun expression s3 _ f3 => ?_
    exact ((expect_passes _).after f3).bind fun _ s4 _ f4 => node_followed f4 (by simp)
  · refine .look _ rfl ((identifier_follows.after f1).bind fun name s2 _ f2 => ?_)
    refine (dotted_followed f2).bind fun access s3 _ f3 => .look _ rfl ?_
    -- arguments make a call of the name
    extract_lets finish
    have hfinish : ∀ expression s4, Followed s [expression] s4 →
        course.Leads (finish expression) s4 fun n s' => Followed s [n] s' :=
      fun expression s4 f4 => node_followed f4 (by simp)
    refine .ite (fun _ => ?_) fun _ => hfinish access s3 f3
    refine ((arguments_follows hp).after f3).bind fun arguments s4 _ f4 => ?_
    exact (node_followed f4 (by simp)).bind fun expression s5 _ f5 => hfinish expression s5 f5

/-- A decorator takes its sign and what its expression takes. -/
theorem decorator_follows : Follows (do return (← decorator parse, true)) fun r => [r.1] :=
  fun _ hs => (decorator_followed hp hs).bind fun _ _ _ h => pure_leads h.1.ready h.1

/-- Decorators take what each of them takes. -/
theorem decorators_follows : Follows (decorators parse) id :=
  collect_each (passes_of_look fun _ => ⟨_, rfl⟩) (decorator_follows hp)

/-- Where there is an at sign, it is taken. -/
theorem decorators_taken (hs : s.Ready) (hat : isOne s.token ["@"] = true) :
    course.Leads (decorators parse) s fun l s' =>
      Followed s l s' ∧ s.token.span.stop.offset ≤ s'.back := by
  have hmore : Passes (isAt ["@"]) := passes_of_look fun _ => ⟨_, rfl⟩
  -- the sign is there, so there is one decorator at least
  refine .look _ rfl (.look _ rfl (.look true (by rw [← hat]; rfl) (.ite (fun _ => ?_) nofun)))
  refine Course.Leads.bind (P := fun (r : Node × Bool) s' => Followed s [r.1] s' ∧
    s.token.span.stop.offset ≤ s'.back) ?_ fun r s1 _ ⟨f1, hstop⟩ => ?_
  · exact (decorator_followed hp hs).bind fun _ _ _ h => pure_leads h.1.ready h
  -- the note of the first round, and then the others
  refine note_leads fun noted => ?_
  have f1 := f1.noted noted
  refine .ite (fun _ => ?_) fun _ => pure_leads f1.ready ⟨f1, hstop⟩
  refine (collectUpTo_leads (R := Followed s) ([·]) (fun _ _ f => f.ready)
    (fun _ _ f => f.noted) (fun _ _ f => hmore.after f) (fun _ _ f => (decorator_follows hp).after f) _
    f1).bind fun l s2 h2 f2 => ?_
  exact pure_leads f2.ready ⟨by simpa using f2, Nat.le_trans hstop h2.back⟩

/-- A function takes its words, its parameters and its body; it has no decorators. -/
theorem function_followed (f : Followed o [] s) (declaration : Bool) :
    course.Leads (function parse start declaration) s fun n s' =>
      n.form.decorators = [] ∧ Followed o [n] s' := by
  refine ((eat_passes _).after f).bind fun isAsync s1 _ f1 => ?_
  refine ((expect_passes _).after f1).bind fun _ s2 _ f2 => ?_
  refine ((eat_passes _).after f2).bind fun generator s3 _ f3 => .look _ rfl ?_
  -- the row behind the word is that of the name
  extract_lets finish
  have hfinish : ∀ (name : Option Node) s4, Followed o name.toList s4 →
      course.Leads (finish name) s4 fun n s' => n.form.decorators = [] ∧ Followed o [n] s' := by
    intro name s4 f4
    refine ((params_follows hp).after f4).bind fun params s5 _ f5 => ?_
    refine ((block_follows hp).after f5).bind fun body s6 _ f6 => ?_
    -- a declaration and an expression have no decorators of their own
    cases declaration <;> exact (node_made f6 (by simp)).mono fun _ _ _ ⟨hform, _, f7⟩ =>
      ⟨by rw [hform]; rfl, f7⟩
  refine .ite (fun _ => ?_) fun _ => .ite (fun _ => ?_) fun _ => hfinish none s3 f3
  · exact (Course.Leads.map (Q := fun (r : Option Node) s' => Followed o r.toList s')
      (identifier_follows.after f3)).bind fun name s4 _ f4 => hfinish name s4 f4
  · exact (want_leads _).bind fun name s4 _ f4 => hfinish name s4 f4

omit hp in
/-- To see whether a word is a modifier leaves no trace. -/
theorem isModifier_passes (words enders : List String) : Passes (isModifier words enders) := by
  intro s hs
  refine .look _ rfl (.ite (fun _ => ?_) fun _ => pure_leads hs (.start hs))
  exact (secondText_passes s hs).bind fun _ _ _ f => pure_leads f.ready f

omit hp in
/-- The word before an accessor decides its kind and adds no node. -/
theorem methodKind_followed {α : Type} {f : MethodKind → Parse α} {Q : α → State → Prop}
    {enders : List String} (b : Followed o l s)
    (hf : ∀ kind s', Followed o l s' → course.Leads (f kind) s' Q) :
    course.Leads (isModifier ["get", "set"] enders >>= fun found =>
      if found then do
        let word ← take
        let kind ← pure (if word.text == "get" then MethodKind.getter else .setter)
        f kind
      else pure .method >>= f) s Q := by
  refine ((isModifier_passes _ _).after b).bind fun found s1 _ b1 => ?_
  refine .ite (fun _ => ?_) fun _ => hf .method s1 b1
  exact (take_passes.after b1).bind fun word s2 _ b2 => hf _ s2 b2

/-- A member takes its decorators, modifiers, key and body in turn. -/
theorem classMember_follows : Follows (classMember parse) ([·]) := by
  intro s hs
  have hdecorators : course.Leads (pure [] : Parse (List Node)) s fun l s' => Followed s l s' :=
    pure_leads hs (.start hs)
  -- there may be no decorators; modifiers are in no node
  refine .look _ rfl (.look _ rfl (either_leads (decorators_follows hp s hs) hdecorators ?_))
  intro decorators s1 _ f1
  refine ((isModifier_passes _ _).after f1).bind fun isStatic s2 _ f2 => ?_
  refine when_follows skip_passes f2 fun s3 f3 => ?_
  refine ((isModifier_passes _ _).after f3).bind fun found s4 _ f4 => ?_
  extract_lets rest
  -- the row goes on behind the decorators, with or without `async`
  have hrest : ∀ isAsync s5, Followed s decorators s5 →
      course.Leads (rest isAsync) s5 fun n s' => Followed s [n] s' := by
    intro isAsync s5 f5
    refine when_follows skip_passes f5 fun s6 f6 => ?_
    refine ((eat_passes _).after f6).bind fun generator s7 _ f7 => methodKind_followed f7 ?_
    intro kind s8 f8
    refine ((propertyKey_follows hp).after f8).bind fun r s9 _ f9 => .look _ rfl ?_
    refine .ite (fun _ => ?_) fun _ => ?_
    · refine ((params_follows hp).after f9).bind fun params s10 _ f10 => ?_
      exact ((block_follows hp).after f10).bind fun body s11 _ f11 => node_followed f11 (by simp)
    · -- a property: its value follows the key, if there is one
      refine ((eat_passes _).after f9).bind fun found s10 _ f10 => ?_
      refine either_leads
        (P := fun (o : Option Node) s' => Followed s (decorators ++ [r.1] ++ o.toList) s')
        (.map (hp.assignment.after f10)) (pure_leads f10.ready (by simpa using f10)) ?_
      intro value s11 _ f11
      exact (semicolon_passes.after f11).bind fun _ s12 _ f12 => node_followed f12 (by simp)
  refine .ite (fun _ => ?_) fun _ => hrest false s4 f4
  exact (second_passes.after f4).bind fun token s5 _ f5 => hrest _ s5 f5

/-- Members take what each of them takes. -/
theorem classMembers_follows : Follows (classMembers parse) id := by
  -- semicolons between members leave holes, which the class drops
  have hcollect : Follows (collect (return !(← isAt ["\x7d"])) do
      if ← isAtEnd then want (.symbol "\x7d")
      if ← eat ";" then return (none, true) else return (some (← classMember parse), true))
      fun members => members.flatMap Option.toList := by
    refine collect_follows (passes_of_look fun s => ⟨_, rfl⟩) fun s hs => ?_
    refine .look _ rfl (unless_leads (want_leads _) ?_)
    refine (eat_passes ";" s hs).bind fun found s1 _ f1 => ?_
    refine .ite (fun _ => pure_leads f1.ready f1) fun _ => ?_
    exact ((classMember_follows hp).after f1).bind fun _ _ _ f2 => pure_leads f2.ready f2
  intro s hs
  refine (hcollect s hs).bind fun members s1 _ f1 => pure_leads f1.ready ?_
  rwa [filterMap_id_eq]

/-- A class behind its decorators. -/
theorem classDeclaration_followed {decorators : List Node} (f : Followed o decorators s)
    (isExpression : Bool) :
    course.Leads (classDeclaration parse start decorators isExpression) s fun n s' =>
      Followed o [n] s' := by
  refine ((expect_passes _).after f).bind fun _ s1 _ f1 => .look _ rfl ?_
  -- the name may be missing; the row goes on with the superclass
  extract_lets finish
  have hfinish : ∀ (name : Option Node) s2, Followed o (decorators ++ name.toList) s2 →
      course.Leads (finish name) s2 fun n s' => Followed o [n] s' := by
    intro name s2 f2
    refine ((eat_passes _).after f2).bind fun found s3 _ f3 => ?_
    refine either_leads (P := fun (r : Option Node) s' =>
        Followed o (decorators ++ name.toList ++ r.toList) s')
      (.map ((hp.callMember true).after f3)) (pure_leads f3.ready (by simpa using f3)) ?_
    intro superclass s4 _ f4
    refine .look _ rfl ((expect_passes _ s4 f4.ready).bind fun _ s5 _ f5 => ?_)
    refine ((classMembers_follows hp).after f5).bind fun members s6 _ f6 => ?_
    refine (skip_passes.after f6).bind fun _ s7 _ f7 => ?_
    -- the body is a node of its own behind the others
    refine (node_followed f7 (by simp)).bind fun body s8 _ f8 => node_followed (f4.append f8) ?_
    simp
  refine .ite (fun _ => ?_) fun _ => .ite (fun _ => ?_) fun _ => ?_
  · exact (Course.Leads.map (Q := fun (r : Option Node) s' => Followed o (decorators ++ r.toList) s')
      (identifier_follows.after f1)).bind fun name s2 _ f2 => hfinish name s2 f2
  · exact hfinish none s1 (by simpa using f1)
  · exact (want_leads _).bind fun name s2 _ f2 => hfinish name s2 f2

/-- An array takes its brackets and what its items take; a hole takes a comma. -/
theorem array_follows : Follows (array parse) ([·]) := by
  intro s hs
  refine .look _ rfl ((expect_passes _ s hs).bind fun _ s1 _ f1 => ?_)
  -- holes leave nothing in the row
  have helements : Follows (collect (return !(← isAt ["]"])) do
      if ← eat "," then return (none, true)
      else
        let element ← spreadable parse
        return (some element, ← eat ",")) fun elements => elements.flatMap Option.toList := by
    refine collect_follows (passes_of_look fun s => ⟨_, rfl⟩) fun s hs => ?_
    refine (eat_passes "," s hs).bind fun found s1 _ f1 => ?_
    refine .ite (fun _ => pure_leads f1.ready f1) fun _ => ?_
    refine ((spreadable_follows hp).after f1).bind fun element s2 _ f2 => ?_
    exact ((eat_passes ",").after f2).bind fun _ _ _ f3 => pure_leads f3.ready f3
  refine (helements.after f1).bind fun elements s2 _ f2 => ?_
  exact ((expect_passes _).after f2).bind fun _ s3 _ f3 => node_followed f3 (by simp)

/-- A member of an object takes its key and its value. -/
theorem objectMember_follows : Follows (objectMember parse) ([·]) := by
  intro s hs
  refine .look _ rfl ((eat_passes _ s hs).bind fun found s1 _ f1 => ?_)
  -- what is spread, or a member
  refine .ite (fun _ => ?_) fun _ => ?_
  · exact (hp.assignment.after f1).bind fun argument s2 _ f2 => node_followed f2 (by simp)
  · refine ((isModifier_passes _ _).after f1).bind fun isAsync s2 _ f2 => ?_
    refine when_follows skip_passes f2 fun s3 f3 => ?_
    refine ((eat_passes _).after f3).bind fun generator s4 _ f4 => methodKind_followed f4 ?_
    intro kind s5 f5
    refine ((propertyKey_follows hp).after f5).bind fun r s6 _ f6 => .look _ rfl ?_
    refine .ite (fun _ => ?_) fun _ => ?_
    · refine ((params_follows hp).after f6).bind fun params s7 _ f7 => ?_
      exact ((block_follows hp).after f7).bind fun body s8 _ f8 => node_followed f8 (by simp)
    · -- a value, a default of a pattern, or the key alone
      refine ((eat_passes _).after f6).bind fun found s7 _ f7 => .ite (fun _ => ?_) fun _ => ?_
      · exact (hp.assignment.after f7).bind fun value s8 _ f8 => node_followed f8 (by simp)
      · split
        next =>
          refine ((eat_passes _).after f7).bind fun found s8 _ f8 => .ite (fun _ => ?_) fun _ => ?_
          · refine (hp.assignment.after f8).bind fun value s9 _ f9 => ?_
            exact (node_followed f9 (by simp)).bind fun pattern s10 _ f10 =>
              node_followed f10 (by simp)
          · exact node_followed f8 (by simp)
        next => exact want_leads _

/-- An object takes its braces and what its members take. -/
theorem object_follows : Follows (object parse) ([·]) := by
  intro s hs
  refine .look _ rfl ((expect_passes _ s hs).bind fun _ s1 _ f1 => ?_)
  refine ((separated_each "\x7d" (objectMember_follows hp)).after f1).bind
    fun properties s2 _ f2 => ?_
  exact ((expect_passes _).after f2).bind fun _ s3 _ f3 => node_followed f3 (by simp)

/-- A target takes what an array, an object or a name takes. -/
theorem bindingTarget_follows : Follows (bindingTarget parse) ([·]) := by
  intro s hs
  refine .look _ rfl (.ite (fun _ => object_follows hp s hs) fun _ => ?_)
  refine .look _ rfl (.ite (fun _ => array_follows hp s hs) fun _ => ?_)
  exact .look _ rfl (.ite (fun _ => identifier_follows s hs) fun _ => want_leads _)

end Reflow.Grammar
