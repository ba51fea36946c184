import Reflow.Grammar.Pieces
import Reflow.Proofs.Grammar.Steps

/-!
# Pieces of the grammar build rows

One lemma for each part of the grammar that stands in many places, given that the rules which refer
to each other build rows.
-/

namespace Reflow.Grammar

-- the children of a node are read off its form
attribute [local simp] Form.children Form.fields

/-- What is known of the rules that refer to each other: each builds one node.  An element takes in
the bracket that was taken before. -/
structure BuildRules (parse : Rule → Parse Node) : Prop where
  statement : Builds (parse .statement) ([·])
  expression : Builds (parse .expression) ([·])
  assignment : Builds (parse .assignment) ([·])
  binary : ∀ least, Builds (parse (.binary least)) ([·])
  unary : Builds (parse .unary) ([·])
  callMember : ∀ allowCall, Builds (parse (.callMember allowCall)) ([·])
  bindingTarget : Builds (parse .bindingTarget) ([·])
  element : ∀ {i : Nat} {start : Position} {s : State} (after : ScanMode),
    Built i start.offset [] s → start.offset ≤ s.back →
      course.Leads (parse (.element start after)) s fun n s' => Built i start.offset [n] s'

variable {parse : Rule → Parse Node} (hp : BuildRules parse) {i p : Nat} {l : List Node} {n : Node}
  {s : State} {start : Position}

include hp

/-- A block is one node, around its statements. -/
theorem block_builds : Builds (block parse) ([·]) := by
  intro s hs
  refine .look _ rfl ((expect_leads hs _).bind fun _ s1 h1 hback => ?_)
  have hbody : Builds (collect (return !(← isAt ["\x7d"])) do
      if ← isAtEnd then want (.symbol "\x7d")
      return (← parse .statement, true)) id := by
    refine collect_nodes (moves_of_look fun s => ⟨_, rfl⟩) fun s hs => ?_
    refine .look _ rfl (unless_leads (want_leads _) ?_)
    exact (hp.statement s hs).bind fun n s' _ b => pure_leads b.ready b
  refine (hbody.after ((Built.start hs).kept h1)).bind fun body s2 h2 b2 => ?_
  refine (skip_leads h2.ready).bind fun _ s3 h3 _ => ?_
  exact node_built (b2.kept h3) rfl (Nat.le_trans hback (h2.trans h3).back) (by simp)

omit hp in
/-- A string is one node. -/
theorem stringLiteral_builds : Builds stringLiteral ([·]) := by
  intro s hs
  refine .look _ rfl (unless_leads (want_leads _) (.look _ rfl ?_))
  exact leaf_leads hs (fun _ => rfl) fun _ => rfl

/-- An item is one node, with the three dots or without. -/
theorem spreadable_builds : Builds (spreadable parse) ([·]) := by
  intro s hs
  refine .look _ rfl ((eat_leads hs _).bind fun found s1 h1 _ => ?_)
  have b1 := (Built.start hs).kept h1
  refine .ite (fun _ => ?_) fun _ => hp.assignment.after b1
  refine (hp.assignment.after b1).bind fun argument s2 _ b2 => ?_
  exact node_built b2 rfl (b2.le_back (by simp)) (by simp)

/-- Arguments are nodes one after the other. -/
theorem arguments_builds : Builds (arguments parse) id := by
  intro s hs
  refine (expect_leads hs _).bind fun _ s1 h1 _ => ?_
  refine ((separated_nodes ")" (spreadable_builds hp)).after ((Built.start hs).kept h1)).bind
    fun arguments s2 h2 b2 => ?_
  exact (expect_leads h2.ready _).bind fun _ s3 h3 _ => pure_leads h3.ready (b2.kept h3)

/-- A parameter is one node, around its target and its default. -/
theorem param_builds : Builds (param parse) ([·]) := by
  intro s hs
  refine .look _ rfl ((eat_leads hs _).bind fun found s1 h1 _ => ?_)
  have b1 := (Built.start hs).kept h1
  refine .ite (fun _ => ?_) fun _ => ?_
  · refine (hp.bindingTarget.after b1).bind fun target s2 _ b2 => ?_
    exact node_built b2 rfl (b2.le_back (by simp)) (by simp)
  · refine (hp.bindingTarget.after b1).bind fun target s2 h2 b2 => ?_
    refine (eat_leads h2.ready _).bind fun found s3 h3 _ => ?_
    refine .ite (fun _ => ?_) fun _ => pure_leads h3.ready (b2.kept h3)
    refine (hp.assignment.after (b2.kept h3)).bind fun value s4 _ b4 => ?_
    exact node_built b4 rfl (b4.le_back (by simp)) (by simp)

/-- Parameters are nodes one after the other. -/
theorem params_builds : Builds (params parse) id := by
  intro s hs
  refine (expect_leads hs _).bind fun _ s1 h1 _ => ?_
  refine ((separated_nodes ")" (param_builds hp)).after ((Built.start hs).kept h1)).bind
    fun params s2 h2 b2 => ?_
  exact (expect_leads h2.ready _).bind fun _ s3 h3 _ => pure_leads h3.ready (b2.kept h3)

/-- A key is one node; whether it is computed is told besides. -/
theorem propertyKey_builds : Builds (propertyKey parse) fun r => [r.1] := by
  intro s hs
  refine .look _ rfl (.look _ rfl (.look _ rfl (.ite (fun _ => ?_) fun _ => ?_)))
  · refine (skip_leads hs).bind fun _ s1 h1 _ => ?_
    refine (hp.assignment.after ((Built.start hs).kept h1)).bind fun key s2 h2 b2 => ?_
    exact (expect_leads h2.ready _).bind fun _ s3 h3 _ => pure_leads h3.ready (b2.kept h3)
  · refine .ite (fun _ => ?_) fun _ => .ite (fun _ => ?_) fun _ => ?_
    · exact (stringLiteral_builds s hs).bind fun _ _ _ b => pure_leads b.ready b
    · refine (skip_leads hs).bind fun _ s1 h1 hback => ?_
      exact (node_built ((Built.start hs).kept h1) rfl hback (by simp)).bind fun _ _ _ b =>
        pure_leads b.ready b
    · exact (propertyName_builds s hs).bind fun _ _ _ b => pure_leads b.ready b

omit hp in
/-- Names with dots between them. -/
theorem dotted_leads (b : Built i start.offset [n] s) :
    course.Leads (extend (fun object => do
        if ← isAt ["."] then
          skip
          let property ← propertyName
          return some (← node start (.memberExpression object property false false))
        else return none) n) s fun n s' => Built i start.offset [n] s' := by
  -- the member that was read last is the only node of the row
  refine extend_leads (Q := fun n s' => Built i start.offset [n] s') (fun _ _ b => b.ready)
    (fun _ _ b => b.noted) ?_ b
  intro object s b
  refine .look _ rfl (.ite (fun _ => ?_) fun _ => pure_leads b.ready b)
  refine (skip_leads b.ready).bind fun _ s1 h1 _ => ?_
  refine (propertyName_builds.after (b.kept h1)).bind fun property s2 _ b2 => ?_
  exact (node_built b2 rfl (b2.le_back (by simp)) (by simp)).bind fun _ _ _ b3 =>
    pure_leads b3.ready b3

/-- A decorator is one node, around its expression. -/
theorem decorator_builds : Builds (decorator parse) ([·]) := by
  intro s hs
  refine .look _ rfl ((skip_leads hs).bind fun _ s1 h1 _ => ?_)
  have b1 := (Built.start hs).kept h1
  -- an expression in parentheses, or a dotted name
  refine .look _ rfl (.ite (fun _ => ?_) fun _ => ?_)
  · refine (skip_leads h1.ready).bind fun _ s2 h2 _ => ?_
    refine (hp.expression.after (b1.kept h2)).bind fun expression s3 h3 b3 => ?_
    refine (expect_leads h3.ready _).bind fun _ s4 h4 _ => ?_
    exact node_built (b3.kept h4) rfl ((b3.kept h4).le_back (by simp)) (by simp)
  · refine .look _ rfl ((identifier_builds s1 h1.ready).bind fun name s2 h2 b2 => ?_)
    refine (dotted_leads b2).bind fun access s3 h3 b3 => .look _ rfl ?_
    extract_lets finish
    -- the expression starts behind the sign of the decorator
    have hfinish : ∀ expression s4, s3.Kept s4 → Built s1.nextId s1.front [expression] s4 →
        course.Leads (finish expression) s4 fun n s' => Built s.nextId s.front [n] s' := by
      intro expression s4 h4 b4
      have b4 := b1.append (h2.trans (h3.trans h4)) b4
      exact node_built b4 rfl (b4.le_back (by simp)) (by simp)
    refine .ite (fun _ => ?_) fun _ => hfinish access s3 (.refl h3.ready) b3
    refine ((arguments_builds hp).after b3).bind fun arguments s4 h4 b4 => ?_
    exact (node_built b4 rfl (b4.le_back (by simp)) (by simp)).bind fun expression s5 h5 b5 =>
      hfinish expression s5 (h4.trans h5) b5

/-- Decorators are nodes one after the other. -/
theorem decorators_builds : Builds (decorators parse) id :=
  collect_nodes (moves_of_look fun _ => ⟨_, rfl⟩) fun s hs =>
    (decorator_builds hp s hs).bind fun _ _ _ b => pure_leads b.ready b

/-- A function is one node, from where its first word stood. -/
theorem function_leads (b : Built i start.offset [] s) (declaration : Bool) :
    course.Leads (function parse start declaration) s fun n s' => Built i start.offset [n] s' := by
  refine ((eat_moves _).after b).bind fun isAsync s1 _ b1 => ?_
  refine (expect_leads b1.ready _).bind fun _ s2 h2 _ => ?_
  refine ((eat_moves _).after (b1.kept h2)).bind fun generator s3 _ b3 => .look _ rfl ?_
  extract_lets finish
  -- the parts behind the words make the row
  have hfinish : ∀ (name : Option Node) s4, Built i start.offset name.toList s4 →
      course.Leads (finish name) s4 fun n s' => Built i start.offset [n] s' := by
    intro name s4 b4
    refine ((params_builds hp).after b4).bind fun params s5 _ b5 => ?_
    refine ((block_builds hp).after b5).bind fun body s6 _ b6 => ?_
    -- a declaration and an expression are made of the same parts
    cases declaration <;> exact node_built b6 rfl (b6.le_back (by simp)) (by simp)
  refine .ite (fun _ => ?_) fun _ => .ite (fun _ => ?_) fun _ => hfinish none s3 b3
  · exact (Course.Leads.map (Q := fun o s' => Built i start.offset o.toList s')
      (identifier_builds.after b3)).bind fun name s4 _ b4 => hfinish name s4 b4
  · exact (want_leads _).bind fun name s4 _ b4 => hfinish name s4 b4

omit hp in
/-- To see whether a word is a modifier makes no nodes. -/
theorem isModifier_moves (words enders : List String) : Moves (isModifier words enders) := by
  intro s hs
  refine .look _ rfl (.ite (fun _ => ?_) fun _ => pure_leads hs trivial)
  exact (secondText_moves s hs).bind fun _ _ h _ => pure_leads h.ready trivial

omit hp in
/-- The word before an accessor decides its kind and adds no node. -/
theorem methodKind_leads {α : Type} {f : MethodKind → Parse α} {Q : α → State → Prop}
    {enders : List String} (b : Built i p l s)
    (hf : ∀ kind s', Built i p l s' → course.Leads (f kind) s' Q) :
    course.Leads (isModifier ["get", "set"] enders >>= fun found =>
      if found then do
        let word ← take
        let kind ← pure (if word.text == "get" then MethodKind.getter else .setter)
        f kind
      else pure .method >>= f) s Q := by
  refine ((isModifier_moves _ _).after b).bind fun found s1 _ b1 => ?_
  refine .ite (fun _ => ?_) fun _ => hf .method s1 b1
  exact (take_leads b1.ready).bind fun word s2 h2 _ => hf _ s2 (b1.kept h2)

/-- A member of a class is one node, around decorators, key and body. -/
theorem classMember_builds : Builds (classMember parse) ([·]) := by
  intro s hs
  have hdecorators : course.Leads (pure [] : Parse (List Node)) s fun l s' =>
      Built s.nextId s.front l s' := pure_leads hs (.start hs)
  -- there may be no decorators; modifiers are in no node
  refine .look _ rfl (.look _ rfl (either_leads (decorators_builds hp s hs) hdecorators ?_))
  intro decorators s1 _ b1
  refine ((isModifier_moves _ _).after b1).bind fun isStatic s2 _ b2 => ?_
  refine when_leads skip_moves b2 fun s3 b3 => ?_
  refine ((isModifier_moves _ _).after b3).bind fun found s4 _ b4 => ?_
  extract_lets rest
  -- the row goes on behind the decorators, with or without `async`
  have hrest : ∀ isAsync s5, Built s.nextId s.front decorators s5 →
      course.Leads (rest isAsync) s5 fun n s' => Built s.nextId s.front [n] s' := by
    intro isAsync s5 b5
    refine when_leads skip_moves b5 fun s6 b6 => ?_
    refine ((eat_moves _).after b6).bind fun generator s7 _ b7 => methodKind_leads b7 ?_
    intro kind s8 b8
    refine ((propertyKey_builds hp).after b8).bind fun r s9 _ b9 => .look _ rfl ?_
    refine .ite (fun _ => ?_) fun _ => ?_
    · refine ((params_builds hp).after b9).bind fun params s10 _ b10 => ?_
      refine ((block_builds hp).after b10).bind fun body s11 _ b11 => ?_
      exact node_built b11 rfl (b11.le_back (by simp)) (by simp)
    · -- a property: its value follows the key, if there is one
      refine ((eat_moves _).after b9).bind fun found s10 _ b10 => ?_
      refine either_leads
        (P := fun o s' => Built s.nextId s.front (decorators ++ [r.1] ++ o.toList) s')
        (.map (hp.assignment.after b10)) (pure_leads b10.ready (by simpa using b10)) ?_
      intro value s11 _ b11
      refine (semicolon_moves.after b11).bind fun _ s12 _ b12 => ?_
      exact node_built b12 rfl (b12.le_back (by simp)) (by simp)
  refine .ite (fun _ => ?_) fun _ => hrest false s4 b4
  exact (second_moves.after b4).bind fun token s5 _ b5 => hrest _ s5 b5

/-- Members are nodes one after the other. -/
theorem classMembers_builds : Builds (classMembers parse) id := by
  -- semicolons between members leave holes, which the class drops
  have hcollect : Builds (collect (return !(← isAt ["\x7d"])) do
      if ← isAtEnd then want (.symbol "\x7d")
      if ← eat ";" then return (none, true) else return (some (← classMember parse), true))
      fun members => members.flatMap Option.toList := by
    refine collect_builds (moves_of_look fun s => ⟨_, rfl⟩) fun s hs => ?_
    refine .look _ rfl (unless_leads (want_leads _) ?_)
    refine ((eat_moves ";").after (.start hs)).bind fun found s1 _ b1 => ?_
    refine .ite (fun _ => pure_leads b1.ready b1) fun _ => ?_
    exact ((classMember_builds hp).after b1).bind fun _ _ _ b2 => pure_leads b2.ready b2
  intro s hs
  refine (hcollect s hs).bind fun members s1 _ b1 => pure_leads b1.ready ?_
  rwa [filterMap_id_eq]

omit hp in
/-- A class was built; what stands in it but its decorators starts behind its start. -/
structure BuiltClass (i p start : Nat) (decorators : List Node) (n : Node) (s : State) : Prop where
  ready : s.Ready
  ids : i ≤ s.nextId
  front : p ≤ s.front
  row : Loose i p [n] s.nextId s.back
  start : n.start = start
  decorated : n.form.decorators = decorators
  inside : ∀ m ∈ n.row, n.start ≤ m.start ∨ m ∈ decorators

omit hp in
/-- A class that starts before its decorators takes them in. -/
theorem BuiltClass.built {start : Nat} {decorators : List Node}
    (b : BuiltClass i p start decorators n s) (hdecorators : ∀ d ∈ decorators, start ≤ d.start) :
    Built i p [n] s := by
  refine ⟨b.ready, b.ids, b.front, b.row, fun m hm => ?_⟩
  rw [List.mem_singleton.1 hm]
  intro d hd
  obtain hd | hd := b.inside d hd
  · exact hd
  · rw [b.start]
    exact hdecorators d hd

/-- A class behind its decorators.  It may start at the first of them or behind the last one. -/
theorem classDeclaration_leads {decorators : List Node} (b : Built i p decorators s)
    (hstart : p ≤ start.offset) (hfront : start.offset ≤ s.front) (isExpression : Bool) :
    course.Leads (classDeclaration parse start decorators isExpression) s fun n s' =>
      BuiltClass i p start.offset decorators n s' := by
  refine (expect_leads b.ready _).bind fun _ s1 h1 _ => .look _ rfl ?_
  extract_lets finish
  -- the parts behind the word make a row of their own, which goes behind the decorators
  have hfinish : ∀ (name : Option Node) s2, s1.Kept s2 → Built s1.nextId s1.front name.toList s2 →
      course.Leads (finish name) s2 fun n s' => BuiltClass i p start.offset decorators n s' := by
    intro name s2 h2 b2
    refine ((eat_moves _).after b2).bind fun found s3 h3 b3 => ?_
    refine either_leads (P := fun o s' => Built s1.nextId s1.front (name.toList ++ o.toList) s')
      (.map ((hp.callMember true).after b3)) (pure_leads b3.ready (by simpa using b3)) ?_
    intro superclass s4 h4 b4
    refine .look _ rfl ((expect_leads h4.ready _).bind fun _ s5 h5 hback => ?_)
    refine ((classMembers_builds hp).after ((Built.start h4.ready).kept h5)).bind
      fun members s6 h6 b6 => ?_
    refine (skip_leads h6.ready).bind fun _ s7 h7 _ => ?_
    refine (node_built (b6.kept h7) rfl (Nat.le_trans hback (h6.trans h7).back) (by simp)).bind
      fun body s8 h8 b8 => ?_
    have h48 : s4.Kept s8 := h5.trans (h6.trans (h7.trans h8))
    -- the body is behind the name and the superclass
    have b8 := b4.append h48 b8
    have hall := (b.kept h1).append (h2.trans (h3.trans (h4.trans h48))) b8
    rw [List.append_assoc] at b8 hall
    have hlow : start.offset ≤ s1.front := Nat.le_trans hfront h1.front
    refine (node_leads b8.ready).mono ?_
    -- the class starts where it says, which may be before or behind its decorators
    rintro n s9 h9 ⟨hn, rfl⟩
    obtain ⟨hrow, hinside⟩ := hall.row.classDeclaration (b8.row.order.widen hlow (Nat.le_refl _))
      hall.ids (Nat.le_refl _) hstart (Nat.le_trans hlow (b8.le_back (by simp))) (Nat.le_refl _) hn
    exact ⟨h9.ready, Nat.le_trans hall.ids h9.ids, hall.front, hrow, by rw [hn]; rfl, by rw [hn]; rfl,
      hinside⟩
  refine .ite (fun _ => ?_) fun _ => .ite (fun _ => ?_) fun _ => ?_
  · exact (Course.Leads.map (Q := fun o s' => Built s1.nextId s1.front o.toList s')
      (identifier_builds s1 h1.ready)).bind fun name s2 h2 b2 => hfinish name s2 h2 b2
  · exact hfinish none s1 (.refl h1.ready) (.start h1.ready)
  · exact (want_leads _).bind fun name s2 h2 b2 => hfinish name s2 h2 b2

/-- A class that starts with its decorators. -/
theorem class_leads {decorators : List Node} (b : Built i start.offset decorators s)
    (hfront : start.offset ≤ s.front) (isExpression : Bool) :
    course.Leads (classDeclaration parse start decorators isExpression) s fun n s' =>
      Built i start.offset [n] s' :=
  (classDeclaration_leads hp b (Nat.le_refl _) hfront isExpression).mono fun _ _ _ b' =>
    b'.built fun _ hd => (b.row.order.of_mem hd).1

/-- An array is one node; a hole in it is none. -/
theorem array_builds : Builds (array parse) ([·]) := by
  intro s hs
  refine .look _ rfl ((expect_leads hs _).bind fun _ s1 h1 hback => ?_)
  -- holes leave nothing in the row
  have helements : Builds (collect (return !(← isAt ["]"])) do
      if ← eat "," then return (none, true)
      else
        let element ← spreadable parse
        return (some element, ← eat ",")) fun elements => elements.flatMap Option.toList := by
    refine collect_builds (moves_of_look fun s => ⟨_, rfl⟩) fun s hs => ?_
    refine ((eat_moves ",").after (.start hs)).bind fun found s1 _ b1 => ?_
    refine .ite (fun _ => pure_leads b1.ready b1) fun _ => ?_
    refine ((spreadable_builds hp).after b1).bind fun element s2 _ b2 => ?_
    exact ((eat_moves ",").after b2).bind fun _ _ _ b3 => pure_leads b3.ready b3
  refine (helements.after ((Built.start hs).kept h1)).bind fun elements s2 h2 b2 => ?_
  refine (expect_leads h2.ready _).bind fun _ s3 h3 _ => ?_
  exact node_built (b2.kept h3) rfl (Nat.le_trans hback (h2.trans h3).back) (by simp)

omit hp in
/-- The key of a shorthand property is its value too, and is built once. -/
theorem shorthand_built {key : Node} (b : Built i start.offset [key] s) :
    course.Leads (node start (.objectProperty key key false true)) s fun n s' =>
      Built i start.offset [n] s' := by
  have hrow : Row i start.offset
      [.mk s.nextId ⟨start, s.lastEnd⟩ (.objectProperty key key false true)] (s.nextId + 1)
      s.back :=
    b.row.shorthand b.ids (Nat.le_refl _) (b.le_back (by simp)) (Nat.le_refl _)
  exact (node_row b hrow b.front).mono fun _ _ _ h => h.2

omit hp in
/-- With a default, the pattern is built behind the key that it starts with. -/
theorem shorthandDefault_built {key value : Node} (b : Built i start.offset [key, value] s) :
    course.Leads (do
      let pattern ← node start (.assignmentPattern key value)
      node start (.objectProperty key pattern false true)) s fun n s' =>
        Built i start.offset [n] s' := by
  -- a key that has a default is a pattern of its own, which is put under the property again
  have hrow : Row i start.offset
      [.mk s.nextId ⟨start, s.lastEnd⟩ (.assignmentPattern key value)] (s.nextId + 1) s.back :=
    b.row.node rfl (by simp) b.ids (Nat.le_refl _)
      (b.le_back (by simp)) (Nat.le_refl _)
  refine (node_row b hrow b.front).bind fun pattern s1 _ ⟨hpattern, b1⟩ => ?_
  have hrow : Row i start.offset
      [.mk s1.nextId ⟨start, s1.lastEnd⟩ (.objectProperty key pattern false true)] (s1.nextId + 1)
      s1.back :=
    b1.row.shorthandDefault hpattern b1.ids (Nat.le_refl _) (b1.le_back (by simp)) (Nat.le_refl _)
  exact (node_row b1 hrow b1.front).mono fun _ _ _ h => h.2

/-- A member of an object is one node. -/
theorem objectMember_builds : Builds (objectMember parse) ([·]) := by
  intro s hs
  refine .look _ rfl (((eat_moves _).after (.start hs)).bind fun found s1 _ b1 => ?_)
  -- what is spread, or a member
  refine .ite (fun _ => ?_) fun _ => ?_
  · refine (hp.assignment.after b1).bind fun argument s2 _ b2 => ?_
    exact node_built b2 rfl (b2.le_back (by simp)) (by simp)
  · refine ((isModifier_moves _ _).after b1).bind fun isAsync s2 _ b2 => ?_
    refine when_leads skip_moves b2 fun s3 b3 => ?_
    refine ((eat_moves _).after b3).bind fun generator s4 _ b4 => methodKind_leads b4 ?_
    intro kind s5 b5
    refine ((propertyKey_builds hp).after b5).bind fun r s6 _ b6 => .look _ rfl ?_
    refine .ite (fun _ => ?_) fun _ => ?_
    · refine ((params_builds hp).after b6).bind fun params s7 _ b7 => ?_
      refine ((block_builds hp).after b7).bind fun body s8 _ b8 => ?_
      exact node_built b8 rfl (b8.le_back (by simp)) (by simp)
    · -- a value, a default of a pattern, or the key alone
      refine ((eat_moves _).after b6).bind fun found s7 _ b7 => .ite (fun _ => ?_) fun _ => ?_
      · refine (hp.assignment.after b7).bind fun value s8 _ b8 => ?_
        exact node_built b8 rfl (b8.le_back (by simp)) (by simp)
      · split
        next name hname =>
          refine ((eat_moves _).after b7).bind fun found s8 _ b8 => .ite (fun _ => ?_) fun _ => ?_
          · refine (hp.assignment.after b8).bind fun value s9 _ b9 => ?_
            exact shorthandDefault_built b9
          · exact shorthand_built b8
        next => exact want_leads _

/-- An object is one node, around its members. -/
theorem object_builds : Builds (object parse) ([·]) := by
  intro s hs
  refine .look _ rfl ((expect_leads hs _).bind fun _ s1 h1 hback => ?_)
  refine ((separated_nodes "\x7d" (objectMember_builds hp)).after ((Built.start hs).kept h1)).bind
    fun properties s2 h2 b2 => ?_
  refine (expect_leads h2.ready _).bind fun _ s3 h3 _ => ?_
  exact node_built (b2.kept h3) rfl (Nat.le_trans hback (h2.trans h3).back) (by simp)

/-- A target of a binding is one node. -/
theorem bindingTarget_builds : Builds (bindingTarget parse) ([·]) := by
  intro s hs
  refine .look _ rfl (.ite (fun _ => object_builds hp s hs) fun _ => ?_)
  refine .look _ rfl (.ite (fun _ => array_builds hp s hs) fun _ => ?_)
  exact .look _ rfl (.ite (fun _ => identifier_builds s hs) fun _ => want_leads _)

/-- The scanner stands in the text of a template: what was taken and the token ahead lie behind
it. -/
structure State.InText (s : State) : Prop where
  tidy : s.scanner.Tidy
  back : s.back ≤ s.scanner.position.offset
  front : s.front ≤ s.scanner.position.offset

omit hp in
/-- Where the parser may go on it may also go on with template text. -/
theorem State.Ready.inText (hs : s.Ready) : s.InText :=
  ⟨hs.tidy, Nat.le_trans hs.front (Nat.le_trans hs.token hs.scanner),
    Nat.le_trans hs.token hs.scanner⟩

omit hp in
/-- A piece of text becomes a node, and the token behind it is read. -/
theorem chunk_leads {α : Type} {f : Scan.TemplateChunk → Node → Parse α} {Q : α → State → Prop}
    (hs : s.InText)
    (hf : ∀ chunk quasi s', s.Kept s' → Built s.nextId s.scanner.position.offset [quasi] s' →
      course.Leads (f chunk quasi) s' Q) :
    course.Leads (do
      let chunk ← scan Scan.templateChunk
      let quasi ← nodeAt chunk.span (.templateElement chunk.raw chunk.tail)
      let s ← get
      set { s with lastEnd := s.scanner.position }
      let next ← scan (Scan.next .script)
      modify fun s => { s with token := next }
      f chunk quasi) s Q := by
  -- the text, then its node, then the token behind it
  refine scan_leads (Scan.templateChunk_leads hs.tidy) fun chunk scanner htidy hprecedes hspan => ?_
  have hback : s.back ≤ scanner.position.offset := Nat.le_trans hs.back hprecedes.position
  -- the node takes its number and the text ends here
  refine resume_leads { s with scanner, nextId := s.nextId + 1, lastEnd := scanner.position }
    (y := do
      let next ← scan (Scan.next .script)
      modify fun s => { s with token := next }
      f chunk (.mk s.nextId chunk.span (.templateElement chunk.raw chunk.tail))) rfl
    ⟨Nat.le_succ _, hback, Nat.le_refl _, .refl _, id, .same rfl rfl, Nat.le_max_left _ _⟩ ?_
  refine scan_leads (Scan.next_leads htidy .script) fun next scanner' htidy' hprecedes' hspan' => ?_
  have hfront : s.front ≤ next.span.start.offset :=
    Nat.le_trans hs.front (Nat.le_trans hprecedes.position hspan'.start)
  -- the token behind the text starts no earlier
  refine resume_leads { s with
    scanner := scanner', nextId := s.nextId + 1, lastEnd := scanner.position, token := next } rfl
    ⟨Nat.le_refl _, Nat.le_refl _, hfront, .refl _, id, .same rfl rfl, Nat.le_max_left _ _⟩ (hf _ _ _ ?_ ?_)
  · exact ⟨⟨Nat.le_succ _, hback, hfront, hprecedes.trans hprecedes', id, .same rfl rfl, Nat.le_max_left _ _⟩,
      ⟨htidy', hspan'.start, hspan'.order, hspan'.stop⟩⟩
  · refine ⟨⟨htidy', hspan'.start, hspan'.order, hspan'.stop⟩, Nat.le_succ _,
      Nat.le_trans hprecedes.position hspan'.start, ?_⟩
    refine ((Row.nil s.nextId chunk.span.start.offset s.nextId 0).node rfl rfl (Nat.le_refl _)
      (Nat.le_refl _) hspan.order (Nat.zero_le _)).widen (Nat.le_refl _) hspan.start (Nat.le_refl _)
      hspan.stop

/-- Texts and expressions of a template are built in turn. -/
theorem templateParts_leads (n : Nat) (hs : s.InText) :
    course.Leads (templateParts parse n) s fun r s' =>
      Built s.nextId s.scanner.position.offset (interleave r.1 r.2) s' := by
  -- by induction on the rounds: texts and expressions in turn
  induction n generalizing s with
  | zero => exact exhausted_leads
  | succ n ih =>
    refine .look _ rfl (chunk_leads hs fun chunk quasi s1 h1 b1 => .ite (fun _ => ?_) fun _ => ?_)
    · exact pure_leads b1.ready b1
    · refine (hp.expression.after b1).bind fun expression s2 h2 b2 => ?_
      refine .look _ rfl (unless_leads (want_leads _) (note_leads fun noted => ?_))
      have b2 := b2.noted noted
      refine (ih b2.ready.inText).bind fun r s3 h3 b3 => pure_leads b3.ready ?_
      -- the row of the rest starts behind the expression
      have b3 : Built s2.nextId s2.front (interleave r.1 r.2) s3 := ⟨b3.ready, b3.ids, h3.front,
        b3.row.widen (Nat.le_refl _) b2.ready.inText.front (Nat.le_refl _) (Nat.le_refl _)⟩
      exact b2.append h3 b3

/-- A template is one node, around its texts and expressions. -/
theorem template_builds : Builds (template parse) ([·]) := by
  intro s hs
  refine .look _ rfl (.look _ rfl (unless_leads (want_leads _) ?_))
  -- the mark is taken, and the text behind it is no token
  refine modify_leads ⟨Nat.le_refl _, Nat.le_trans hs.front hs.token, Nat.le_refl _, .refl _, id,
    .same rfl rfl, Nat.le_max_left _ _⟩ ?_
  have hfront : s.front ≤ s.scanner.position.offset := Nat.le_trans hs.token hs.scanner
  have htext : State.InText { s with lastEnd := s.token.span.stop } :=
    ⟨hs.tidy, hs.scanner, hfront⟩
  refine .look _ rfl ((templateParts_leads hp _ htext).bind fun r s1 h1 b1 => ?_)
  have hback : s.front ≤ s1.back := Nat.le_trans hs.token h1.back
  -- the template takes all of its parts
  have hrow : Row s.nextId s.front
      [.mk s1.nextId ⟨s.token.span.start, s1.lastEnd⟩ (.templateLiteral r.1 r.2)] (s1.nextId + 1)
      s1.back :=
    b1.row.template b1.ids hfront hback (Nat.le_refl _)
  exact (node_row b1 hrow (Nat.le_trans hfront b1.front)).mono fun _ _ _ h => h.2

end Reflow.Grammar
