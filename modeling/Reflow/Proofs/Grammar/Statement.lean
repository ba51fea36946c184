import Reflow.Grammar.Statement
import Reflow.Proofs.Grammar.Expression

/-!
# Statements build rows

Declarations, conditions, returns, imports, exports and expressions as statements.
-/

namespace Reflow.Grammar

-- the children of a node are read off its form
attribute [local simp] Form.children Form.fields

variable {parse : Rule → Parse Node} (hp : BuildRules parse) {i p : Nat} {l : List Node} {n : Node}
  {s : State} {start : Position}

/-- Nodes that turn out not to be part of the tree are left out of the row. -/
theorem Built.forget (b : Built i p l s) {p' : Nat} (hp' : p' ≤ s.front) : Built i p' [] s :=
  ⟨b.ready, b.ids, hp', .nil ..⟩

/-- A row may be said to start earlier. -/
theorem Built.earlier (b : Built i p l s) {p' : Nat} (hp' : p' ≤ p) : Built i p' l s :=
  ⟨b.ready, b.ids, Nat.le_trans hp' b.front,
    b.row.widen (Nat.le_refl _) hp' (Nat.le_refl _) (Nat.le_refl _)⟩

section

include hp

/-- A declaration is one node, around its declarators. -/
theorem variableDeclaration_builds : Builds (variableDeclaration parse) ([·]) := by
  intro s hs
  refine .look _ rfl ((take_leads hs).bind fun kind s1 h1 hback => ?_)
  extract_lets declarator
  -- a target, and a value behind an equals sign
  have hdeclarator : Builds declarator ([·]) := by
    intro s hs
    refine .look _ rfl ((hp.bindingTarget s hs).bind fun target s1 _ b1 => ?_)
    refine ((eat_moves _).after b1).bind fun found s2 _ b2 => ?_
    refine either_leads
      (P := fun (o : Option Node) s' => Built s.nextId s.front ([target] ++ o.toList) s')
      (.map (hp.assignment.after b2)) (pure_leads b2.ready b2) fun init s3 _ b3 => ?_
    exact node_built b3 rfl (b3.le_back (by simp)) (by simp)
  -- declarators up to the first one that no comma follows
  have hdeclarations : Builds (collect (pure true) (do
      let d ← declarator
      return (d, ← eat ","))) id := by
    refine collect_nodes (moves_of_look fun s => ⟨_, rfl⟩) fun s hs => ?_
    refine (hdeclarator s hs).bind fun d s1 _ b1 => ?_
    exact ((eat_moves _).after b1).bind fun _ _ _ b2 => pure_leads b2.ready b2
  refine (hdeclarations.after ((Built.start hs).kept h1)).bind fun declarations s2 h2 b2 => ?_
  exact node_built b2 rfl (Nat.le_trans hback.2 h2.back) (by simp)

/-- A conditional statement is one node, around its branches. -/
theorem ifStatement_leads (b : Built i start.offset [] s) :
    course.Leads (ifStatement parse start) s fun n s' => Built i start.offset [n] s' := by
  refine (skip_leads b.ready).bind fun _ s1 h1 _ => ?_
  refine (expect_leads h1.ready _).bind fun _ s2 h2 _ => ?_
  refine (hp.expression.after (b.kept (h1.trans h2))).bind fun test s3 h3 b3 => ?_
  refine (expect_leads h3.ready _).bind fun _ s4 h4 _ => ?_
  refine (hp.statement.after (b3.kept h4)).bind fun consequent s5 _ b5 => ?_
  refine ((eat_moves _).after b5).bind fun found s6 _ b6 => ?_
  refine either_leads (P := fun o s' => Built i start.offset ([test, consequent] ++ o.toList) s')
    (.map (hp.statement.after b6)) (pure_leads b6.ready b6) fun alternate s7 _ b7 => ?_
  exact node_built b7 rfl (b7.le_back (by simp)) (by simp)

/-- A return is one node, with an argument or without. -/
theorem returnStatement_leads (b : Built i start.offset [] s) (hfront : start.offset = s.front) :
    course.Leads (returnStatement parse start) s fun n s' => Built i start.offset [n] s' := by
  refine (skip_leads b.ready).bind fun _ s1 h1 hback => .look _ rfl ?_
  have b1 := b.kept h1
  refine either_leads (P := fun o s' => Built i start.offset o.toList s')
    (pure_leads b1.ready b1) (.map (hp.expression.after b1)) fun argument s2 h2 b2 => ?_
  refine (semicolon_moves.after b2).bind fun _ s3 h3 b3 => ?_
  exact node_built b3 rfl (hfront ▸ Nat.le_trans hback (h2.trans h3).back) (by simp)

end

/-- A name and maybe another one become a name of an import or export; if there is no other one, the
first stands in both places. -/
theorem specifier_leads {name : Node} {rename : Parse Node} {form : Node → Node → Form Node}
    (hform : ∀ a b, (form a b).isPlain = true) (hrepeat : ∀ a b, (form a b).mayRepeat = true)
    (hl : ∀ a b, (form a b).children.map (·.2) = [a, b]) (hrename : Builds rename ([·]))
    (b : Built i start.offset [name] s) (word : String) :
    course.Leads (eat word >>= fun found =>
      if found then rename >>= fun other => node start (form name other)
      else pure name >>= fun other => node start (form name other)) s fun n s' =>
        Built i start.offset [n] s' := by
  -- another name stands in the row; the same name stands in it once
  refine ((eat_moves _).after b).bind fun found s1 _ b1 => .ite (fun _ => ?_) fun _ => ?_
  · refine (hrename.after b1).bind fun other s2 _ b2 => ?_
    exact node_built b2 (hform _ _) (b2.le_back (by simp)) (hl _ _)
  · -- the specifier is over its only child, twice
    have hrow : Row i start.offset [.mk s1.nextId ⟨start, s1.lastEnd⟩ (form name name)]
        (s1.nextId + 1) s1.back :=
      b1.row.node_of_children (hform _ _) (by rw [hl]; simp [Node.dropRepeated])
        (by simp [hrepeat]) b1.ids (Nat.le_refl _) (b1.le_back (by simp)) (Nat.le_refl _)
    exact (node_row b1 hrow b1.front).mono fun _ _ _ h => h.2

/-- An imported name is one node. -/
theorem importSpecifier_builds : Builds importSpecifier ([·]) := by
  intro s hs
  refine .look _ rfl ((moduleName_builds s hs).bind fun imported s1 _ b1 => ?_)
  exact specifier_leads (fun _ _ => rfl) (fun _ _ => rfl) (fun _ _ => rfl) identifier_builds b1 "as"

/-- An exported name is one node. -/
theorem exportSpecifier_builds : Builds exportSpecifier ([·]) := by
  intro s hs
  refine .look _ rfl ((moduleName_builds s hs).bind fun binding s1 _ b1 => ?_)
  exact specifier_leads (fun _ _ => rfl) (fun _ _ => rfl) (fun _ _ => rfl) moduleName_builds b1 "as"

/-- A node over another one that takes the same space. -/
theorem nodeAt_over {form : Form Node} (b : Built i p [n] s) (hform : form.isPlain = true)
    (hl : form.children.map (·.2) = [n]) :
    course.Leads (nodeAt n.span form) s fun m s' => Built i p [m] s' := by
  refine (nodeAt_leads b.ready n.span).mono ?_
  rintro _ _ h ⟨rfl, rfl⟩
  -- a node around one other, with the same span
  obtain ⟨hstart, hle, hstop, -⟩ := b.row.order
  have hplain : (Node.mk s.nextId n.span form).form.isPlain = true := hform
  have hchildren : (Node.mk s.nextId n.span form).children = [n] := by
    rw [Node.children, Node.placedChildren, Node.form, hl]
    rfl
  have hrow := (Node.row_of_isPlain hplain).trans hchildren
  -- its children are that node, so they are apart
  have hformed : (Node.mk s.nextId n.span form).Formed := by
    refine Node.formed_of_isPlain hplain ?_ fun _ => hchildren.trans hl.symm
    rw [hrow]
    exact ⟨Nat.le_refl _, hle, Nat.le_refl _, trivial⟩
  have hrow' : Row i p [n] s.nextId n.stop :=
    ⟨⟨b.row.nodup, b.row.ids, ⟨hstart, hle, Nat.le_refl _, trivial⟩, b.row.decorated, b.row.sound⟩,
      b.row.encloses⟩
  exact ⟨h.ready, Nat.le_trans b.ids h.ids, b.front, hrow'.close rfl b.ids hrow
    (fun _ hd => hl ▸ (form.decorators_subset hd).2) hformed (Node.inside_of_isPlain hplain)
    (Nat.le_refl _) hstart hle (Nat.le_refl _) hstop⟩

/-- Imported names are nodes one after the other. -/
theorem importSpecifiers_builds : Builds importSpecifiers id := by
  intro s hs
  have b := Built.start hs
  refine .look _ rfl ?_
  extract_lets named
  -- behind the default name, if there is one
  have hnamed : ∀ defaults s1, Built s.nextId s.front defaults s1 →
      course.Leads (named defaults) s1 fun l s' => Built s.nextId s.front l s' := by
    intro defaults s1 b1
    refine .look _ rfl (.look _ rfl ?_)
    extract_lets finish
    have hfinish : ∀ named s2, Built s.nextId s.front (defaults ++ named) s2 →
        course.Leads (finish named) s2 fun l s' => Built s.nextId s.front l s' :=
      fun named s2 b2 => (expect_leads b2.ready _).bind fun _ s3 h3 _ =>
        pure_leads h3.ready (b2.kept h3)
    -- all names under one, names in braces, or none
    refine .ite (fun _ => .look _ rfl ?_) fun _ => .ite (fun _ => ?_) fun _ => ?_
    · refine (skip_leads b1.ready).bind fun _ s2 h2 _ => ?_
      refine (expect_leads h2.ready _).bind fun _ s3 h3 _ => ?_
      have b3 := (Built.start b1.ready).kept (h2.trans h3)
      refine (identifier_builds.after b3).bind fun binding s4 h4 b4 => ?_
      refine (node_built b4 rfl (b4.le_back (by simp)) (by simp)).bind fun specifier s5 h5 b5 => ?_
      exact hfinish _ s5 (b1.append (h2.trans (h3.trans (h4.trans h5))) b5)
    · refine (skip_leads b1.ready).bind fun _ s2 h2 _ => ?_
      refine ((separated_nodes _ importSpecifier_builds).after (b1.kept h2)).bind
        fun specifiers s3 h3 b3 => ?_
      exact (expect_leads h3.ready _).bind fun _ s4 h4 _ => hfinish specifiers s4 (b3.kept h4)
    · exact hfinish [] s1 (by simpa using b1)
  refine .ite (fun _ => ?_) fun _ => hnamed [] s b
  refine (identifier_builds.after b).bind fun binding s1 _ b1 => ?_
  refine (nodeAt_over b1 rfl (by simp)).bind ?_
  intro specifier s2 _ b2
  exact ((eat_moves _).after b2).discard.bind fun _ s3 _ b3 => hnamed [specifier] s3 b3

/-- An import is one node, around its names and its source. -/
theorem importDeclaration_leads (b : Built i start.offset [] s) :
    course.Leads (importDeclaration start) s fun n s' => Built i start.offset [n] s' := by
  refine (skip_leads b.ready).bind fun _ s1 h1 _ => .look _ rfl ?_
  have b1 := b.kept h1
  refine either_leads (P := fun l s' => Built i start.offset l s') (pure_leads b1.ready b1)
    (importSpecifiers_builds.after b1) fun specifiers s2 _ b2 => ?_
  refine (stringLiteral_builds.after b2).bind fun source s3 _ b3 => ?_
  refine (semicolon_moves.after b3).bind fun _ s4 _ b4 => ?_
  exact node_built b4 rfl (b4.le_back (by simp)) (by simp)

/-- To see whether a function stands ahead makes no nodes. -/
theorem isAtFunction_moves : Moves isAtFunction := by
  intro s hs
  refine .look _ rfl (.ite (fun _ => pure_leads hs trivial) fun _ => .look _ rfl ?_)
  refine .ite (fun _ => ?_) fun _ => pure_leads hs trivial
  exact (secondText_moves s hs).bind fun _ _ h _ => pure_leads h.ready trivial

/-- An export of names is one node, around the names and its source. -/
theorem exportNames_leads (b : Built i start.offset [] s) (hback : start.offset ≤ s.back) :
    course.Leads (exportNames start) s fun n s' => Built i start.offset [n] s' := by
  -- the names in braces, and the origin, if there is one
  refine (expect_leads b.ready _).bind fun _ s1 h1 _ => ?_
  refine ((separated_nodes _ exportSpecifier_builds).after (b.kept h1)).bind
    fun specifiers s2 h2 b2 => ?_
  refine (expect_leads h2.ready _).bind fun _ s3 h3 _ => ?_
  refine ((eat_moves _).after (b2.kept h3)).bind fun found s4 h4 b4 => ?_
  refine either_leads
    (P := fun (o : Option Node) s' => Built i start.offset (specifiers ++ o.toList) s')
    (.map (stringLiteral_builds.after b4)) (pure_leads b4.ready (by simpa using b4))
    fun source s5 h5 b5 => ?_
  refine (semicolon_moves.after b5).bind fun _ s6 h6 b6 => ?_
  have h16 : s.Kept s6 := h1.trans (h2.trans (h3.trans (h4.trans (h5.trans h6))))
  exact node_built b6 rfl (Nat.le_trans hback h16.back) (by simp)

include hp

/-- More decorators behind those that were read before. -/
theorem moreDecorators_leads {α : Type} {before : List Node} {f : List Node → Parse α}
    {Q : α → State → Prop} (b : Built i p before s)
    (hf : ∀ decorators s', s.Kept s' → Built i p decorators s' →
      (∀ d ∈ decorators, d ∈ before ∨ s.front ≤ d.start) → course.Leads (f decorators) s' Q) :
    course.Leads (isAt ["@"] >>= fun found =>
      if found then (before ++ ·) <$> decorators parse >>= f else pure before >>= f) s Q := by
  refine .look _ rfl ?_
  refine .ite (fun _ => ?_) fun _ => hf before s (.refl b.ready) b fun _ => .inl
  refine Course.Leads.bind (P := fun l s' => Built i p l s' ∧ ∀ d ∈ l, d ∈ before ∨ s.front ≤ d.start)
    (.map ?_) fun l s' h hl => hf l s' h hl.1 hl.2
  refine (decorators_builds hp s b.ready).mono fun more s' h b' => ⟨b.append h b', fun d hd => ?_⟩
  exact (List.mem_append.1 hd).imp_right fun hd => (b'.row.order.of_mem hd).1

/-- A default export is one node, around decorators that stand before it too. -/
theorem exportDefault_leads {before : List Node} (b : Built i start.offset before s) :
    course.Leads (exportDefault parse start before) s fun n s' => Built i start.offset [n] s' := by
  refine .look _ rfl (moreDecorators_leads hp b fun decorators s1 h1 b1 hmore => .look _ rfl ?_)
  extract_lets finish
  have hfinish : ∀ declaration s2, Built i start.offset [declaration] s2 →
      course.Leads (finish declaration) s2 fun n s' => Built i start.offset [n] s' :=
    fun declaration s2 b2 => node_built b2 rfl (b2.le_back (by simp)) (by simp)
  refine (isAtFunction_moves.after b1).bind fun isFunction s2 h2 b2 => ?_
  have hinner : s.front ≤ s2.front := (h1.trans h2).front
  refine .ite (fun _ => ?_) fun _ => .ite (fun _ => ?_) fun _ => ?_
  · -- the class starts behind `default`, and so behind the decorators that were read before
    refine (classDeclaration_leads hp b2 b.front hinner true).bind fun declaration s3 _ b3 => ?_
    have hbehind : declaration.EnclosesBehind := by
      intro d hd
      rw [b3.decorated, b3.start]
      obtain hd | hd := b3.inside d hd
      · exact .inl (b3.start ▸ hd)
      · obtain hbefore | hfront := hmore d hd
        · exact .inr ⟨hd, Nat.le_trans (b.row.order.of_mem hbefore).2.2 b.ready.front⟩
        · exact .inl hfront
    obtain ⟨hstart, hle, hstop, -⟩ := b3.row.order
    have hback := Nat.le_trans hstart (Nat.le_trans hle hstop)
    refine (node_row ⟨b3.ready, b3.ids, b3.front, .nil ..⟩ ?_ b3.front).mono fun _ _ _ h => h.2
    exact b3.row.exportDefault hbehind b3.ids (Nat.le_refl _) hback (Nat.le_refl _)
  · exact (function_leads hp (b2.forget hinner) false).bind fun declaration s3 _ b3 =>
      hfinish declaration s3 (b3.earlier b.front)
  · refine (hp.assignment.after (b2.forget b2.front)).bind fun value s3 _ b3 => ?_
    exact (semicolon_moves.after b3).bind fun _ s4 _ b4 => hfinish value s4 b4

/-- So is an export of a declaration. -/
theorem exportDeclaration_leads {before : List Node} (b : Built i start.offset before s) :
    course.Leads (exportDeclaration parse start before) s fun n s' =>
      Built i start.offset [n] s' := by
  refine (expect_leads b.ready _).bind fun _ s1 h1 htaken => ?_
  -- the export starts before its words, perhaps at decorators
  have hback : start.offset ≤ s1.back := Nat.le_trans b.front htaken
  refine ((eat_moves _).after (b.kept h1)).bind fun found s2 h2 b2 => ?_
  refine .ite (fun _ => exportDefault_leads hp b2) fun _ => ?_
  refine moreDecorators_leads hp b2 fun decorators s3 h3 b3 _ => .look _ rfl (.look _ rfl ?_)
  -- decorators that no class follows are left out of the row
  have hempty := b3.forget b3.front
  refine .ite (fun _ => ?_) fun _ => .look _ rfl (.ite (fun _ => ?_) fun _ => ?_)
  · extract_lets inner
    -- the class starts at its first decorator, if it has one
    have hinner : start.offset ≤ inner.offset ∧ inner.offset ≤ s3.front ∧
        ∀ d ∈ decorators, inner.offset ≤ d.start := by
      cases decorators with
      | nil => exact ⟨b3.front, Nat.le_refl _, List.forall_mem_nil _⟩
      | cons d rest =>
        obtain ⟨hd, hle, hstop, hrest⟩ := b3.row.order
        refine ⟨hd, Nat.le_trans hle (Nat.le_trans hstop b3.ready.front), ?_⟩
        exact List.forall_mem_cons.2 ⟨Nat.le_refl _, fun e he =>
          Nat.le_trans hle (hrest.of_mem he).1⟩
    refine (classDeclaration_leads hp b3 hinner.1 hinner.2.1 false).bind
      fun declaration s4 _ b4 => ?_
    have b4 := b4.built hinner.2.2
    exact node_built b4 rfl (b4.le_back (by simp)) (by simp)
  · refine ((variableDeclaration_builds hp).after hempty).bind fun declaration s4 _ b4 => ?_
    refine (semicolon_moves.after b4).bind fun _ s5 _ b5 => ?_
    exact node_built b5 rfl (b5.le_back (by simp)) (by simp)
  · refine .look _ rfl (.ite (fun _ => ?_) fun _ => ?_)
    · -- a function, or a list of names
      refine (function_leads hp (b3.forget (Nat.le_refl s3.front)) true).bind
        fun declaration s4 _ b4 => ?_
      have b4 := b4.earlier b3.front
      exact node_built b4 rfl (b4.le_back (by simp)) (by simp)
    · exact exportNames_leads hempty (Nat.le_trans hback (h2.trans h3).back)

/-- Decorators are built into the class or the export that they stand before. -/
theorem decorated_leads (b : Built i start.offset [] s) (hfront : start.offset = s.front) :
    course.Leads (decorated parse start) s fun n s' => Built i start.offset [n] s' := by
  refine ((decorators_builds hp).after b).bind fun decorators s1 h1 b1 => ?_
  refine .look _ rfl (.ite (fun _ => exportDeclaration_leads hp b1) fun _ => .look _ rfl ?_)
  refine .ite (fun _ => ?_) fun _ => want_leads _
  exact class_leads hp b1 (hfront ▸ h1.front) false

/-- A statement of an expression is one node. -/
theorem expressionStatement_leads (b : Built i start.offset [] s) :
    course.Leads (expressionStatement parse start) s fun n s' => Built i start.offset [n] s' := by
  refine (hp.expression.after b).bind fun expression s1 _ b1 => ?_
  refine (semicolon_moves.after b1).bind fun _ s2 _ b2 => ?_
  exact node_built b2 rfl (b2.le_back (by simp)) (by simp)

/-- So is one of a declaration. -/
theorem variableStatement_leads (b : Built i start.offset [] s) :
    course.Leads (variableStatement parse start) s fun n s' => Built i start.offset [n] s' := by
  refine ((variableDeclaration_builds hp).after b).bind fun declaration s1 _ b1 => ?_
  refine (semicolon_moves.after b1).bind fun _ s2 _ b2 => .get_bind (pure_leads b2.ready ?_)
  obtain ⟨hstart, -, hstop, -⟩ := b2.row.order
  exact ⟨b2.ready, b2.ids, b2.front,
    b2.row.withSpan (Nat.le_refl _) (Nat.le_refl _) hstart hstop (Nat.le_refl _)⟩

/-- A statement that starts with a word is one node, from that word on. -/
theorem wordStatement_leads (b : Built i start.offset [] s) (hfront : start.offset = s.front)
    (token : Token) :
    course.Leads (wordStatement parse start token) s fun n s' => Built i start.offset [n] s' := by
  -- the words that start a statement, some of them before certain words only
  unfold wordStatement
  split
  · exact variableStatement_leads hp b
  · exact variableStatement_leads hp b
  · exact (secondText_moves.after b).bind fun _ _ _ b1 => .ite
      (fun _ => variableStatement_leads hp b1) fun _ => expressionStatement_leads hp b1
  · exact function_leads hp b true
  · exact (secondText_moves.after b).bind fun _ _ _ b1 => .ite
      (fun _ => function_leads hp b1 true) fun _ => expressionStatement_leads hp b1
  · exact class_leads hp b b.front false
  · exact returnStatement_leads hp b hfront
  · exact ifStatement_leads hp b
  · exact (secondText_moves.after b).bind fun _ _ _ b1 => .ite
      (fun _ => expressionStatement_leads hp b1) fun _ => importDeclaration_leads b1
  · exact exportDeclaration_leads hp b
  · exact .ite (fun _ => fail_leads _ _) fun _ => expressionStatement_leads hp b

/-- A statement is one node. -/
theorem statement_builds : Builds (statement parse) ([·]) := by
  refine nested_builds fun s hs => .look _ rfl (.look _ rfl (.ite (fun _ => ?_) fun _ => ?_))
  · exact block_builds hp s hs
  · have b := Built.start hs
    refine .ite (fun _ => ?_) fun _ => .ite (fun _ => decorated_leads hp b rfl) fun _ => ?_
    · refine (skip_leads hs).bind fun _ s1 h1 hback => ?_
      exact node_built (b.kept h1) rfl hback (by simp)
    · exact .ite (fun _ => wordStatement_leads hp b rfl _) fun _ => expressionStatement_leads hp b

end Reflow.Grammar
