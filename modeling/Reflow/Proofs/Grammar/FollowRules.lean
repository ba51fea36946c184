import Reflow.Proofs.Grammar.FollowPieces
import Reflow.Proofs.Grammar.Parse

/-!
# Expressions and statements follow a plain scan

An attempt at an arrow function that fails leaves no trace but the numbers it used up.  Decorators in
front of an export are either part of the class behind them, or else the export is no script.
-/

namespace Reflow.Grammar

-- the children of a node are read off its form
attribute [local simp] Form.children Form.fields

variable {parse : Rule → Parse Node} (hp : FollowRules parse) {l : List Node} {n : Node}
  {o s : State} {start : Position}

/-! ### Expressions -/

include hp

/-- An expression takes its expressions and the commas between them. -/
theorem expression_follows : Follows (expression parse) ([·]) := by
  intro s hs
  refine .look _ rfl ((hp.assignment s hs).bind fun first s1 _ f1 => ?_)
  refine .look _ rfl (.ite (fun _ => ?_) fun _ => pure_leads f1.ready f1)
  have hrest : Follows (collect (eat ",") (return (← parse .assignment, true))) id := by
    refine collect_each (eat_passes _) fun s hs => ?_
    exact (hp.assignment s hs).bind fun _ _ _ f => pure_leads f.ready f
  exact (hrest.after f1).bind fun rest s2 _ f2 => node_followed f2 (by simp)

/-- The head of an arrow function takes its parameters and their brackets. -/
theorem arrowHead_follows : Follows (arrowHead parse) fun r => r.1 := by
  intro s hs
  refine .look _ rfl ?_
  extract_lets rest
  -- `async` is in no node
  have hrest : ∀ isAsync s1, Followed s [] s1 →
      course.Leads (rest isAsync) s1 fun r s' => Followed s r.1 s' := by
    intro isAsync s1 f1
    refine when_follows skip_passes f1 fun s2 f2 => .look _ rfl (.look _ rfl ?_)
    extract_lets finish
    -- the arrow is only looked at
    have hfinish : ∀ params s3, Followed s params s3 →
        course.Leads (finish params) s3 fun r s' => Followed s r.1 s' :=
      fun params s3 f3 => .look _ rfl (unless_leads (want_leads _) (pure_leads f3.ready f3))
    refine .ite (fun _ => ?_) fun _ => .ite (fun _ => ?_) fun _ => ?_
    · exact ((params_follows hp).after f2).bind fun params s3 _ f3 => hfinish params s3 f3
    · exact (Course.Leads.map (Q := fun l s' => Followed s l s')
        (identifier_follows.after f2)).bind fun params s3 _ f3 => hfinish params s3 f3
    · exact (want_leads _).bind fun params s3 _ f3 => hfinish params s3 f3
  have f := Followed.start hs
  refine .ite (fun _ => ?_) fun _ => hrest false s f
  refine (second_passes.after f).bind fun token s1 _ f1 => ?_
  refine .ite (fun _ => hrest false s1 f1) fun _ => ?_
  exact (secondText_passes.after f1).bind fun text s2 _ f2 => hrest _ s2 f2

/-- An attempt that fails comes back to where it started, with nothing built. -/
theorem arrow?_follows : Follows (arrow? parse) Option.toList := by
  intro s hs
  have f := Followed.start hs
  refine .look _ rfl (.ite (fun _ => pure_leads hs f) fun _ => .look _ rfl (.look _ rfl ?_))
  -- whatever was read before a failure, the parser comes back to where it was
  refine attempt_leads hs (arrowHead_follows hp s hs) ?_ (fun _ => rfl)
    fun s1 h1 hscanner htoken => pure_leads h1.ready (f.same h1 hscanner htoken)
  intro r s1 _ f1
  refine (skip_passes.after f1).bind fun _ s2 _ f2 => .look _ rfl ?_
  refine either_leads ((block_follows hp).after f2) (hp.assignment.after f2) ?_
  exact fun body s3 _ f3 => .map (node_followed f3 (by simp))

/-- A conditional takes its three parts and its two signs. -/
theorem conditional_follows : Follows (conditional parse) ([·]) := by
  intro s hs
  refine .look _ rfl (((hp.binary 0) s hs).bind fun test s1 _ f1 => ?_)
  refine ((eat_passes _).after f1).bind fun found s2 _ f2 => ?_
  refine .ite (fun _ => ?_) fun _ => pure_leads f2.ready f2
  refine (hp.assignment.after f2).bind fun consequent s3 _ f3 => ?_
  refine ((expect_passes _).after f3).bind fun _ s4 _ f4 => ?_
  exact (hp.assignment.after f4).bind fun alternate s5 _ f5 => node_followed f5 (by simp)

/-- An assignment takes its target, its sign and its value. -/
theorem assignment_follows : Follows (assignment parse) ([·]) := by
  refine nested_follows fun s hs => ?_
  refine (arrow?_follows hp s hs).bind fun found s1 _ f1 => ?_
  cases found with
  | some arrow => exact pure_leads f1.ready f1
  | none =>
    refine .look _ rfl (((conditional_follows hp).after f1).bind fun left s2 _ f2 => ?_)
    refine .look _ rfl (.ite (fun _ => ?_) fun _ => pure_leads f2.ready f2)
    refine unless_leads (fail_leads _ _) ((skip_passes.after f2).bind fun _ s3 _ f3 => ?_)
    exact (hp.assignment.after f3).bind fun right s4 _ f4 => node_followed f4 (by simp)

/-- An operation takes its operands and the operators between them. -/
theorem binary_follows (least : Nat) : Follows (binary parse least) ([·]) := by
  intro s hs
  refine .look _ rfl ((hp.unary s hs).bind fun first s1 _ f1 => ?_)
  -- the operand that was read last is the only node
  refine extend_leads (Q := fun n s' => Followed s [n] s') (fun _ _ f => f.ready)
    (fun _ _ f => f.noted) ?_ f1
  intro left s2 f2
  refine .look _ rfl ?_
  split
  · exact pure_leads f2.ready f2
  · refine .ite (fun _ => pure_leads f2.ready f2) fun _ => ?_
    refine (skip_passes.after f2).bind fun _ s3 _ f3 => ?_
    refine ((hp.binary _).after f3).bind fun right s4 _ f4 => ?_
    refine Course.Leads.bind (P := fun n s' => Followed s [n] s') ?_ fun n s5 _ f5 =>
      pure_leads f5.ready f5
    split <;> exact node_followed f4 (by simp)

/-- A prefix operator is taken, and then its operand. -/
theorem unary_follows : Follows (unary parse) ([·]) := by
  intro s hs
  -- the operators differ in the node on top
  refine .look _ rfl (.look _ rfl (.ite (fun _ => ?_) fun _ => .ite (fun _ => ?_) fun _ => ?_))
  · refine (skip_passes s hs).bind fun _ s1 _ f1 => ?_
    exact ((nested_follows hp.unary).after f1).bind fun argument s2 _ f2 =>
      node_followed f2 (by simp)
  · refine (skip_passes s hs).bind fun _ s1 _ f1 => ?_
    exact (hp.unary.after f1).bind fun argument s2 _ f2 => node_followed f2 (by simp)
  · refine .ite (fun _ => ?_) fun _ => ?_
    · refine (skip_passes s hs).bind fun _ s1 _ f1 => ?_
      exact (hp.unary.after f1).bind fun argument s2 _ f2 => node_followed f2 (by simp)
    · refine (hp.callMember true s hs).bind fun operand s1 _ f1 => .look _ rfl ?_
      refine .ite (fun _ => ?_) fun _ => pure_leads f1.ready f1
      exact (skip_passes.after f1).bind fun _ s2 _ f2 => node_followed f2 (by simp)

/-- A key in brackets takes what is in them. -/
theorem computedKey_follows : Follows (computedKey parse) ([·]) := by
  intro s hs
  refine (skip_passes s hs).bind fun _ s1 _ f1 => ?_
  refine (hp.expression.after f1).bind fun property s2 _ f2 => ?_
  exact ((expect_passes _).after f2).bind fun _ s3 _ f3 => pure_leads f3.ready f3

omit hp in
/-- A value and what follows it become one node. -/
theorem suffixed_followed {α : Type} {x : Parse α} {nodesOf : α → List Node}
    {form : α → Form Node} {value : Node} (hx : Follows x nodesOf) (f : Followed o [value] s)
    (hform : ∀ a, ∀ m ∈ value :: nodesOf a, m ∈ (form a).children.map (·.2)) :
    course.Leads (do
      let a ← x
      some <$> node start (form a)) s fun r s' => Followed o [r.getD value] s' :=
  (hx.after f).bind fun a _ _ f1 => .map (node_followed f1 (hform a))

/-- What follows a value takes it in. -/
theorem suffix_followed (allowCall : Bool) {value : Node} (f : Followed o [value] s) :
    course.Leads (suffix parse allowCall start value) s fun r s' =>
      Followed o [r.getD value] s' := by
  -- a point, an optional chain, or a suffix that starts with a bracket
  refine .look _ rfl (.ite (fun _ => ?_) fun _ => .look _ rfl (.ite (fun _ => ?_) fun _ => ?_))
  · refine (skip_passes.after f).bind fun _ s1 _ f1 => ?_
    exact suffixed_followed propertyName_follows f1 (by simp)
  · refine (skip_passes.after f).bind fun _ s1 _ f1 => .look _ rfl (.ite (fun _ => ?_) fun _ => ?_)
    · exact suffixed_followed (arguments_follows hp) f1 (by simp)
    · refine .look _ rfl (.ite (fun _ => ?_) fun _ => ?_)
      · exact suffixed_followed (computedKey_follows hp) f1 (by simp)
      · exact suffixed_followed propertyName_follows f1 (by simp)
  · refine .look _ rfl (.ite (fun _ => ?_) fun _ => .look _ rfl (.ite (fun _ => ?_) fun _ => ?_))
    · exact suffixed_followed (computedKey_follows hp) f (by simp)
    · exact suffixed_followed (arguments_follows hp) f (by simp)
    · refine .look _ rfl (.ite (fun _ => ?_) fun _ => pure_leads f.ready f)
      exact suffixed_followed (template_follows hp) f (by simp)

/-- A construction takes its word, its callee and its arguments. -/
theorem newExpression_follows : Follows (newExpression parse) ([·]) := by
  intro s hs
  refine .look _ rfl ((expect_passes _ s hs).bind fun _ s1 _ f1 => ?_)
  refine ((hp.callMember false).after f1).bind fun callee s2 _ f2 => ?_
  refine .look _ rfl (either_leads (P := fun l s' => Followed s (callee :: l) s')
    ((arguments_follows hp).after f2) (pure_leads f2.ready f2) ?_)
  exact fun arguments s3 _ f3 => node_followed f3 (by simp)

/-- What starts with a word takes that word and what belongs to it. -/
theorem wordExpression_followed (f : Followed o [] s) (word : String) :
    course.Leads (wordExpression parse start word) s fun n s' => Followed o [n] s' := by
  -- a literal takes its word
  have hliteral : ∀ form : Form Node,
      course.Leads (do skip; node start form) s fun n s' => Followed o [n] s' :=
    fun form => (skip_passes.after f).bind fun _ s1 _ f1 => node_followed f1 (by simp)
  unfold wordExpression
  extract_lets literal
  split
  · exact hliteral _
  · exact hliteral _
  · exact hliteral _
  · exact hliteral _
  · exact hliteral _
  · exact (function_followed hp f false).mono fun _ _ _ h => h.2
  · exact classDeclaration_followed hp f true
  · refine (secondText_passes.after f).bind fun text s1 _ f1 => .ite (fun _ => ?_) fun _ => ?_
    · exact (function_followed hp f1 false).mono fun _ _ _ h => h.2
    · exact identifier_follows.after f1
  · exact identifier_follows.after f

/-- An operand takes its tokens, unless it is markup or a template. -/
theorem primary_follows : Follows (primary parse) ([·]) := by
  intro s hs
  have f := Followed.start hs
  refine .look _ rfl (.look _ rfl ?_)
  -- by the kind of the token
  split
  · exact (skip_passes s hs).bind fun _ s1 _ f1 => node_followed f1 (by simp)
  · exact stringLiteral_follows s hs
  · exact wordExpression_followed hp f _
  · split
    · refine (skip_passes s hs).bind fun _ s1 _ f1 => ?_
      refine (hp.expression.after f1).bind fun inner s2 _ f2 => ?_
      exact ((expect_passes _).after f2).bind fun _ s3 _ f3 => pure_leads f3.ready f3
    · exact array_follows hp s hs
    · exact object_follows hp s hs
    · exact template_follows hp s hs
    · exact element_follows hp _ s hs
    · refine (decorators_follows hp s hs).bind fun decorators s1 _ f1 => ?_
      exact classDeclaration_followed hp f1 true
    · exact fail_leads _ _
    · exact fail_leads _ _
    · exact want_leads _
  · exact want_leads _

/-- Accesses and calls take their operand and what is added to it. -/
theorem callMember_follows (allowCall : Bool) : Follows (callMember parse allowCall) ([·]) := by
  intro s hs
  refine .look _ rfl (.look _ rfl (either_leads (newExpression_follows hp s hs)
    (primary_follows hp s hs) fun value s1 _ f1 => ?_))
  exact extend_leads (Q := fun n s' => Followed s [n] s') (fun _ _ f => f.ready)
    (fun _ _ f => f.noted) (fun _ _ f => suffix_followed hp allowCall f) f1

/-! ### Statements -/

/-- A declaration of variables; it is no export. -/
theorem variableDeclaration_followed (f : Followed o [] s) :
    course.Leads (variableDeclaration parse) s fun n s' =>
      (∃ kind declarations, n.form = .variableDeclaration kind declarations) ∧
        Followed o [n] s' := by
  refine .look _ rfl ((take_passes.after f).bind fun kind s1 _ f1 => ?_)
  extract_lets declarator
  -- a target, and a value behind an equals sign
  have hdeclarator : Follows declarator ([·]) := by
    intro s hs
    refine .look _ rfl ((hp.bindingTarget s hs).bind fun target s1 _ f1 => ?_)
    refine ((eat_passes _).after f1).bind fun found s2 _ f2 => ?_
    refine either_leads
      (P := fun (r : Option Node) s' => Followed s ([target] ++ r.toList) s')
      (.map (hp.assignment.after f2)) (pure_leads f2.ready f2) fun init s3 _ f3 => ?_
    exact node_followed f3 (by simp)
  -- declarators up to the first one that no comma follows
  have hdeclarations : Follows (collect (pure true) (do
      let d ← declarator
      return (d, ← eat ","))) id := by
    refine collect_each (passes_of_look fun s => ⟨_, rfl⟩) fun s hs => ?_
    refine (hdeclarator s hs).bind fun d s1 _ f1 => ?_
    exact ((eat_passes _).after f1).bind fun _ _ _ f2 => pure_leads f2.ready f2
  refine (hdeclarations.after f1).bind fun declarations s2 _ f2 => ?_
  exact (node_made f2 (by simp)).mono fun _ _ _ ⟨hform, _, f3⟩ => ⟨⟨_, _, hform⟩, f3⟩

/-- A conditional statement takes its words, its test and its branches. -/
theorem ifStatement_followed (f : Followed o [] s) :
    course.Leads (ifStatement parse start) s fun n s' => Followed o [n] s' := by
  refine (skip_passes.after f).bind fun _ s1 _ f1 => ?_
  refine ((expect_passes _).after f1).bind fun _ s2 _ f2 => ?_
  refine (hp.expression.after f2).bind fun test s3 _ f3 => ?_
  refine ((expect_passes _).after f3).bind fun _ s4 _ f4 => ?_
  refine (hp.statement.after f4).bind fun consequent s5 _ f5 => ?_
  refine ((eat_passes _).after f5).bind fun found s6 _ f6 => ?_
  refine either_leads
    (P := fun (r : Option Node) s' => Followed o ([test, consequent] ++ r.toList) s')
    (.map (hp.statement.after f6)) (pure_leads f6.ready f6) fun alternate s7 _ f7 => ?_
  exact node_followed f7 (by simp)

/-- A return takes its word and its argument. -/
theorem returnStatement_followed (f : Followed o [] s) :
    course.Leads (returnStatement parse start) s fun n s' => Followed o [n] s' := by
  refine (skip_passes.after f).bind fun _ s1 _ f1 => .look _ rfl ?_
  refine either_leads (P := fun (r : Option Node) s' => Followed o r.toList s')
    (pure_leads f1.ready f1) (.map (hp.expression.after f1)) fun argument s2 _ f2 => ?_
  exact (semicolon_passes.after f2).bind fun _ s3 _ f3 => node_followed f3 (by simp)

omit hp in
/-- A name and maybe another one become a name of an import or export. -/
theorem specifier_followed {name : Node} {rename : Parse Node} {form : Node → Node → Form Node}
    (hl : ∀ a b, (form a b).children.map (·.2) = [a, b]) (hrename : Follows rename ([·]))
    (f : Followed o [name] s) (word : String) :
    course.Leads (eat word >>= fun found =>
      if found then rename >>= fun other => node start (form name other)
      else pure name >>= fun other => node start (form name other)) s fun n s' =>
        Followed o [n] s' := by
  refine ((eat_passes _).after f).bind fun found s1 _ f1 => .ite (fun _ => ?_) fun _ => ?_
  · exact (hrename.after f1).bind fun other s2 _ f2 =>
      node_followed f2 (by rw [hl]; exact fun _ h => h)
  · exact node_followed f1 (by rw [hl]; simp)

omit hp in
/-- An imported name takes a name, or two of them around a word. -/
theorem importSpecifier_follows : Follows importSpecifier ([·]) := by
  intro s hs
  refine .look _ rfl ((moduleName_follows s hs).bind fun imported s1 _ f1 => ?_)
  exact specifier_followed (fun _ _ => rfl) identifier_follows f1 "as"

omit hp in
/-- So does an exported one. -/
theorem exportSpecifier_follows : Follows exportSpecifier ([·]) := by
  intro s hs
  refine .look _ rfl ((moduleName_follows s hs).bind fun binding s1 _ f1 => ?_)
  exact specifier_followed (fun _ _ => rfl) moduleName_follows f1 "as"

omit hp in
/-- Imported names take their braces and what each of them takes. -/
theorem importSpecifiers_follows : Follows importSpecifiers id := by
  intro s hs
  have f := Followed.start hs
  refine .look _ rfl ?_
  extract_lets named
  -- behind the default name, if there is one
  have hnamed : ∀ defaults s1, Followed s defaults s1 →
      course.Leads (named defaults) s1 fun l s' => Followed s l s' := by
    intro defaults s1 f1
    refine .look _ rfl (.look _ rfl ?_)
    extract_lets finish
    have hfinish : ∀ named s2, Followed s (defaults ++ named) s2 →
        course.Leads (finish named) s2 fun l s' => Followed s l s' :=
      fun named s2 f2 => ((expect_passes _).after f2).bind fun _ s3 _ f3 =>
        pure_leads f3.ready f3
    -- all names under one, names in braces, or none
    refine .ite (fun _ => .look _ rfl ?_) fun _ => .ite (fun _ => ?_) fun _ => ?_
    · refine (skip_passes s1 f1.ready).bind fun _ s2 _ f2 => ?_
      refine ((expect_passes _).after f2).bind fun _ s3 _ f3 => ?_
      refine (identifier_follows.after f3).bind fun binding s4 _ f4 => ?_
      exact (node_followed f4 (by simp)).bind fun specifier s5 _ f5 => hfinish _ s5 (f1.append f5)
    · refine (skip_passes.after f1).bind fun _ s2 _ f2 => ?_
      refine ((separated_each _ importSpecifier_follows).after f2).bind
        fun specifiers s3 _ f3 => ?_
      exact ((expect_passes _).after f3).bind fun _ s4 _ f4 => hfinish specifiers s4 f4
    · exact hfinish [] s1 (by simpa using f1)
  refine .ite (fun _ => ?_) fun _ => hnamed [] s f
  refine (identifier_follows s hs).bind fun binding s1 _ f1 => ?_
  refine (nodeAt_made f1 binding.span (by simp)).bind fun specifier s2 _ ⟨_, _, f2⟩ => ?_
  exact ((eat_passes _).after f2).discard.bind fun _ s3 _ f3 => hnamed [specifier] s3 f3

omit hp in
/-- An import takes its words, its names and its source. -/
theorem importDeclaration_followed (f : Followed o [] s) :
    course.Leads (importDeclaration start) s fun n s' => Followed o [n] s' := by
  refine (skip_passes.after f).bind fun _ s1 _ f1 => .look _ rfl ?_
  refine either_leads (P := fun l s' => Followed o l s') (pure_leads f1.ready f1)
    (importSpecifiers_follows.after f1) fun specifiers s2 _ f2 => ?_
  refine (stringLiteral_follows.after f2).bind fun source s3 _ f3 => ?_
  exact (semicolon_passes.after f3).bind fun _ s4 _ f4 => node_followed f4 (by simp)

omit hp in
/-- To see whether a function stands ahead leaves no trace. -/
theorem isAtFunction_passes : Passes isAtFunction := by
  intro s hs
  refine .look _ rfl (.ite (fun _ => pure_leads hs (.start hs)) fun _ => .look _ rfl ?_)
  refine .ite (fun _ => ?_) fun _ => pure_leads hs (.start hs)
  exact (secondText_passes s hs).bind fun _ _ _ f => pure_leads f.ready f

/-- A statement of an expression takes it and a semicolon. -/
theorem expressionStatement_followed (f : Followed o [] s) :
    course.Leads (expressionStatement parse start) s fun n s' => Followed o [n] s' := by
  refine (hp.expression.after f).bind fun expression s1 _ f1 => ?_
  exact (semicolon_passes.after f1).bind fun _ s2 _ f2 => node_followed f2 (by simp)

/-- So does one of a declaration. -/
theorem variableStatement_followed (f : Followed o [] s) :
    course.Leads (variableStatement parse start) s fun n s' => Followed o [n] s' := by
  refine (variableDeclaration_followed hp f).bind fun declaration s1 _ ⟨hform, f1⟩ => ?_
  obtain ⟨kind, declarations, hform⟩ := hform
  refine (semicolon_passes.after f1).bind fun _ s2 _ f2 => .get_bind (pure_leads f2.ready ?_)
  refine ⟨f2.kept, fun ho hscript => f2.reads ho fun m hm => ?_⟩
  rw [List.mem_singleton.1 hm]
  -- the span makes a difference to exports only
  have hspan := hscript _ List.mem_cons_self
  refine Node.all_iff.2 ⟨?_, fun c hc => hspan.child hc⟩
  simp [Node.isMarkup, Node.isTemplateLiteral, Node.keepsDecorators, hform, Form.exportOf?]

/-! ### Exports -/

omit hp in
/-- A decorator stands in front of the export that starts at `o`, and the parser is past its at
sign. -/
def Decorated (o s : State) : Prop :=
  o.Fresh → ∃ position : Position,
    o.scanner.source.leadingDecorator? o.token.span.start = some position ∧
      position.offset < s.front

omit hp in
/-- The decorators that were read stay where they are while the parser moves on. -/
theorem Decorated.kept {s' : State} (h : Decorated o s) (hs : s.Kept s') : Decorated o s' := by
  intro ho
  obtain ⟨position, hleading, hlt⟩ := h ho
  exact ⟨position, hleading, Nat.lt_of_lt_of_le hlt hs.front⟩

omit hp in
/-- An at sign takes one character. -/
theorem State.Fresh.stop_at (hs : s.Fresh) (htext : s.token.text = "@") :
    s.token.span.stop.offset = s.front + 1 := by
  obtain ⟨before, _, hnext⟩ := hs
  rw [Scan.nextScript_extent hnext, htext]
  rfl

/-- More decorators behind those that were read before.  Where there are any, the first one is seen in
the source as well. -/
theorem moreDecorators_followed {α : Type} {before : List Node} {g : List Node → Parse α}
    {Q : α → State → Prop} (f : Followed o before s)
    (hbefore : Decorated o s ∨ before = [] ∧ (o.Fresh → s.token.text = "@" →
      o.scanner.source.leadingDecorator? o.token.span.start = some s.token.span.start))
    (hg : ∀ decorators s', Followed o decorators s' → Decorated o s' ∨ decorators = [] →
      course.Leads (g decorators) s' Q) :
    course.Leads (isAt ["@"] >>= fun found =>
      if found then (before ++ ·) <$> decorators parse >>= g else pure before >>= g) s Q := by
  -- decorators behind the words count only where the first of them is the leading one
  refine .look _ rfl (.ite (fun hat => ?_) fun _ => hg before s f (hbefore.imp_right (·.1)))
  refine (Course.Leads.map (Q := fun l s' => Followed o l s' ∧ Decorated o s') ?_).bind
    fun decorators s1 _ h1 => hg decorators s1 h1.1 (.inl h1.2)
  refine (decorators_taken hp f.ready hat).mono fun more s1 h1 ⟨f1, hstop⟩ => ⟨f.append f1, ?_⟩
  -- decorators stand before the export already
  rcases hbefore with hbefore | ⟨rfl, hfirst⟩
  · exact hbefore.kept h1
  · -- the first decorator stands here, and what is taken lies behind it
    intro ho
    have hs := (f.reads ho (by simp)).fresh ho
    have htext := text_of_isOne hat
    have hstop := Nat.le_trans hstop h1.ready.front
    rw [hs.stop_at htext] at hstop
    exact ⟨_, hfirst ho htext, hstop⟩

omit hp in
/-- An export that declares nothing with decorators from before an offset. -/
def ExportsSince (p : Nat) (n : Node) : Prop :=
  ∃ declaration, n.form.exportOf? = some declaration ∧
    ∀ m ∈ declaration, ∀ d ∈ m.form.decorators, p ≤ d.start

omit hp in
/-- The rest of an export that is not a class.  If decorators were read before, they are dropped, and
the export is no script. -/
theorem undecorated_followed {decorators : List Node} {y : Parse Node}
    (f : Followed o decorators s) (hdecorators : Decorated o s ∨ decorators = [])
    (hy : ∀ o', Followed o' [] s → course.Leads y s fun n s' =>
      Followed o' [n] s' ∧ n.span.start = o.token.span.start ∧ ExportsSince s.front n) :
    course.Leads y s fun n s' => Followed o [n] s' := by
  -- decorators that were met belong to a declaration, which is read as its text alone
  rcases hdecorators with hdecorated | rfl
  · refine (hy s (.start f.ready)).mono fun n s' h ⟨_, hstart, declaration, hform, hsince⟩ => ?_
    refine ⟨f.kept.trans h, fun ho hscript => ?_⟩
    have hkeeps := (hscript n List.mem_cons_self).here.2.2
    -- a script of this text would start its declaration behind the first decorator
    obtain ⟨position, hleading, hlt⟩ := hdecorated ho
    rw [Node.keepsDecorators, hform, hstart, hleading] at hkeeps
    obtain ⟨m, rfl, hm⟩ : ∃ m, declaration = some m ∧
        m.form.decorators.head?.any (·.span.start == position) = true := by
      cases declaration with
      | none => cases hkeeps
      | some m => exact ⟨m, rfl, hkeeps⟩
    obtain ⟨d, hd, hposition⟩ : ∃ d ∈ m.form.decorators, d.span.start = position := by
      cases hhead : m.form.decorators.head? with
      | none => rw [hhead] at hm; cases hm
      | some d => exact ⟨d, List.mem_of_head? hhead, by simpa [hhead] using hm⟩
    have hle := hsince m rfl d hd
    rw [Node.start, hposition] at hle
    -- the decorator of the declaration starts in front of the state that has passed it
    omega
  · exact (hy o f).mono fun _ _ _ h => h.1

omit hp in
/-- An export of names takes its words, its names and its source, and has no decorators. -/
theorem exportNames_followed (f : Followed o [] s) :
    course.Leads (exportNames start) s fun n s' =>
      Followed o [n] s' ∧ n.span.start = start ∧ ExportsSince s.front n := by
  refine ((expect_passes _).after f).bind fun _ s1 _ f1 => ?_
  refine ((separated_each _ exportSpecifier_follows).after f1).bind fun specifiers s2 _ f2 => ?_
  refine ((expect_passes _).after f2).bind fun _ s3 _ f3 => ?_
  refine ((eat_passes _).after f3).bind fun found s4 _ f4 => ?_
  -- the origin may be missing
  refine either_leads
    (P := fun (r : Option Node) s' => Followed o (specifiers ++ r.toList) s')
    (.map (stringLiteral_follows.after f4)) (pure_leads f4.ready (by simpa using f4))
    fun source s5 _ f5 => ?_
  refine (semicolon_passes.after f5).bind fun _ s6 _ f6 => ?_
  exact (node_made f6 (by simp)).mono fun _ _ _ ⟨hform, hspan, f7⟩ =>
    ⟨f7, hspan, none, by rw [hform]; rfl, nofun⟩

omit hp in
/-- An export of one declaration. -/
theorem exportNode_followed {declaration : Node} {p : Nat} {form : Form Node}
    (f : Followed o [declaration] s) (hform : form.exportOf? = some (some declaration))
    (hl : declaration ∈ form.children.map (·.2))
    (hsince : ∀ d ∈ declaration.form.decorators, p ≤ d.start) :
    course.Leads (node start form) s fun n s' =>
      Followed o [n] s' ∧ n.span.start = start ∧ ExportsSince p n := by
  refine (node_made f (by simpa using hl)).mono fun n s' _ ⟨hn, hspan, f1⟩ =>
    ⟨f1, hspan, some declaration, by rw [hn, hform], ?_⟩
  rintro _ ⟨⟩
  exact hsince

/-- An export by default; its first word and `default` were taken. -/
theorem exportDefault_followed {before : List Node} (f : Followed o before s)
    (hbefore : Decorated o s ∨ before = [] ∧ (o.Fresh → s.token.text = "@" →
      o.scanner.source.leadingDecorator? o.token.span.start = some s.token.span.start)) :
    course.Leads (exportDefault parse o.token.span.start before) s fun n s' =>
      Followed o [n] s' := by
  refine .look _ rfl (moreDecorators_followed hp f hbefore fun decorators s1 f1 h1 => ?_)
  refine .look _ rfl ?_
  extract_lets finish
  refine (isAtFunction_passes.after f1).bind fun isFunction s2 h12 f2 => ?_
  have h2 : Decorated o s2 ∨ decorators = [] := h1.imp_left (·.kept h12)
  refine .ite (fun _ => ?_) fun _ => .ite (fun _ => ?_) fun _ => ?_
  · exact (classDeclaration_followed hp f2 true).bind fun declaration s3 _ f3 =>
      node_followed f3 (by simp)
  · refine undecorated_followed f2 h2 fun o' f => ?_
    refine (function_followed hp f false).bind fun declaration s3 _ ⟨hnone, f3⟩ => ?_
    exact exportNode_followed f3 rfl (by simp) (by simp [hnone])
  · refine undecorated_followed f2 h2 fun o' f => ?_
    refine ((hp.assignment.after f).with_run).bind fun value s3 _ ⟨hrun, f3⟩ => ?_
    -- decorators of the value itself stand behind those that were read before
    have hsince := ((hp.builds.assignment s2 f.ready).ok hrun).2.row.decorated value
      List.mem_cons_self
    refine (semicolon_passes.after f3).bind fun _ s4 _ f4 => ?_
    exact exportNode_followed f4 rfl (by simp) hsince

/-- An export that starts at `o`; the decorators before its first word were read. -/
theorem exportDeclaration_followed {before : List Node} (f : Followed o before s)
    (hbefore : Decorated o s ∨ before = [] ∧ s = o) :
    course.Leads (exportDeclaration parse o.token.span.start before) s fun n s' =>
      Followed o [n] s' := by
  have hword : "export" ≠ "@" := by decide
  -- the word, and perhaps `default`, stand in front of the decorators
  refine (expect_next f.ready _).bind fun _ s1 h1 ⟨htext, hnext⟩ => ?_
  have f1 := f.take h1 hnext
  refine (eat_next f1.ready _).bind fun found s2 h2 hfound => ?_
  -- a default export
  cases found with
  | true =>
    obtain ⟨hdefault, hnext1⟩ := hfound
    refine exportDefault_followed hp (f1.take h2 hnext1) ?_
    rcases hbefore with hbefore | ⟨rfl, rfl⟩
    · exact .inl (hbefore.kept (h1.trans h2))
    · exact .inr ⟨rfl, fun ho =>
        leadingDecorator_of_third ho (htext ▸ hword) hnext hdefault hnext1⟩
  -- an export by name
  | false =>
    obtain rfl : s2 = s1 := hfound
    -- decorators stand before the export, or may stand here
    have hmore : Decorated o s2 ∨ before = [] ∧ (o.Fresh → s2.token.text = "@" →
        o.scanner.source.leadingDecorator? o.token.span.start = some s2.token.span.start) := by
      rcases hbefore with hbefore | ⟨rfl, rfl⟩
      · exact .inl (hbefore.kept h1)
      · exact .inr ⟨rfl, fun ho => leadingDecorator_of_second ho (htext ▸ hword) hnext⟩
    refine moreDecorators_followed hp f1 hmore fun decorators s3 f3 h3 => ?_
    refine .look _ rfl (.look _ rfl (.ite (fun _ => ?_) fun _ => ?_))
    · exact (classDeclaration_followed hp f3 false).bind fun _ _ _ f4 => node_followed f4 (by simp)
    -- no decorators belong to what is left
    refine undecorated_followed f3 h3 fun o' f => .look _ rfl (.ite (fun _ => ?_) fun _ => ?_)
    · refine (variableDeclaration_followed hp f).bind fun declaration s4 _ ⟨hform, f4⟩ => ?_
      obtain ⟨kind, declarations, hform⟩ := hform
      refine (semicolon_passes.after f4).bind fun _ s5 _ f5 => ?_
      exact exportNode_followed f5 rfl (by simp)
        (by simp [hform, Form.decorators])
    · refine .look _ rfl (.ite (fun _ => ?_) fun _ => exportNames_followed f)
      refine (function_followed hp f true).bind fun declaration s4 _ ⟨hnone, f4⟩ => ?_
      exact exportNode_followed f4 rfl (by simp) (by simp [hnone])

/-- A class or an export behind decorators. -/
theorem decorated_follows (hs : s.Ready) (hat : isOne s.token ["@"] = true) :
    course.Leads (decorated parse s.token.span.start) s fun n s' => Followed s [n] s' := by
  refine (decorators_taken hp hs hat).bind fun decorators s1 h1 ⟨f1, hstop⟩ => ?_
  have hdecorated : Decorated s s1 := by
    intro hfresh
    have htext := text_of_isOne hat
    have hstop := Nat.le_trans hstop h1.ready.front
    rw [hfresh.stop_at htext] at hstop
    exact ⟨_, leadingDecorator_of_first hfresh htext, hstop⟩
  refine .look _ rfl (.ite (fun _ => exportDeclaration_followed hp f1 (.inl hdecorated)) fun _ => ?_)
  exact .look _ rfl (.ite (fun _ => classDeclaration_followed hp f1 false) fun _ => want_leads _)

/-- A statement that starts with a word takes that word and what belongs to it. -/
theorem wordStatement_follows (hs : s.Ready) (token : Token) :
    course.Leads (wordStatement parse s.token.span.start token) s fun n s' => Followed s [n] s' := by
  have f := Followed.start hs
  unfold wordStatement
  -- the words that start a statement, some of them before certain words only
  split
  · exact variableStatement_followed hp f
  · exact variableStatement_followed hp f
  · exact (secondText_passes s hs).bind fun _ _ _ f1 => .ite
      (fun _ => variableStatement_followed hp f1) fun _ => expressionStatement_followed hp f1
  · exact (function_followed hp f true).mono fun _ _ _ h => h.2
  · exact (secondText_passes s hs).bind fun _ _ _ f1 => .ite
      (fun _ => (function_followed hp f1 true).mono fun _ _ _ h => h.2) fun _ =>
      expressionStatement_followed hp f1
  · exact classDeclaration_followed hp f false
  · exact returnStatement_followed hp f
  · exact ifStatement_followed hp f
  · exact (secondText_passes s hs).bind fun _ _ _ f1 => .ite
      (fun _ => expressionStatement_followed hp f1) fun _ => importDeclaration_followed f1
  · exact exportDeclaration_followed hp f (.inr ⟨rfl, rfl⟩)
  · exact .ite (fun _ => fail_leads _ _) fun _ => expressionStatement_followed hp f

/-- A statement takes its tokens one after the other. -/
theorem statement_follows : Follows (statement parse) ([·]) := by
  refine nested_follows fun s hs => .look _ rfl (.look _ rfl (.ite (fun _ => ?_) fun _ => ?_))
  · exact block_follows hp s hs
  · refine .ite (fun _ => ?_) fun _ => .ite (fun hat => decorated_follows hp hs hat) fun _ => ?_
    · exact (skip_passes s hs).bind fun _ s1 _ f1 => node_followed f1 (by simp)
    · refine .ite (fun _ => wordStatement_follows hp hs _) fun _ => ?_
      exact expressionStatement_followed hp (.start hs)

/-- To note who calls a rule takes no token. -/
theorem called_follows (caller : Rule) (before : Nat) : FollowRules (called parse caller before) := by
  -- the note of a call does not change what the call follows
  have hcalled : ∀ r, Follows (parse r) ([·]) → Follows (called parse caller before r) ([·]) :=
    fun r h s hs => note_leads fun noted => h.after ((Followed.start hs).noted noted)
  exact {
    builds := called_builds hp.builds caller before
    statement := hcalled _ hp.statement
    expression := hcalled _ hp.expression
    assignment := hcalled _ hp.assignment
    binary := fun least => hcalled _ (hp.binary least)
    unary := hcalled _ hp.unary
    callMember := fun allowCall => hcalled _ (hp.callMember allowCall)
    bindingTarget := hcalled _ hp.bindingTarget
    element := fun start after _ => hp.element start after _ }

omit hp in
/-- So all rules take their tokens one after the other, however deep they call one another. -/
theorem parseRule_follows (fuel : Nat) : FollowRules (parseRule fuel) := by
  induction fuel with
  | zero =>
    exact ⟨parseRule_builds 0, fun _ _ => exhausted_leads, fun _ _ => exhausted_leads,
      fun _ _ => exhausted_leads, fun _ _ _ => exhausted_leads, fun _ _ => exhausted_leads,
      fun _ _ _ => exhausted_leads, fun _ _ => exhausted_leads,
      fun _ _ _ => .of_error rfl trivial⟩
  | succ fuel ih =>
    -- how deep the rules are nested does not tell what they read
    have hrule : ∀ r, (∀ before, Follows (rule (called (parseRule fuel) r before) r) ([·])) →
        Follows (parseRule (fuel + 1) r) ([·]) := fun r h s hs =>
      .look _ rfl (noteDepth_leads fun _ hbefore => (h _).after ((Followed.start hs).deepest hbefore))
    exact {
      builds := parseRule_builds (fuel + 1)
      statement := hrule _ fun _ => statement_follows (called_follows ih _ _)
      expression := hrule _ fun _ => expression_follows (called_follows ih _ _)
      assignment := hrule _ fun _ => assignment_follows (called_follows ih _ _)
      binary := fun least => hrule _ fun _ => binary_follows (called_follows ih _ _) least
      unary := hrule _ fun _ => unary_follows (called_follows ih _ _)
      callMember := fun allowCall => hrule _ fun _ =>
        callMember_follows (called_follows ih _ _) allowCall
      bindingTarget := hrule _ fun _ => bindingTarget_follows (called_follows ih _ _)
      element := fun start after s => .look _ rfl (elementBody_markup start after _) }

end Reflow.Grammar
