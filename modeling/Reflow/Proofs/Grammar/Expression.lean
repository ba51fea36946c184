import Reflow.Grammar.Expression
import Reflow.Proofs.Grammar.Markup

/-!
# Expressions build rows

From sequences down to names and literals.  What was built for an arrow function that turned out not
to be one is forgotten; its numbers are not used again.
-/

namespace Reflow.Grammar

-- the children of a node are read off its form
attribute [local simp] Form.children Form.fields

variable {parse : Rule → Parse Node} (hp : BuildRules parse) {i p : Nat} {l : List Node} {n : Node}
  {s : State} {start : Position}

include hp

/-- An expression is one node, around the expressions between its commas. -/
theorem expression_builds : Builds (expression parse) ([·]) := by
  intro s hs
  refine .look _ rfl ((hp.assignment s hs).bind fun first s1 _ b1 => ?_)
  refine .look _ rfl (.ite (fun _ => ?_) fun _ => pure_leads b1.ready b1)
  have hrest : Builds (collect (eat ",") (return (← parse .assignment, true))) id := by
    refine collect_nodes (eat_moves _) fun s hs => ?_
    exact (hp.assignment s hs).bind fun _ _ _ b => pure_leads b.ready b
  refine (hrest.after b1).bind fun rest s2 _ b2 => ?_
  exact node_built b2 rfl (b2.le_back (by simp)) (by simp)

/-- The head of an arrow function is its parameters. -/
theorem arrowHead_builds : Builds (arrowHead parse) fun r => r.1 := by
  intro s hs
  refine .look _ rfl ?_
  extract_lets rest
  -- `async` is in no node, so the row is empty before the parameters either way
  have hrest : ∀ isAsync s1, Built s.nextId s.front [] s1 →
      course.Leads (rest isAsync) s1 fun r s' => Built s.nextId s.front r.1 s' := by
    intro isAsync s1 b1
    refine when_leads skip_moves b1 fun s2 b2 => .look _ rfl (.look _ rfl ?_)
    extract_lets finish
    -- the arrow is only looked at
    have hfinish : ∀ params s3, Built s.nextId s.front params s3 →
        course.Leads (finish params) s3 fun r s' => Built s.nextId s.front r.1 s' :=
      fun params s3 b3 => .look _ rfl (unless_leads (want_leads _) (pure_leads b3.ready b3))
    refine .ite (fun _ => ?_) fun _ => .ite (fun _ => ?_) fun _ => ?_
    · exact ((params_builds hp).after b2).bind fun params s3 _ b3 => hfinish params s3 b3
    · -- a single parameter makes a row of one node
      exact (Course.Leads.map (Q := fun l s' => Built s.nextId s.front l s')
        (identifier_builds.after b2)).bind fun params s3 _ b3 => hfinish params s3 b3
    · exact (want_leads _).bind fun params s3 _ b3 => hfinish params s3 b3
  have b := Built.start hs
  refine .ite (fun _ => ?_) fun _ => hrest false s b
  refine (second_moves.after b).bind fun token s1 _ b1 => ?_
  refine .ite (fun _ => hrest false s1 b1) fun _ => ?_
  exact (secondText_moves.after b1).bind fun text s2 _ b2 => hrest _ s2 b2

/-- An attempt at an arrow function builds one, or nothing. -/
theorem arrow?_builds : Builds (arrow? parse) Option.toList := by
  intro s hs
  have b := Built.start hs
  refine .look _ rfl (.ite (fun _ => pure_leads hs b) fun _ => .look _ rfl (.look _ rfl ?_))
  refine attempt_leads hs (arrowHead_builds hp s hs) ?_ (fun _ => rfl) fun s1 h1 _ _ =>
    pure_leads h1.ready (b.kept h1)
  intro r s1 h1 b1
  refine (skip_leads h1.ready).bind fun _ s2 h2 _ => .look _ rfl ?_
  refine either_leads ((block_builds hp).after (b1.kept h2)) (hp.assignment.after (b1.kept h2)) ?_
  intro body s3 _ b3
  exact .map (node_built b3 rfl (b3.le_back (by simp)) (by simp))

/-- A conditional is one node, around its three parts. -/
theorem conditional_builds : Builds (conditional parse) ([·]) := by
  intro s hs
  refine .look _ rfl (((hp.binary 0) s hs).bind fun test s1 _ b1 => ?_)
  refine ((eat_moves _).after b1).bind fun found s2 _ b2 => ?_
  refine .ite (fun _ => ?_) fun _ => pure_leads b2.ready b2
  refine (hp.assignment.after b2).bind fun consequent s3 _ b3 => ?_
  refine (expect_leads b3.ready _).bind fun _ s4 h4 _ => ?_
  refine (hp.assignment.after (b3.kept h4)).bind fun alternate s5 _ b5 => ?_
  exact node_built b5 rfl (b5.le_back (by simp)) (by simp)

/-- An assignment is one node, around its target and its value. -/
theorem assignment_builds : Builds (assignment parse) ([·]) := by
  refine nested_builds fun s hs => ?_
  refine (arrow?_builds hp s hs).bind fun found s1 _ b1 => ?_
  cases found with
  | some arrow => exact pure_leads b1.ready b1
  | none =>
    refine .look _ rfl ?_
    refine b1.leads ([·]) ((conditional_builds hp s1 b1.ready).bind fun left s2 _ b2 => ?_)
    refine .look _ rfl (.ite (fun _ => ?_) fun _ => pure_leads b2.ready b2)
    refine unless_leads (fail_leads _ _) ((skip_leads b2.ready).bind fun _ s3 h3 _ => ?_)
    refine (hp.assignment.after (b2.kept h3)).bind fun right s4 _ b4 => ?_
    exact node_built b4 rfl (b4.le_back (by simp)) (by simp)

/-- Operators and their operands are one node, from a strength on. -/
theorem binary_builds (least : Nat) : Builds (binary parse least) ([·]) := by
  intro s hs
  refine .look _ rfl ((hp.unary s hs).bind fun first s1 _ b1 => ?_)
  -- the operand that was read last is always the only node of the row
  refine extend_leads (Q := fun n s' => Built s.nextId s.front [n] s') (fun _ _ b => b.ready)
    (fun _ _ b => b.noted) ?_ b1
  intro left s2 b2
  refine .look _ rfl ?_
  split
  · exact pure_leads b2.ready b2
  · refine .ite (fun _ => pure_leads b2.ready b2) fun _ => ?_
    refine (skip_leads b2.ready).bind fun _ s3 h3 _ => ?_
    -- the right operand stands behind the left one, and the operation takes both
    refine ((hp.binary _).after (b2.kept h3)).bind fun right s4 _ b4 => ?_
    refine Course.Leads.bind (P := fun n s' => Built s.nextId s.front [n] s') ?_ fun n s5 _ b5 =>
      pure_leads b5.ready b5
    split <;> exact node_built b4 rfl (b4.le_back (by simp)) (by simp)

/-- A prefix operator with its operand is one node. -/
theorem unary_builds : Builds (unary parse) ([·]) := by
  intro s hs
  have b := Built.start hs
  -- the operators nest, negate or update; only the node on top differs
  refine .look _ rfl (.look _ rfl (.ite (fun _ => ?_) fun _ => .ite (fun _ => ?_) fun _ => ?_))
  · refine (skip_leads hs).bind fun _ s1 h1 _ => ?_
    refine ((nested_builds hp.unary).after (b.kept h1)).bind fun argument s2 _ b2 => ?_
    exact node_built b2 rfl (b2.le_back (by simp)) (by simp)
  · refine (skip_leads hs).bind fun _ s1 h1 _ => ?_
    refine (hp.unary.after (b.kept h1)).bind fun argument s2 _ b2 => ?_
    exact node_built b2 rfl (b2.le_back (by simp)) (by simp)
  · refine .ite (fun _ => ?_) fun _ => ?_
    · refine (skip_leads hs).bind fun _ s1 h1 _ => ?_
      refine (hp.unary.after (b.kept h1)).bind fun argument s2 _ b2 => ?_
      exact node_built b2 rfl (b2.le_back (by simp)) (by simp)
    · -- an operator behind the operand is in no node of its own
      refine (hp.callMember true s hs).bind fun operand s1 _ b1 => .look _ rfl ?_
      refine .ite (fun _ => ?_) fun _ => pure_leads b1.ready b1
      refine (skip_leads b1.ready).bind fun _ s2 h2 _ => ?_
      exact node_built (b1.kept h2) rfl ((b1.kept h2).le_back (by simp)) (by simp)

/-- A key in brackets is one node. -/
theorem computedKey_builds : Builds (computedKey parse) ([·]) := by
  intro s hs
  refine (skip_leads hs).bind fun _ s1 h1 _ => ?_
  refine (hp.expression.after ((Built.start hs).kept h1)).bind fun property s2 h2 b2 => ?_
  exact (expect_leads h2.ready _).bind fun _ s3 h3 _ => pure_leads h3.ready (b2.kept h3)

omit hp in
/-- An access is built around what it is an access of. -/
theorem member_leads {x : Parse Node} {value : Node} {computed optional : Bool}
    (hx : Builds x ([·])) (b : Built i start.offset [value] s) :
    course.Leads (do
      let property ← x
      some <$> node start (.memberExpression value property computed optional)) s fun o s' =>
        Built i start.offset [o.getD value] s' := by
  refine (hx.after b).bind fun property s2 _ b2 => .map ?_
  exact node_built b2 rfl (b2.le_back (by simp)) (by simp)

/-- A call is built around its callee. -/
theorem call_leads {value : Node} {optional : Bool} (b : Built i start.offset [value] s) :
    course.Leads (do
      let arguments ← arguments parse
      some <$> node start (.callExpression value arguments optional)) s fun o s' =>
        Built i start.offset [o.getD value] s' := by
  refine ((arguments_builds hp).after b).bind fun property s2 _ b2 => .map ?_
  exact node_built b2 rfl (b2.le_back (by simp)) (by simp)

/-- What follows a value takes it in. -/
theorem suffix_leads (allowCall : Bool) {value : Node} (b : Built i start.offset [value] s) :
    course.Leads (suffix parse allowCall start value) s fun o s' =>
      Built i start.offset [o.getD value] s' := by
  -- a point, an optional chain, or a suffix that starts with a bracket
  refine .look _ rfl (.ite (fun _ => ?_) fun _ => .look _ rfl (.ite (fun _ => ?_) fun _ => ?_))
  · refine (skip_leads b.ready).bind fun _ s1 h1 _ => ?_
    exact member_leads propertyName_builds (b.kept h1)
  · refine (skip_leads b.ready).bind fun _ s1 h1 _ => .look _ rfl ?_
    refine .ite (fun _ => call_leads hp (b.kept h1)) fun _ => .look _ rfl ?_
    refine .ite (fun _ => member_leads (computedKey_builds hp) (b.kept h1)) fun _ => ?_
    exact member_leads propertyName_builds (b.kept h1)
  · refine .look _ rfl (.ite (fun _ => member_leads (computedKey_builds hp) b) fun _ => ?_)
    refine .look _ rfl (.ite (fun _ => call_leads hp b) fun _ => ?_)
    refine .look _ rfl (.ite (fun _ => ?_) fun _ => pure_leads b.ready b)
    refine ((template_builds hp).after b).bind fun quasi s1 _ b1 => .map ?_
    exact node_built b1 rfl (b1.le_back (by simp)) (by simp)

/-- A construction is one node, around its callee and its arguments. -/
theorem newExpression_builds : Builds (newExpression parse) ([·]) := by
  intro s hs
  refine .look _ rfl ((expect_leads hs _).bind fun _ s1 h1 _ => ?_)
  refine ((hp.callMember false).after ((Built.start hs).kept h1)).bind fun callee s2 _ b2 => ?_
  refine .look _ rfl (either_leads (P := fun l s' => Built s.nextId s.front (callee :: l) s')
    ((arguments_builds hp).after b2) (pure_leads b2.ready b2) ?_)
  intro arguments s3 _ b3
  exact node_built b3 rfl (b3.le_back (by simp)) (by simp)

/-- What starts with a word is one node, from that word on. -/
theorem wordExpression_leads (b : Built i start.offset [] s) (hfront : start.offset = s.front)
    (word : String) :
    course.Leads (wordExpression parse start word) s fun n s' => Built i start.offset [n] s' := by
  -- a literal takes its word and nothing else
  have hliteral : ∀ form : Form Node, form.isPlain = true → form.children = [] →
      course.Leads (do skip; node start form) s fun n s' => Built i start.offset [n] s' := by
    intro form hform hl
    refine (skip_leads b.ready).bind fun _ s1 h1 hback => ?_
    exact node_built (b.kept h1) hform (hfront ▸ hback) (by rw [hl]; rfl)
  unfold wordExpression
  extract_lets literal
  split
  · exact hliteral _ rfl rfl
  · exact hliteral _ rfl rfl
  · exact hliteral _ rfl rfl
  · exact hliteral _ rfl rfl
  · exact hliteral _ rfl rfl
  · exact function_leads hp b false
  · exact class_leads hp b b.front true
  · -- `async` starts a function only in front of one
    refine (secondText_moves.after b).bind fun text s1 _ b1 => .ite (fun _ => ?_) fun _ => ?_
    · exact function_leads hp b1 false
    · exact identifier_builds.after b1
  · exact identifier_builds.after b

/-- An operand is one node. -/
theorem primary_builds : Builds (primary parse) ([·]) := by
  intro s hs
  have b := Built.start hs
  refine .look _ rfl (.look _ rfl ?_)
  -- by the kind of the token
  split
  · refine (skip_leads hs).bind fun _ s1 h1 hback => ?_
    exact node_built (b.kept h1) rfl hback (by simp)
  · exact stringLiteral_builds s hs
  · exact wordExpression_leads hp b rfl _
  · -- parentheses leave no node, so the row is that of the expression inside
    split
    · refine (skip_leads hs).bind fun _ s1 h1 _ => ?_
      refine (hp.expression.after (b.kept h1)).bind fun inner s2 h2 b2 => ?_
      exact (expect_leads h2.ready _).bind fun _ s3 h3 _ => pure_leads h3.ready (b2.kept h3)
    · exact array_builds hp s hs
    · exact object_builds hp s hs
    · exact template_builds hp s hs
    · exact element_builds hp _ s hs
    · refine (decorators_builds hp s hs).bind fun decorators s1 h1 b1 => ?_
      exact class_leads hp b1 h1.front true
    · exact fail_leads _ _
    · exact fail_leads _ _
    · exact want_leads _
  · exact want_leads _

/-- Accesses and calls are one node, around what they hang on. -/
theorem callMember_builds (allowCall : Bool) : Builds (callMember parse allowCall) ([·]) := by
  intro s hs
  refine .look _ rfl (.look _ rfl (either_leads (newExpression_builds hp s hs)
    (primary_builds hp s hs) fun value s1 _ b1 => ?_))
  exact extend_leads (Q := fun n s' => Built s.nextId s.front [n] s') (fun _ _ b => b.ready)
    (fun _ _ b => b.noted) (fun _ _ b => suffix_leads hp allowCall b) b1

end Reflow.Grammar
