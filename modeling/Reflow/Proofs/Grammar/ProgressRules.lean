import Reflow.Grammar.Statement
import Reflow.Proofs.Grammar.ProgressPieces

/-!
# Rules get ahead

A rule for expressions calls a lower one before it takes a token: sequences call assignments, these
binary expressions, these operands, and these accesses and calls.  Operators in front of an operand,
`await` and `new` are taken before a rule of the same level is called.  An arrow function is tried in
the same way, and if there is none, the parser comes back without having stalled.

A statement takes a word or a bracket first, or it is an expression, whose rule is lower.

## Key results

- `arrow?_proceeds`: the attempt at an arrow function
- `expression_advances`, `assignment_advances`, `binary_advances`, `unary_advances`,
  `callMember_advances`: the rules for expressions
- `wordStatement_advances`: statements that start with a word
- `statement_advances`: the rule for statements
-/

namespace Reflow.Grammar

variable {source : Source} {parse : Rule → Parse Node} {p level : Nat} {s : State}
  {start : Position}

/-! ### Expressions -/

/-- An expression starts with a lower rule, and goes on behind commas. -/
theorem expression_advances (hp : Calls source parse p Rule.expression.level)
    (b : s.From source p) : Advances source (expression parse) s := by
  refine .look _ rfl ((hp.lower .assignment trivial (by decide) b).first fun first s1 h1 hfront => ?_)
  refine .look _ rfl (.ite (fun _ => ?_) fun _ => .pure h1.script trivial)
  refine (collect_goesOn h1.script (fun s' h => eat_goesOn h.script _) fun s' h => ?_).bind
    fun rest s2 h2 => node_goesOn h2.script
  exact (hp.past .assignment trivial (h.past (b.past h1 hfront))).first fun _ _ h2 _ =>
    .pure h2.script trivial

section Pieces

variable (hp : Calls source parse p level)

include hp

/-- The head of an arrow function takes a name or a bracket. -/
theorem arrowHead_advances (b : s.From source p) : Advances source (arrowHead parse) s := by
  refine .look _ rfl ?_
  extract_lets rest
  -- with or without `async`, the parameters are taken
  have hrest : ∀ isAsync s1, s1.From source p → Advances source (rest isAsync) s1 := by
    intro isAsync s1 b1
    refine when_proceeds b1.toInScript (fun _ => skip_goesOn b1.toInScript) fun s2 h2 => .after h2 ?_
    refine .look _ rfl (.look _ rfl ?_)
    extract_lets finish
    -- behind the parameters the arrow is wanted, and not taken
    have hfinish : ∀ params s3, s3.InScript source → GoesOn source (finish params) s3 :=
      fun params s3 hs => .look _ rfl
        (unless_proceeds (want_proceeds hs _) fun _ => .pure hs trivial)
    -- parameters in parentheses, or a single name
    refine .ite (fun _ => ?_) fun _ => .ite (fun _ => ?_) fun _ => want_bind h2.script _
    · exact (params_advances hp (h2.from b1)).first fun params s3 h3 _ => hfinish params s3 h3.script
    · exact (identifier_advances h2.script).map.first fun params s3 h3 _ =>
        hfinish params s3 h3.script
  refine .ite (fun _ => ?_) fun _ => hrest false s b
  -- the word is a name by itself when an arrow follows it, or a line end
  refine Proceeds.bind (second_proceeds b.toInScript) fun token s1 h1 _ => .after h1 ?_
  refine .ite (fun _ => hrest false s1 (h1.from b)) fun _ => ?_
  refine Proceeds.bind (secondText_proceeds h1.script) fun text s2 h2 _ => .after h2 ?_
  exact hrest _ s2 (h2.from (h1.from b))

/-- Where an arrow function is tried, the parser gets ahead if there is one, and else it has not
stalled on the way that it comes back. -/
theorem arrow?_proceeds (b : s.From source p) :
    Proceeds source (arrow? parse) s fun o s' => o.isSome = true → s.front < s'.back := by
  refine .look _ rfl (.ite (fun _ => .pure b.toInScript nofun) fun _ => .look _ rfl (.look _ rfl ?_))
  -- if the head fails, the parser is back at the start and nothing is noted, so `none` is as good as
  -- if it had not been tried
  refine attempt_proceeds b.toInScript (arrowHead_advances hp b) ?_ (fun _ => rfl) fun s1 h1 =>
    .pure h1.script nofun
  intro r s1 h1 hfront
  have b1 := b.past h1 hfront
  refine Proceeds.mono (P := fun _ _ => True) ?_ fun _ _ h _ _ =>
    Nat.lt_of_lt_of_le hfront h.before.back
  refine (skip_goesOn h1.script).bind fun _ s2 h2 => .look _ rfl ?_
  have b2 := h2.past b1
  refine .either (P := fun _ _ => True) (fun _ => (block_advances hp b2.from).goesOn)
    (fun _ => (hp.past .assignment trivial b2).goesOn) fun body s3 h3 _ => ?_
  exact (node_goesOn h3.script).map

/-- A conditional starts with a lower rule, and goes on behind its signs. -/
theorem conditional_advances (hlevel : (Rule.binary 0).level < level) (b : s.From source p) :
    Advances source (conditional parse) s := by
  refine .look _ rfl ((hp.lower (.binary 0) trivial hlevel b).first fun test s1 h1 hfront => ?_)
  have b1 := b.past h1 hfront
  refine (eat_goesOn h1.script _).bind fun found s2 h2 => ?_
  refine .ite (fun _ => ?_) fun _ => .pure h2.script trivial
  have b2 := h2.past b1
  refine (hp.past .assignment trivial b2).goesOn.bind fun consequent s3 h3 => ?_
  refine (expect_advances h3.script _).goesOn.bind fun _ s4 h4 => ?_
  refine (hp.past .assignment trivial (h4.past (h3.past b2))).goesOn.bind fun alternate s5 h5 => ?_
  exact node_goesOn h5.script

/-- A key in brackets is read behind the bracket, and takes the one that closes. -/
theorem computedKey_advances (b : s.Past source p) : Advances source (computedKey parse) s := by
  refine (skip_goesOn b.toInScript).later fun _ s1 h1 => ?_
  refine (hp.past .expression trivial (h1.past b)).first fun property s2 h2 _ => ?_
  exact (expect_advances h2.script _).goesOn.bind fun _ s3 h3 => .pure h3.script trivial

omit hp in
/-- An access takes its name, behind what it is an access of. -/
theorem member_advances {x : Parse Node} {value : Node} {computed optional : Bool}
    (hx : Advances source x s) :
    Advances source (do
      let property ← x
      some <$> node start (.memberExpression value property computed optional)) s :=
  hx.first fun _ _ h1 _ => (node_goesOn h1.script).map

/-- A call takes its bracket. -/
theorem call_advances {value : Node} {optional : Bool} (b : s.From source p) :
    Advances source (do
      let arguments ← arguments parse
      some <$> node start (.callExpression value arguments optional)) s :=
  (arguments_advances hp b).first fun _ _ h1 _ => (node_goesOn h1.script).map

/-- What follows a value takes a token. -/
theorem suffix_proceeds (allowCall : Bool) {value : Node} (b : s.Past source p) :
    Proceeds source (suffix parse allowCall start value) s fun o s' =>
      o.isSome = true → s.front < s'.back := by
  have hs := b.toInScript
  -- a point
  refine .look _ rfl (.ite (fun _ => .anyway ?_) fun _ => .look _ rfl ?_)
  · exact (skip_goesOn hs).later fun _ s1 h1 => member_advances (propertyName_advances h1.script)
  -- an optional chain: a call, brackets or a name
  refine .ite (fun _ => .anyway ?_) fun _ => .look _ rfl ?_
  · refine (skip_goesOn hs).later fun _ s1 h1 => .look _ rfl ?_
    have b1 := h1.past b
    refine .ite (fun _ => call_advances hp b1.from) fun _ => .look _ rfl ?_
    refine .ite (fun _ => member_advances (computedKey_advances hp b1)) fun _ => ?_
    exact member_advances (propertyName_advances h1.script)
  -- brackets, a call or a template; otherwise nothing follows
  refine .ite (fun _ => .anyway (member_advances (computedKey_advances hp b))) fun _ => .look _ rfl ?_
  refine .ite (fun _ => .anyway (call_advances hp b.from)) fun _ => .look _ rfl ?_
  refine .ite (fun _ => .anyway ?_) fun _ => .pure hs nofun
  exact (template_advances hp b.from).first fun quasi s1 h1 _ => (node_goesOn h1.script).map

/-- A construction takes its word, behind which the callee is called. -/
theorem newExpression_advances (b : s.From source p) : Advances source (newExpression parse) s := by
  refine .look _ rfl ((expect_advances b.toInScript _).first fun _ s1 h1 hfront => ?_)
  have b1 := b.past h1 hfront
  refine (hp.past (.callMember false) trivial b1).goesOn.bind fun callee s2 h2 => .look _ rfl ?_
  refine .either (P := fun _ _ => True)
    (fun _ => (arguments_advances hp (h2.past b1).from).goesOn)
    (fun _ => .pure h2.script trivial) fun arguments s3 h3 _ => node_goesOn h3.script

/-- What starts with a word takes it. -/
theorem wordExpression_advances (b : s.From source p) (hne : s.token.kind ≠ .endOfInput)
    (word : String) : Advances source (wordExpression parse start word) s := by
  -- a word that is a value of its own
  have hliteral : ∀ form : Form Node, Advances source (do skip; node start form) s := fun form =>
    (skip_advances b.toInScript hne).first fun _ s1 h1 _ => node_goesOn h1.script
  unfold wordExpression
  extract_lets literal
  split
  · exact hliteral _
  · exact hliteral _
  · exact hliteral _
  · exact hliteral _
  · exact hliteral _
  · exact function_advances hp b false
  · exact classDeclaration_advances hp b true
  · -- `async` starts a function only in front of one
    refine Proceeds.bind (secondText_proceeds b.toInScript) fun text s1 h1 _ => .after h1 ?_
    refine .ite (fun _ => function_advances hp (h1.from b) false) fun _ => ?_
    exact identifier_advances h1.script
  · exact identifier_advances b.toInScript

/-- An operand takes a token, whatever it is. -/
theorem primary_advances (b : s.From source p) : Advances source (primary parse) s := by
  have hs := b.toInScript
  refine .look _ rfl (.look _ rfl ?_)
  -- by the kind of the token; what is taken is not the end of the input
  split
  next hkind =>
    exact (skip_advances hs (by rw [hkind]; decide)).first fun _ s1 h1 _ => node_goesOn h1.script
  next => exact stringLiteral_advances hs
  next hkind => exact wordExpression_advances hp b (by rw [hkind]; decide) _
  next hkind =>
    have hne : s.token.kind ≠ .endOfInput := by
      rw [hkind]
      decide
    -- by the text: parentheses call any rule behind the first of them
    split
    · refine (skip_advances hs hne).first fun _ s1 h1 hfront => ?_
      refine (hp.past .expression trivial (b.past h1 hfront)).goesOn.bind fun inner s2 h2 => ?_
      exact (expect_advances h2.script _).goesOn.bind fun _ s3 h3 => .pure h3.script trivial
    · exact array_advances hp b
    · exact object_advances hp b
    · exact template_advances hp b
    · exact element_advances hp b hne ⟨nofun, nofun⟩
    · exact (decorators_goesOn hp b).later fun decorators s1 h1 =>
        classDeclaration_advances hp (h1.from b) true
    · exact fail_proceeds hs _ nofun
    · exact fail_proceeds hs _ nofun
    · exact want_proceeds hs _
  next => exact want_proceeds hs _

/-- Accesses and calls start with an operand, and take what they add to it. -/
theorem callMember_advances (b : s.From source p) (allowCall : Bool) :
    Advances source (callMember parse allowCall) s := by
  refine .look _ rfl (.look _ rfl ?_)
  refine .either (fun _ => newExpression_advances hp b) (fun _ => primary_advances hp b)
    fun value s1 h1 hfront => .kept hfront ?_
  exact extend_goesOn h1.script value fun v s2 h2 =>
    suffix_proceeds hp allowCall (h2.past (b.past h1 hfront))

end Pieces

/-- An assignment tries an arrow function, and comes back if there is none. -/
theorem assignment_advances (hp : Calls source parse p Rule.assignment.level)
    (b : s.From source p) : Advances source (assignment parse) s := by
  -- the arrow function is tried first, a level deeper
  refine nested_advances b.toInScript fun depth => ?_
  refine Proceeds.bind (arrow?_proceeds hp (b.depth depth)) fun found s1 h1 hfound => ?_
  -- an arrow function that is found is the value
  cases found with
  | some arrow => exact .pure h1.script (hfound rfl)
  -- otherwise an assignment, which may have nothing to assign
  | none =>
    have b1 := h1.from (b.depth depth)
    refine .after h1 (.look _ rfl ?_)
    refine (conditional_advances hp (by decide) b1).first fun left s2 h2 hfront => .look _ rfl ?_
    refine .ite (fun _ => ?_) fun _ => .pure h2.script trivial
    refine unless_proceeds (fail_proceeds h2.script _ nofun) fun _ => ?_
    refine (skip_goesOn h2.script).bind fun _ s3 h3 => ?_
    refine (hp.past .assignment trivial (h3.past (b1.past h2 hfront))).goesOn.bind fun right s4 h4 => ?_
    exact node_goesOn h4.script

/-- An operator is not the end. -/
theorem binaryOperator_not_end {t : Token} {operator : String}
    (h : binaryOperator? t = some operator) : t.kind ≠ .endOfInput := by
  intro hend
  rw [binaryOperator?, hend] at h
  cases h

/-- Operators start with a lower rule, and each operator is taken. -/
theorem binary_advances {least : Nat} (hp : Calls source parse p (Rule.binary least).level)
    (b : s.From source p) : Advances source (binary parse least) s := by
  refine .look _ rfl ((hp.lower .unary trivial Nat.one_lt_two b).first fun first s1 h1 hfront => ?_)
  -- every operator that binds strongly enough takes another operand
  refine extend_goesOn h1.script first fun left s2 h2 => .look _ rfl ?_
  split
  next => exact .pure h2.script nofun
  next operator hoperator =>
    refine .ite (fun _ => .pure h2.script nofun) fun _ => ?_
    -- the operator has been passed, so the operand may be any
    refine Proceeds.bind (skip_advances h2.script (binaryOperator_not_end hoperator))
      fun _ s3 h3 hfront' => ?_
    have b3 := h3.past (h2.past (b.past h1 hfront))
    refine (hp.past (.binary _) trivial b3).goesOn.bind fun right s4 h4 => ?_
    exact (node_goesOn h4.script).bind fun n s5 h5 => .pure h5.script fun _ =>
      Nat.lt_of_lt_of_le hfront' (h4.trans h5).before.back

/-- Operators in front of an operand are taken before the rule calls itself. -/
theorem unary_advances (hp : Calls source parse p Rule.unary.level) (b : s.From source p) :
    Advances source (unary parse) s := by
  have hs := b.toInScript
  refine .look _ rfl (.look _ rfl (.ite (fun hat => ?_) fun _ => .ite (fun hat => ?_) fun _ => ?_))
  · have hne : s.token.kind ≠ .endOfInput := by
      intro hend
      rw [hend] at hat
      cases hat
    -- the operator is taken, so the rule may be called again though its level is the same
    refine (skip_advances hs hne).first fun _ s1 h1 hfront => ?_
    have b1 := b.past h1 hfront
    refine (nested_advances h1.script fun depth =>
      hp.past .unary trivial (b1.depth depth)).goesOn.bind fun argument s2 h2 => ?_
    exact node_goesOn h2.script
  · refine (skip_advances hs (isOne_not_end hat)).first fun _ s1 h1 hfront => ?_
    refine (hp.past .unary trivial (b.past h1 hfront)).goesOn.bind fun argument s2 h2 => ?_
    exact node_goesOn h2.script
  · refine .ite (fun hat => ?_) fun _ => ?_
    · refine (skip_advances hs (isOne_not_end hat)).first fun _ s1 h1 hfront => ?_
      refine (hp.past .unary trivial (b.past h1 hfront)).goesOn.bind fun argument s2 h2 => ?_
      exact node_goesOn h2.script
    · refine (hp.lower (.callMember true) trivial Nat.zero_lt_one b).first
        fun operand s1 h1 _ => .look _ rfl ?_
      refine .ite (fun _ => ?_) fun _ => .pure h1.script trivial
      exact (skip_goesOn h1.script).bind fun _ s2 h2 => node_goesOn h2.script

/-! ### Imports and names of exports -/

/-- A name and maybe another one. -/
theorem specifier_advances {name rename : Parse Node} {form : Node → Node → Form Node}
    {word : String} (hname : Advances source name s)
    (hrename : ∀ s', s'.InScript source → Advances source rename s') :
    Advances source (do
      let start ← startAhead
      let first ← name
      let other ← if ← eat word then rename else pure first
      node start (form first other)) s := by
  refine .look _ rfl (hname.first fun first s1 h1 _ => ?_)
  refine (eat_goesOn h1.script _).bind fun found s2 h2 => ?_
  exact .either (P := fun _ _ => True) (fun _ => (hrename s2 h2.script).goesOn)
    (fun _ => .pure h2.script trivial) fun other s3 h3 _ => node_goesOn h3.script

/-- An imported name takes that name. -/
theorem importSpecifier_advances (hs : s.InScript source) : Advances source importSpecifier s :=
  specifier_advances (moduleName_advances hs) fun _ => identifier_advances

/-- So does an exported one. -/
theorem exportSpecifier_advances (hs : s.InScript source) : Advances source exportSpecifier s :=
  specifier_advances (moduleName_advances hs) fun _ => moduleName_advances

/-- There may be no imported names; each that there is gets ahead. -/
theorem importSpecifiers_goesOn (hs : s.InScript source) : GoesOn source importSpecifiers s := by
  refine .look _ rfl ?_
  extract_lets named
  -- the names behind the default one, if there is one
  have hnamed : ∀ defaults s1, s1.InScript source → GoesOn source (named defaults) s1 := by
    intro defaults s1 hs1
    refine .look _ rfl (.look _ rfl ?_)
    extract_lets finish
    have hfinish : ∀ named s2, s2.InScript source → GoesOn source (finish named) s2 :=
      fun named s2 hs2 => (expect_advances hs2 _).goesOn.bind fun _ s3 h3 => .pure h3.script trivial
    -- all names under one, names in braces, or none
    refine .ite (fun _ => .look _ rfl ?_) fun _ => .ite (fun _ => ?_) fun _ => hfinish [] s1 hs1
    · refine (skip_goesOn hs1).bind fun _ s2 h2 => ?_
      refine (expect_advances h2.script _).goesOn.bind fun _ s3 h3 => ?_
      refine (identifier_advances h3.script).goesOn.bind fun binding s4 h4 => ?_
      exact (node_goesOn h4.script).bind fun specifier s5 h5 => hfinish [specifier] s5 h5.script
    · refine (skip_goesOn hs1).bind fun _ s2 h2 => ?_
      refine (separated_goesOn h2.script fun _ h => importSpecifier_advances h.script).bind
        fun specifiers s3 h3 => ?_
      exact (expect_advances h3.script _).goesOn.bind fun _ s4 h4 => hfinish specifiers s4 h4.script
  refine .ite (fun _ => ?_) fun _ => hnamed [] s hs
  refine (identifier_advances hs).goesOn.bind fun binding s1 h1 => ?_
  refine (nodeAt_goesOn h1.script).bind fun specifier s2 h2 => ?_
  exact (eat_goesOn h2.script _).map.bind fun _ s3 h3 => hnamed [specifier] s3 h3.script

/-- An import takes its word. -/
theorem importDeclaration_advances (hs : s.InScript source) :
    Advances source (importDeclaration start) s := by
  refine (skip_goesOn hs).later fun _ s1 h1 => .look _ rfl ?_
  refine .either (P := fun _ _ => True) (fun _ => .pure h1.script trivial)
    (fun _ => importSpecifiers_goesOn h1.script) fun specifiers s2 h2 _ => .after h2 ?_
  refine (stringLiteral_advances h2.script).first fun source s3 h3 _ => ?_
  exact (semicolon_goesOn h3.script).bind fun _ s4 h4 => node_goesOn h4.script

/-- To see whether a function stands ahead, the parser looks ahead and comes back. -/
theorem isAtFunction_goesOn (hs : s.InScript source) : GoesOn source isAtFunction s := by
  refine .look _ rfl (.ite (fun _ => .pure hs trivial) fun _ => .look _ rfl ?_)
  refine .ite (fun _ => ?_) fun _ => .pure hs trivial
  exact Proceeds.bind (secondText_proceeds hs) fun _ _ h1 _ => .pure h1.script trivial

/-- There may be no exported names; each that there is gets ahead. -/
theorem exportNames_goesOn (hs : s.InScript source) : GoesOn source (exportNames start) s := by
  have b : s.From source 0 := ⟨hs, Nat.zero_le _⟩
  refine (bracketed_advances b (fun _ b => exportSpecifier_advances b.toInScript)
    fun specifiers s1 b1 => ?_).goesOn
  refine (eat_goesOn b1.toInScript _).bind fun found s2 h2 => ?_
  refine optional_goesOn h2.script (fun _ => (stringLiteral_advances h2.script).goesOn)
    fun source s3 h3 => ?_
  exact (semicolon_goesOn h3.script).bind fun _ s4 h4 => node_goesOn h4.script

section Pieces

variable (hp : Calls source parse p level)

include hp

/-! ### Statements that start with a word -/

/-- A declaration takes its word. -/
theorem variableDeclaration_advances (b : s.From source p) (hne : s.token.kind ≠ .endOfInput) :
    Advances source (variableDeclaration parse) s := by
  refine .look _ rfl ((take_advances b.toInScript hne).first fun kind s1 h1 hfront => ?_)
  extract_lets declarator
  -- a target has been passed before its value is looked for
  have hdeclarator : ∀ s', s'.Past source p → Advances source declarator s' := by
    intro s' b'
    refine .look _ rfl ((hp.past .bindingTarget trivial b').first fun target s2 h2 _ => ?_)
    refine (eat_goesOn h2.script _).bind fun found s3 h3 => ?_
    exact optional_goesOn h3.script
      (fun _ => (hp.past .assignment trivial (h3.past (h2.past b'))).goesOn)
      fun init s4 h4 => node_goesOn h4.script
  -- declarators up to the first one that no comma follows
  refine (items_goesOn (fun _ => ⟨_, rfl⟩) h1.script fun s' h => ?_).bind
    fun declarations s2 h2 => node_goesOn h2.script
  refine (hdeclarator s' (h.past (b.past h1 hfront))).first fun d s2 h2 _ => ?_
  exact (eat_goesOn h2.script _).bind fun _ s3 h3 => .pure h3.script trivial

/-- A conditional statement takes its word, behind which its branches are called. -/
theorem ifStatement_advances (b : s.From source p) : Advances source (ifStatement parse start) s := by
  refine (skip_goesOn b.toInScript).later fun _ s1 h1 => ?_
  refine (expect_advances h1.script _).first fun _ s2 h2 hfront => ?_
  have b2 := (h1.from b).past h2 hfront
  refine (hp.past .expression trivial b2).goesOn.bind fun test s3 h3 => ?_
  refine (expect_advances h3.script _).goesOn.bind fun _ s4 h4 => ?_
  have b4 := h4.past (h3.past b2)
  refine (hp.past .statement trivial b4).goesOn.bind fun consequent s5 h5 => ?_
  refine (eat_goesOn h5.script _).bind fun found s6 h6 => ?_
  exact optional_goesOn h6.script
    (fun _ => (hp.past .statement trivial (h6.past (h5.past b4))).goesOn)
    fun alternate s7 h7 => node_goesOn h7.script

/-- A return takes its word. -/
theorem returnStatement_advances (b : s.From source p) (hne : s.token.kind ≠ .endOfInput) :
    Advances source (returnStatement parse start) s := by
  refine (skip_advances b.toInScript hne).first fun _ s1 h1 hfront => .look _ rfl ?_
  have b1 := b.past h1 hfront
  refine .either (P := fun _ _ => True) (fun _ => .pure h1.script trivial)
    (fun _ => (hp.past .expression trivial b1).goesOn.map) fun argument s2 h2 _ => ?_
  exact (semicolon_goesOn h2.script).bind fun _ s3 h3 => node_goesOn h3.script

/-! ### Exports -/

/-- More decorators behind those that were read before. -/
theorem moreDecorators_goesOn {α : Type} {before : List Node} {f : List Node → Parse α}
    (b : s.From source p) (hf : ∀ decorators s', s.Onward source s' → GoesOn source (f decorators) s') :
    GoesOn source (isAt ["@"] >>= fun found =>
      if found then (before ++ ·) <$> decorators parse >>= f else pure before >>= f) s :=
  .look _ rfl (.either (P := fun _ _ => True) (fun _ => (decorators_goesOn hp b).map)
    (fun _ => .pure b.toInScript trivial) fun decorators s1 h1 _ => hf decorators s1 h1)

/-- What is exported by default is called behind the words of the export. -/
theorem exportDefault_goesOn {before : List Node} (b : s.Past source p) :
    GoesOn source (exportDefault parse start before) s := by
  refine .look _ rfl (moreDecorators_goesOn hp b.from fun decorators s1 h1 => .look _ rfl ?_)
  have b1 := h1.past b
  extract_lets finish
  -- what is exported becomes a node
  have hfinish : ∀ declaration s2, s2.InScript source → GoesOn source (finish declaration) s2 :=
    fun declaration s2 hs2 => node_goesOn hs2
  refine (isAtFunction_goesOn h1.script).bind fun isFunction s2 h2 => ?_
  have b2 := h2.past b1
  -- a class, a function or a value
  refine .ite (fun _ => ?_) fun _ => .ite (fun _ => ?_) fun _ => ?_
  · exact (classDeclaration_advances hp b2.from true).goesOn.bind fun declaration s3 h3 =>
      hfinish declaration s3 h3.script
  · exact (function_advances hp b2.from false).goesOn.bind fun declaration s3 h3 =>
      hfinish declaration s3 h3.script
  · refine (hp.past .assignment trivial b2).goesOn.bind fun value s3 h3 => ?_
    exact (semicolon_goesOn h3.script).bind fun _ s4 h4 => hfinish value s4 h4.script

/-- An export takes its word. -/
theorem exportDeclaration_advances {before : List Node} (b : s.From source p) :
    Advances source (exportDeclaration parse start before) s := by
  refine (expect_advances b.toInScript _).first fun _ s1 h1 hfront => ?_
  refine (eat_goesOn h1.script _).bind fun found s2 h2 => ?_
  have b2 := h2.past (b.past h1 hfront)
  -- a default export, or one by name
  refine .ite (fun _ => exportDefault_goesOn hp b2) fun _ => ?_
  refine moreDecorators_goesOn hp b2.from fun decorators s3 h3 => .look _ rfl (.look _ rfl ?_)
  have b3 := (h3.past b2).from
  -- a class, variables, a function or a list of names
  refine .ite (fun _ => ?_) fun _ => .look _ rfl (.ite (fun hat => ?_) fun _ => ?_)
  · exact (classDeclaration_advances hp b3 false).goesOn.bind fun declaration s4 h4 =>
      node_goesOn h4.script
  · refine (variableDeclaration_advances hp b3 (isOne_not_end hat)).goesOn.bind
      fun declaration s4 h4 => ?_
    exact (semicolon_goesOn h4.script).bind fun _ s5 h5 => node_goesOn h5.script
  · refine .look _ rfl (.ite (fun _ => ?_) fun _ => exportNames_goesOn h3.script)
    exact (function_advances hp b3 true).goesOn.bind fun declaration s4 h4 => node_goesOn h4.script

/-- Decorators are taken, and so is what they stand before. -/
theorem decorated_advances (b : s.From source p) : Advances source (decorated parse start) s := by
  refine (decorators_goesOn hp b).later fun decorators s1 h1 => .look _ rfl ?_
  refine .ite (fun _ => exportDeclaration_advances hp (h1.from b)) fun _ => .look _ rfl ?_
  refine .ite (fun _ => ?_) fun _ => want_proceeds h1.script _
  exact classDeclaration_advances hp (h1.from b) false

/-! ### Other statements -/

/-- A statement of an expression calls a lower rule. -/
theorem expressionStatement_advances (hlevel : Rule.expression.level < level)
    (b : s.From source p) : Advances source (expressionStatement parse start) s := by
  refine (hp.lower .expression trivial hlevel b).first fun expression s1 h1 _ => ?_
  exact (semicolon_goesOn h1.script).bind fun _ s2 h2 => node_goesOn h2.script

/-- A statement of a declaration takes its word. -/
theorem variableStatement_advances (b : s.From source p) (hne : s.token.kind ≠ .endOfInput) :
    Advances source (variableStatement parse start) s := by
  refine (variableDeclaration_advances hp b hne).first fun declaration s1 h1 _ => ?_
  exact (semicolon_goesOn h1.script).bind fun _ s2 h2 => .get_bind (.pure h2.script trivial)

/-- A statement that starts with a word takes it, or calls a lower rule. -/
theorem wordStatement_advances (hlevel : Rule.expression.level < level) (b : s.From source p)
    (hne : s.token.kind ≠ .endOfInput) (token : Token) :
    Advances source (wordStatement parse start token) s := by
  have hs := b.toInScript
  -- words that tell only together with the next one
  have hsecond : ∀ {c : String → Prop} [DecidablePred c] {x y : Parse Node},
      (∀ s1, s.Onward source s1 → s1.token = s.token → Advances source x s1) →
      (∀ s1, s.Onward source s1 → Advances source y s1) →
      Advances source (do if c (← secondText) then x else y) s := by
    intro c _ x y hx hy
    refine Proceeds.bind (secondText_proceeds hs) fun text s1 h1 htoken => .after h1 ?_
    exact .ite (fun _ => hx s1 h1 htoken) fun _ => hy s1 h1
  have hexpression : ∀ s1, s.Onward source s1 →
      Advances source (expressionStatement parse start) s1 := fun s1 h1 =>
    expressionStatement_advances hp hlevel (h1.from b)
  unfold wordStatement
  -- the words that start a statement; the rest are expressions
  split
  · exact variableStatement_advances hp b hne
  · exact variableStatement_advances hp b hne
  · exact hsecond (fun s1 h1 htoken =>
      variableStatement_advances hp (h1.from b) (htoken ▸ hne)) hexpression
  · exact function_advances hp b true
  · exact hsecond (fun s1 h1 _ => function_advances hp (h1.from b) true) hexpression
  · exact classDeclaration_advances hp b false
  · exact returnStatement_advances hp b hne
  · exact ifStatement_advances hp b
  · refine Proceeds.bind (secondText_proceeds hs) fun text s1 h1 _ => .after h1 ?_
    exact .ite (fun _ => hexpression s1 h1) fun _ => importDeclaration_advances h1.script
  · exact exportDeclaration_advances hp b
  · exact .ite (fun _ => fail_proceeds hs _ nofun) fun _ => hexpression s (.refl hs)

end Pieces

/-- A statement takes a token, or calls a lower rule. -/
theorem statement_advances (hp : Calls source parse p Rule.statement.level)
    (b : s.From source p) : Advances source (statement parse) s := by
  refine nested_advances b.toInScript fun depth => .look _ rfl (.look _ rfl ?_)
  have b1 := b.depth depth
  refine .ite (fun _ => block_advances hp b1) fun _ => .ite (fun hat => ?_) fun _ => ?_
  · refine (skip_advances b1.toInScript (isOne_not_end hat)).first fun _ s2 h2 _ => ?_
    exact node_goesOn h2.script
  · refine .ite (fun _ => decorated_advances hp b1) fun _ => .ite (fun hname => ?_) fun _ => ?_
    · exact wordStatement_advances hp (by decide) b1 (by rw [hname]; decide) _
    · exact expressionStatement_advances hp (by decide) b1

end Reflow.Grammar
