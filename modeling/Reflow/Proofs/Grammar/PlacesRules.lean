import Reflow.Grammar.Parse
import Reflow.Proofs.Grammar.PlacesPieces

/-!
# Faults of the grammar lie in the source

Tags that do not match are reported at the name of the closing one, a target that cannot be assigned
to where it was read, and all else at the token ahead.  What is tried and given up, such as an arrow
function, leaves the parser where it came back to.

With the rules for statements the grammar is complete, so by induction on the bound of the rules
each rule is confined.  A tree that is too deep is reported at one of its nodes.

## Key results

- `elementBody_confined`: elements and fragments
- `expression_confined`, `assignment_confined`, `binary_confined`, `unary_confined`,
  `callMember_confined`: the rules for expressions
- `parseRule_confined`: every rule is confined
- `parse_fault`: what is wrong with a source lies at a place of this source
-/

namespace Reflow.Grammar

-- what a node holds is read off its form
attribute [local simp] Form.locates_iff Form.fields

section Expressions

variable {source : Source} {parse : Rule → Parse Node} {start : Position} {after : ScanMode}
  (hp : Confines source parse)

/-! ### Markup -/

/-- A mode is no place. -/
theorem tagMode_confined : Confined source tagMode := Confined.get.bind fun _ _ => .pure trivial

/-- Nor is the mode of children. -/
theorem childMode_confined : Confined source childMode :=
  Confined.get.bind fun _ _ => .pure trivial

/-- The token ahead is taken, and the next one is read inside a tag. -/
theorem passInTag_confined {α : Type} [HasPlaces α] {f : Unit → Parse α}
    (hf : ∀ u, Confined source (f u)) :
    Confined source (tagMode >>= fun mode => discard (advance mode) >>= f) :=
  tagMode_confined.bind fun _ _ => (pass_confined _).bind fun u _ => hf u

/-- A name in markup has the place of its token. -/
theorem markupIdentifier_confined (wanted : Wanted) :
    Confined source (markupIdentifier wanted) := by
  refine startAhead_confined.bind fun start hstart => (isAtKind_confined _).bind fun _ _ => ?_
  refine .optionally (want_confined _) (tagMode_confined.bind fun mode _ => ?_)
  exact (advance_confined mode).bind fun token _ => node_confined hstart (by simp)

/-- The name of a tag goes from its first name to its last. -/
theorem tagName_confined : Confined source tagName := by
  refine startAhead_confined.bind fun start hstart => ?_
  refine (markupIdentifier_confined _).bind fun name hname => (isAt_confined _).bind fun _ _ => ?_
  refine .ite (passInTag_confined fun _ => ?_) ?_
  · refine (markupIdentifier_confined _).bind fun inner hinner => ?_
    exact node_confined hstart (by simp [hname, hinner])
  · refine extend_confined (fun object hobject => (isAt_confined _).bind fun _ _ => ?_) hname
    refine .ite (passInTag_confined fun _ => ?_) (.pure (by simp))
    refine (markupIdentifier_confined _).bind fun property hproperty => ?_
    refine (node_confined hstart (by simp [hobject, hproperty])).bind fun n hn => ?_
    exact .pure (Source.locates_some.2 hn)

include hp

/-- An element starts at its bracket. -/
theorem element_confined (after : ScanMode) : Confined source (element parse after) := by
  refine startAhead_confined.bind fun start hstart => ?_
  exact passInTag_confined fun _ => hp (.element start after) hstart

/-- An expression in braces goes from brace to brace. -/
theorem expressionContainer_confined (after : ScanMode) (child : Bool) :
    Confined source (expressionContainer parse after child) := by
  refine startAhead_confined.bind fun start hstart => skip_confined.bind fun _ _ => ?_
  refine (isAt_confined _).bind fun _ _ => .ite (Confined.get.bind fun s hs => ?_) ?_
  · -- nothing stands between the brace that was taken and the one ahead
    refine (nodeAt_confined ⟨hs.lastEnd, hs.token.1⟩ (by simp)).bind fun empty hempty => ?_
    exact (expectPunctuator_confined _ _).bind fun _ _ => node_confined hstart (by simp [hempty])
  · refine .either (eat_confined _) (.pure trivial) fun spread _ => ?_
    refine (hp .expression trivial).bind fun expression h => ?_
    refine (expectPunctuator_confined _ _).bind fun _ _ => node_confined hstart ?_
    split <;> simp [h]

/-- The value of an attribute is a string, an expression in braces or an element. -/
theorem attributeValue_confined : Confined source (attributeValue parse) := by
  refine Confined.get.bind fun s _ => tagMode_confined.bind fun mode _ => ?_
  refine (pass_confined _).bind fun _ _ => startAhead_confined.bind fun start hstart => ?_
  refine ahead_confined.bind fun token _ => .ite ?_ (.ite ?_ (.ite ?_ (want_confined _)))
  · exact passInTag_confined fun _ => node_confined hstart (by simp)
  · exact tagMode_confined.bind fun _ _ => expressionContainer_confined hp _ _
  · exact tagMode_confined.bind fun _ _ => element_confined hp _

/-- An attribute goes from its name to the end of its value. -/
theorem tagAttribute_confined : Confined source (tagAttribute parse) := by
  refine startAhead_confined.bind fun start hstart => Confined.get.bind fun s _ => ?_
  -- an interpolation takes the place of an attribute
  refine ahead_confined.bind fun token _ => .ite (skip_confined.bind fun _ _ => ?_) ?_
  · refine (expect_confined _).bind fun _ _ => (hp .assignment trivial).bind fun argument h => ?_
    refine tagMode_confined.bind fun _ _ => (expectPunctuator_confined _ _).bind fun _ _ => ?_
    exact node_confined hstart (by simp [h])
  · refine (markupIdentifier_confined _).bind fun first hfirst => ?_
    refine (isAt_confined _).bind fun _ _ => ?_
    extract_lets finish
    -- the value comes behind the name, be it a name with a colon or not
    have hfinish : ∀ name, source.Locates name → Confined source (finish name) := by
      refine fun name hname => (isAt_confined _).bind fun _ _ => ?_
      refine optional_confined (attributeValue_confined hp) fun value hvalue => ?_
      exact node_confined hstart (by simp [hname, hvalue])
    refine .ite (passInTag_confined fun _ => ?_) (hfinish first hfirst)
    refine (markupIdentifier_confined _).bind fun inner hinner => ?_
    exact (node_confined hstart (by simp [hfirst, hinner])).bind hfinish

/-- A child is text, an expression in braces or an element. -/
theorem child_confined (mode : ScanMode) (topLevel : Bool) :
    Confined source (child parse mode topLevel) := by
  refine startAhead_confined.bind fun start hstart => ahead_confined.bind fun token _ => ?_
  refine .ite ?_ (.ite ?_ (.ite (expressionContainer_confined hp _ _) ?_))
  · exact (pass_confined _).bind fun _ _ => node_confined hstart (by simp)
  · exact (pass_confined _).bind fun _ _ => node_confined hstart (by simp)
  · exact .ite (element_confined hp _) (failAhead_confined _)

/-- Children have their places one after the other. -/
theorem children_confined : Confined source (children parse) := by
  -- every round starts at a place behind the last one, by induction on how many are left
  have hall : ∀ mode n, Confined source (childrenUpTo parse mode n) := by
    intro mode n
    induction n with
    | zero => exact exhausted_confined
    | succ n ih =>
      -- a child is put in front of those of the following rounds
      have hmore : ∀ before (first : Node), source.Locates first → Confined source (do
          onward before
          let r ← childrenUpTo parse mode n
          return (first :: r.1, r.2)) := fun before first hfirst =>
        (onward_confined _).bind fun _ _ => ih.bind fun r hr =>
          .pure ⟨Source.locates_cons.2 ⟨hfirst, hr.1⟩, hr.2⟩
      refine takenUpTo_confined.bind fun before _ => isAtEnd_confined.bind fun _ _ => ?_
      -- the next child is an element, another child, or there is none
      refine .optionally (failAhead_confined _) ((isAt_confined _).bind fun _ _ => .ite ?_ ?_)
      · refine startAhead_confined.bind fun start hstart => ?_
        refine passInTag_confined fun _ => (isAt_confined _).bind fun _ _ => ?_
        refine .ite (.pure ⟨by simp, hstart⟩) ?_
        exact (hp (.element start mode) hstart).bind (hmore before)
      · exact (child_confined hp mode false).bind (hmore before)
  exact childMode_confined.bind fun mode _ => rounds_confined.bind fun n _ => hall mode n

/-- A fragment goes from where it is told to start to its closing tag. -/
theorem fragment_confined (hstart : source.Locates start) (after : ScanMode) :
    Confined source (fragment parse start after) := by
  refine childMode_confined.bind fun _ _ => (pass_confined _).bind fun _ _ => ?_
  refine (node_confined hstart (by simp)).bind fun opening hopening => ?_
  refine (children_confined hp).bind fun r hr => ?_
  refine passInTag_confined fun _ => (expectPunctuator_confined _ _).bind fun _ _ => ?_
  refine (node_confined hr.2 (by simp)).bind fun closing hclosing => ?_
  exact node_confined hstart (by simp [hopening, hr.1, hclosing])

/-- An element goes from where it is told to start to its closing tag, or to its own end. -/
theorem namedElement_confined (hstart : source.Locates start) (after : ScanMode) :
    Confined source (namedElement parse start after) := by
  refine tagName_confined.bind fun name hname => ?_
  -- the attributes up to the end of the opening tag
  refine .bind (collect_confined (notAt_confined _) ?_) fun attributes hattributes => ?_
  · refine isAtEnd_confined.bind fun _ _ => .optionally (want_confined _) ?_
    exact (tagAttribute_confined hp).bind fun n hn => .pure ⟨hn, trivial⟩
  refine (isAt_confined _).bind fun closed _ => ?_
  extract_lets text finish
  -- an element that is closed at once has no children, another has some and a closing tag
  have hfinish : ∀ u, Confined source (finish u) := by
    refine fun u => Confined.get.bind fun s _ => childMode_confined.bind fun inside _ => ?_
    refine (expectPunctuator_confined _ _).bind fun _ _ => ?_
    refine (node_confined hstart (by simp [hname, hattributes])).bind fun opening hopening => ?_
    refine .ite (node_confined hstart (by simp [hopening])) ?_
    refine (children_confined hp).bind fun r hr => ?_
    refine passInTag_confined fun _ => tagName_confined.bind fun closingName hclosingName => ?_
    refine .optionally (fail_confined _ (Node.locates_span hclosingName)) ?_
    refine (expectPunctuator_confined _ _).bind fun _ _ => ?_
    refine (node_confined hr.2 (by simp [hclosingName])).bind fun closing hclosing => ?_
    exact node_confined hstart (by simp [hopening, hr.1, hclosing])
  -- the mode in which the tag ends is that of what is around it
  exact .ite (passInTag_confined hfinish) (hfinish ⟨⟩)

/-- Both start where the bracket of the element stood. -/
theorem elementBody_confined (hstart : source.Locates start) (after : ScanMode) :
    Confined source (elementBody parse start after) :=
  nested_confined ((isAt_confined _).bind fun _ _ =>
    .ite (fragment_confined hp hstart after) (namedElement_confined hp hstart after))

/-! ### Expressions -/

/-- An expression goes from the first of its expressions to the last. -/
theorem expression_confined : Confined source (expression parse) := by
  refine startAhead_confined.bind fun start hstart => ?_
  refine (hp .assignment trivial).bind fun first h => ?_
  refine (isAt_confined _).bind fun _ _ => .ite ?_ (.pure h)
  refine (every_confined (eat_confined _) (hp .assignment trivial)).bind fun rest hrest => ?_
  exact node_confined hstart (by simp [h, hrest])

/-- The head of an arrow function has the places of its parameters. -/
theorem arrowHead_confined : Confined source (arrowHead parse) := by
  refine (isAt_confined _).bind fun _ _ => ?_
  extract_lets rest
  -- the parameters come behind `async`, which is a name when an arrow follows it, or a line end
  have hrest : ∀ isAsync, Confined source (rest isAsync) := by
    refine fun isAsync => .optionally skip_confined ((isAt_confined _).bind fun _ _ => ?_)
    refine isAtName_confined.bind fun _ _ => ?_
    extract_lets finish
    -- the arrow is wanted behind either form of parameters
    have hfinish : ∀ params, source.Locates params → Confined source (finish params) :=
      fun params hparams => ahead_confined.bind fun token _ =>
        .optionally (want_confined _) (.pure ⟨hparams, trivial⟩)
    refine .ite ((params_confined hp).bind hfinish) (.ite ?_ ((want_confined _).bind hfinish))
    exact (identifier_confined.map fun n hn => by simp [hn]).bind hfinish
  refine .ite (second_confined.bind fun token _ => .ite (hrest false) ?_) (hrest false)
  exact secondText_confined.bind fun text _ => hrest _

/-- An attempt that fails comes back with nothing, and to places that were there before. -/
theorem arrow?_confined : Confined source (arrow? parse) := by
  refine ahead_confined.bind fun token _ => .ite (.pure (by simp)) ?_
  refine startAhead_confined.bind fun start hstart => snapshot_confined.bind fun back hback => ?_
  refine (observe_confined (arrowHead_confined hp)).bind fun result h => ?_
  cases result with
  | error fault => exact (restore_confined hback).bind fun _ _ => .pure (by simp)
  | ok head =>
    refine skip_confined.bind fun _ _ => (isAt_confined _).bind fun _ _ => ?_
    refine .either (block_confined hp) (hp .assignment trivial) fun body hbody => ?_
    have hhead : source.Locates head.1 := h.1
    exact (node_confined hstart (by simp [hhead, hbody])).map fun _ hn => Source.locates_some.2 hn

/-- A conditional goes from its test to its last part. -/
theorem conditional_confined : Confined source (conditional parse) := by
  refine startAhead_confined.bind fun start hstart => (hp (.binary 0) trivial).bind fun test h => ?_
  refine (eat_confined _).bind fun _ _ => .ite ?_ (.pure h)
  refine (hp .assignment trivial).bind fun consequent hconsequent => ?_
  refine (expect_confined _).bind fun _ _ => (hp .assignment trivial).bind fun alternate h' => ?_
  exact node_confined hstart (by simp [h, hconsequent, h'])

/-- An assignment goes from its target to its value. -/
theorem assignment_confined : Confined source (assignment parse) := by
  refine nested_confined ((arrow?_confined hp).bind fun found hfound => ?_)
  cases found with
  | some arrow => exact .pure (Source.locates_some.1 hfound)
  | none =>
    refine startAhead_confined.bind fun start hstart => ?_
    refine (conditional_confined hp).bind fun left h => ?_
    refine ahead_confined.bind fun token _ => .ite ?_ (.pure h)
    refine .optionally (fail_confined _ (Node.locates_span h)) (skip_confined.bind fun _ _ => ?_)
    exact (hp .assignment trivial).bind fun right h' => node_confined hstart (by simp [h, h'])

/-- An operation goes from its left operand to its right one. -/
theorem binary_confined (least : Nat) : Confined source (binary parse least) := by
  refine startAhead_confined.bind fun start hstart => (hp .unary trivial).bind fun first h => ?_
  refine extend_confined (fun left hleft => ahead_confined.bind fun token _ => ?_) h
  split
  next => exact .pure (by simp)
  next operator _ =>
    refine .ite (.pure (by simp)) (skip_confined.bind fun _ _ => ?_)
    refine (hp (.binary _) trivial).bind fun right hright => ?_
    refine .bind (node_confined hstart ?_) fun n hn => .pure (Source.locates_some.2 hn)
    split <;> simp [hleft, hright]

/-- A prefix operator starts an expression that ends with its operand. -/
theorem unary_confined : Confined source (unary parse) := by
  refine startAhead_confined.bind fun start hstart => ahead_confined.bind fun token _ => ?_
  -- every operator is skipped and puts its operand under a node that starts where it does
  have hargument : ∀ {x : Parse Node} {f : Node → Form Node}, Confined source x →
      (∀ n, source.Locates n → source.Locates (f n)) →
      Confined source (do
        skip
        let argument ← x
        node start (f argument)) := fun hx hf =>
    skip_confined.bind fun _ _ => hx.bind fun n hn => node_confined hstart (hf n hn)
  refine .ite ?_ (.ite ?_ (.ite ?_ ?_))
  · -- only the operators that are counted as nested go a level deeper
    exact hargument (nested_confined (hp .unary trivial)) fun n hn => by simp [hn]
  · exact hargument (hp .unary trivial) fun n hn => by simp [hn]
  · exact hargument (hp .unary trivial) fun n hn => by simp [hn]
  · refine (hp (.callMember true) trivial).bind fun operand h => ?_
    refine ahead_confined.bind fun token _ => ?_
    exact .ite (skip_confined.bind fun _ _ => node_confined hstart (by simp [h])) (.pure h)

/-- A key in brackets has the places of its expression. -/
theorem computedKey_confined : Confined source (computedKey parse) := by
  refine skip_confined.bind fun _ _ => (hp .expression trivial).bind fun property h => ?_
  exact (expect_confined _).bind fun _ _ => .pure h

omit hp in
/-- What was read behind a value becomes a node together with it. -/
theorem behind_confined {α : Type} [HasPlaces α] {x : Parse α} {f : α → Form Node}
    (hstart : source.Locates start) (hx : Confined source x)
    (hf : ∀ a, source.Locates a → source.Locates (f a)) :
    Confined source (do
      let a ← x
      some <$> node start (f a)) :=
  hx.bind fun a ha =>
    (node_confined hstart (hf a ha)).map fun _ hn => Source.locates_some.2 hn

/-- What is added to an operand is built from where the operand starts. -/
theorem suffix_confined (allowCall : Bool) (hstart : source.Locates start) {value : Node}
    (hvalue : source.Locates value) : Confined source (suffix parse allowCall start value) := by
  -- a member or a call takes the place of the value that it follows
  have hmember : ∀ {x : Parse Node} {computed optional : Bool}, Confined source x →
      Confined source (do
        let property ← x
        some <$> node start (.memberExpression value property computed optional)) := fun hx =>
    behind_confined hstart hx fun n hn => by simp [hvalue, hn]
  have hcall : ∀ optional : Bool, Confined source (do
      let arguments ← arguments parse
      some <$> node start (.callExpression value arguments optional)) := fun optional =>
    behind_confined hstart (arguments_confined hp) fun l hl => by simp [hvalue, hl]
  -- a point, an optional chain, brackets, a call or a template
  refine (isAt_confined _).bind fun _ _ => .ite ?_ ((isAt_confined _).bind fun _ _ => .ite ?_ ?_)
  · exact skip_confined.bind fun _ _ => hmember propertyName_confined
  · refine skip_confined.bind fun _ _ => (isAt_confined _).bind fun _ _ => .ite (hcall true) ?_
    refine (isAt_confined _).bind fun _ _ => .ite (hmember (computedKey_confined hp)) ?_
    exact hmember propertyName_confined
  · refine (isAt_confined _).bind fun _ _ => .ite (hmember (computedKey_confined hp)) ?_
    refine (isAt_confined _).bind fun _ _ => .ite (hcall false) ?_
    refine (isAt_confined _).bind fun _ _ => .ite ?_ (.pure (by simp))
    exact behind_confined hstart (template_confined hp) fun n hn => by simp [hvalue, hn]

/-- A construction goes from its word to the end of its arguments. -/
theorem newExpression_confined : Confined source (newExpression parse) := by
  refine startAhead_confined.bind fun start hstart => (expect_confined _).bind fun _ _ => ?_
  refine (hp (.callMember false) trivial).bind fun callee h => (isAt_confined _).bind fun _ _ => ?_
  refine .either (arguments_confined hp) (.pure (by simp)) fun l hl => ?_
  exact node_confined hstart (by simp [h, hl])

/-- What starts with a word goes from there on. -/
theorem wordExpression_confined (hstart : source.Locates start) (word : String) :
    Confined source (wordExpression parse start word) := by
  -- the words that are values of their own
  have hliteral : ∀ {form : Form Node}, source.Locates form →
      Confined source (do skip; node start form) := fun hform =>
    skip_confined.bind fun _ _ => node_confined hstart hform
  unfold wordExpression
  extract_lets literal
  split
  · exact hliteral (by simp)
  · exact hliteral (by simp)
  · exact hliteral (by simp)
  · exact hliteral (by simp)
  · exact hliteral (by simp)
  · exact function_confined hp hstart false
  · exact classDeclaration_confined hp hstart (by simp) true
  · refine secondText_confined.bind fun text _ => ?_
    exact .ite (function_confined hp hstart false) identifier_confined
  · exact identifier_confined

/-- An operand starts at the token ahead. -/
theorem primary_confined : Confined source (primary parse) := by
  refine startAhead_confined.bind fun start hstart => ahead_confined.bind fun token htoken => ?_
  split
  -- by the kind of the token, and for punctuators by the text
  next => exact skip_confined.bind fun _ _ => node_confined hstart (by simp)
  next => exact stringLiteral_confined
  next => exact wordExpression_confined hp hstart _
  next =>
    split
    · refine skip_confined.bind fun _ _ => (hp .expression trivial).bind fun inner h => ?_
      exact (expect_confined _).bind fun _ _ => .pure h
    · exact array_confined hp
    · exact object_confined hp
    · exact template_confined hp
    · exact element_confined hp _
    · refine (decorators_confined hp).bind fun decorators h => ?_
      exact classDeclaration_confined hp hstart h true
    · exact fail_confined _ htoken
    · exact fail_confined _ htoken
    · exact want_confined _
  next => exact want_confined _

/-- Accesses and calls go from their operand on. -/
theorem callMember_confined (allowCall : Bool) : Confined source (callMember parse allowCall) := by
  refine startAhead_confined.bind fun start hstart => (isAt_confined _).bind fun _ _ => ?_
  refine .either (newExpression_confined hp) (primary_confined hp) fun value hvalue => ?_
  exact extend_confined (fun v hv => suffix_confined hp allowCall hstart hv) hvalue

end Expressions

section Statements

variable {source : Source} {parse : Rule → Parse Node} {start : Position}

/-! ### Imports and exports -/

/-- Two names, of which the second may be left out, become a node. -/
theorem specifier_confined {name rename : Parse Node} {form : Node → Node → Form Node}
    (hname : Confined source name) (hrename : Confined source rename)
    (hform : ∀ a b, source.Locates a → source.Locates b → source.Locates (form a b)) :
    Confined source (do
      let start ← startAhead
      let first ← name
      let other ← if ← eat "as" then rename else pure first
      node start (form first other)) := by
  refine startAhead_confined.bind fun start hstart => hname.bind fun first hfirst => ?_
  refine (eat_confined _).bind fun _ _ => .either hrename (.pure hfirst) fun other hother => ?_
  exact node_confined hstart (hform first other hfirst hother)

/-- An imported name goes up to the name that it is given. -/
theorem importSpecifier_confined : Confined source importSpecifier :=
  specifier_confined moduleName_confined identifier_confined fun a b ha hb => by simp [ha, hb]

/-- So does an exported one. -/
theorem exportSpecifier_confined : Confined source exportSpecifier :=
  specifier_confined moduleName_confined moduleName_confined fun a b ha hb => by simp [ha, hb]

/-- Imported names have their places one after the other. -/
theorem importSpecifiers_confined : Confined source importSpecifiers := by
  refine isAtName_confined.bind fun _ _ => ?_
  extract_lets named
  -- the names behind the default one, with or without it
  have hnamed : ∀ defaults, source.Locates defaults → Confined source (named defaults) := by
    refine fun defaults hdefaults => (isAt_confined _).bind fun _ _ => ?_
    refine (isAt_confined _).bind fun _ _ => ?_
    extract_lets finish
    -- every form ends with the word that comes before the origin
    have hfinish : ∀ named, source.Locates named → Confined source (finish named) :=
      fun named h => (expect_confined _).bind fun _ _ => .pure (by simp [hdefaults, h])
    refine .ite (startAhead_confined.bind fun start hstart => ?_) (.ite ?_ (hfinish [] (by simp)))
    · -- all names under one
      refine skip_confined.bind fun _ _ => (expect_confined _).bind fun _ _ => ?_
      refine identifier_confined.bind fun binding hbinding => ?_
      refine (node_confined hstart (by simp [hbinding])).bind fun specifier h => ?_
      exact hfinish [specifier] (by simp [h])
    · -- names in braces
      refine skip_confined.bind fun _ _ => ?_
      refine (separated_confined _ importSpecifier_confined).bind fun specifiers h => ?_
      exact (expect_confined _).bind fun _ _ => hfinish specifiers h
  refine .ite (identifier_confined.bind fun binding hbinding => ?_) (hnamed [] (by simp))
  refine (nodeAt_confined (Node.locates_span hbinding) (by simp [hbinding])).bind
    fun specifier h => ?_
  exact (eat_confined _).discard.bind fun _ _ => hnamed [specifier] (by simp [h])

/-- An import goes from its word to its end. -/
theorem importDeclaration_confined (hstart : source.Locates start) :
    Confined source (importDeclaration start) := by
  refine skip_confined.bind fun _ _ => (isAtKind_confined _).bind fun _ _ => ?_
  refine .either (.pure (by simp)) importSpecifiers_confined fun specifiers hspecifiers => ?_
  refine stringLiteral_confined.bind fun path hpath => semicolon_confined.bind fun _ _ => ?_
  exact node_confined hstart (by simp [hspecifiers, hpath])

/-- To see whether a function stands ahead gives no place. -/
theorem isAtFunction_confined : Confined source isAtFunction := by
  refine (isAt_confined _).bind fun _ _ => .ite (.pure trivial) ?_
  refine (isAt_confined _).bind fun _ _ => ?_
  exact .ite (secondText_confined.bind fun _ _ => .pure trivial) (.pure trivial)

/-- An export of names goes from its word to its end. -/
theorem exportNames_confined (hstart : source.Locates start) :
    Confined source (exportNames start) := by
  refine bracketed_confined exportSpecifier_confined fun specifiers hspecifiers => ?_
  refine (eat_confined _).bind fun _ _ => ?_
  refine optional_confined stringLiteral_confined fun path hpath => ?_
  exact semicolon_confined.bind fun _ _ => node_confined hstart (by simp [hspecifiers, hpath])

/-- The first of some decorators, or what stands behind them. -/
theorem locates_first {decorators : List Node} (h : source.Locates decorators)
    (hstart : source.Locates start) :
    source.Locates ((decorators.head?.map (·.span.start)).getD start) := by
  cases decorators with
  | nil => exact hstart
  | cons n rest => exact (Node.locates_span (Source.locates_cons.1 h).1).1

section Pieces

variable (hp : Confines source parse)

include hp

/-- More decorators behind those that were read before. -/
theorem moreDecorators_confined {before : List Node} (hbefore : source.Locates before)
    {f : List Node → Parse Node} (hf : ∀ l, source.Locates l → Confined source (f l)) :
    Confined source (isAt ["@"] >>= fun found =>
      if found then (before ++ ·) <$> decorators parse >>= f else pure before >>= f) :=
  (isAt_confined _).bind fun _ _ =>
    .either ((decorators_confined hp).map fun l hl => by simp [hbefore, hl]) (.pure hbefore) hf

/-- A default export goes from where it is told to start to its end. -/
theorem exportDefault_confined (hstart : source.Locates start) {before : List Node}
    (hbefore : source.Locates before) : Confined source (exportDefault parse start before) := by
  refine startAhead_confined.bind fun inner hinner => ?_
  refine moreDecorators_confined hp hbefore fun decorators hdecorators => ?_
  refine (isAt_confined _).bind fun _ _ => ?_
  extract_lets finish
  -- a class, a function or a value is exported
  have hfinish : ∀ declaration, source.Locates declaration → Confined source (finish declaration) :=
    fun declaration h => node_confined hstart (by simp [h])
  refine isAtFunction_confined.bind fun isFunction _ => .ite ?_ (.ite ?_ ?_)
  · exact (classDeclaration_confined hp hinner hdecorators true).bind hfinish
  · exact (function_confined hp hinner false).bind hfinish
  · refine (hp .assignment trivial).bind fun value hvalue => ?_
    exact semicolon_confined.bind fun _ _ => hfinish value hvalue

/-! ### Declarations and statements -/

/-- A declaration goes from its word to its last declarator. -/
theorem variableDeclaration_confined : Confined source (variableDeclaration parse) := by
  refine startAhead_confined.bind fun start hstart => take_confined.bind fun kind _ => ?_
  extract_lets declarator
  -- a target, and a value behind an equals sign
  have hdeclarator : Confined source declarator := by
    refine startAhead_confined.bind fun start hstart => ?_
    refine (hp .bindingTarget trivial).bind fun target htarget => ?_
    refine (eat_confined _).bind fun _ _ => ?_
    refine optional_confined (hp .assignment trivial) fun init hinit => ?_
    exact node_confined hstart (by simp [htarget, hinit])
  refine .bind (collect_confined (.pure trivial) ?_) fun declarations h => ?_
  · -- declarators up to the first one that no comma follows
    exact hdeclarator.bind fun d hd => (eat_confined _).bind fun _ _ => .pure ⟨hd, trivial⟩
  · exact node_confined hstart (by simp [h])

/-- An export goes from where it is told to start to the end of what it exports. -/
theorem exportDeclaration_confined (hstart : source.Locates start) {before : List Node}
    (hbefore : source.Locates before) :
    Confined source (exportDeclaration parse start before) := by
  -- what is exported by name starts where the decorators do
  have hexport : ∀ {n : Node}, source.Locates n →
      Confined source (node start (.exportNamedDeclaration (some n) [] none)) := fun hn =>
    node_confined hstart (by simp [hn])
  refine (expect_confined _).bind fun _ _ => (eat_confined _).bind fun _ _ => ?_
  refine .ite (exportDefault_confined hp hstart hbefore) ?_
  refine moreDecorators_confined hp hbefore fun decorators hdecorators => ?_
  refine startAhead_confined.bind fun inner hinner => (isAt_confined _).bind fun _ _ => .ite ?_ ?_
  · have hfirst := locates_first hdecorators hinner
    exact (classDeclaration_confined hp hfirst hdecorators false).bind fun n hn => hexport hn
  -- a declaration of variables, of a function, or a list of names
  refine (isAt_confined _).bind fun _ _ => .ite ?_ ((isAt_confined _).bind fun _ _ => .ite ?_ ?_)
  · refine (variableDeclaration_confined hp).bind fun n hn => ?_
    exact semicolon_confined.bind fun _ _ => hexport hn
  · exact (function_confined hp hinner true).bind fun n hn => hexport hn
  · exact exportNames_confined hstart

/-- Decorators have their places, and what they stand before has its own. -/
theorem decorated_confined (hstart : source.Locates start) :
    Confined source (decorated parse start) := by
  refine (decorators_confined hp).bind fun decorators h => (isAt_confined _).bind fun _ _ => ?_
  refine .ite (exportDeclaration_confined hp hstart h) ((isAt_confined _).bind fun _ _ => ?_)
  exact .ite (classDeclaration_confined hp hstart h false) (want_confined _)

/-- A conditional statement goes from its word to the end of its branches. -/
theorem ifStatement_confined (hstart : source.Locates start) :
    Confined source (ifStatement parse start) := by
  refine skip_confined.bind fun _ _ => (expect_confined _).bind fun _ _ => ?_
  refine (hp .expression trivial).bind fun test htest => (expect_confined _).bind fun _ _ => ?_
  refine (hp .statement trivial).bind fun consequent h => (eat_confined _).bind fun _ _ => ?_
  refine optional_confined (hp .statement trivial) fun alternate h' => ?_
  exact node_confined hstart (by simp [htest, h, h'])

/-- A return goes from its word to its end. -/
theorem returnStatement_confined (hstart : source.Locates start) :
    Confined source (returnStatement parse start) := by
  refine skip_confined.bind fun _ _ => ahead_confined.bind fun token _ => ?_
  refine .either (.pure (by simp))
    ((hp .expression trivial).map fun n hn => Source.locates_some.2 hn) fun argument h => ?_
  exact semicolon_confined.bind fun _ _ => node_confined hstart (by simp [h])

/-- A statement of an expression goes from its start to its end. -/
theorem expressionStatement_confined (hstart : source.Locates start) :
    Confined source (expressionStatement parse start) := by
  refine (hp .expression trivial).bind fun expression h => semicolon_confined.bind fun _ _ => ?_
  exact node_confined hstart (by simp [h])

/-- So does one of a declaration. -/
theorem variableStatement_confined (hstart : source.Locates start) :
    Confined source (variableStatement parse start) := by
  refine (variableDeclaration_confined hp).bind fun n hn => semicolon_confined.bind fun _ _ => ?_
  exact Confined.get.bind fun s hs => .pure (Node.locates_withSpan hn ⟨hstart, hs.lastEnd⟩)

/-- What starts with a word has the place of that word, or goes from it on. -/
theorem wordStatement_confined (hstart : source.Locates start) {token : Token}
    (htoken : source.Locates token) : Confined source (wordStatement parse start token) := by
  have hexpression := expressionStatement_confined hp hstart
  unfold wordStatement
  split
  · -- the words that start a statement; some do so before certain words only
    exact variableStatement_confined hp hstart
  · exact variableStatement_confined hp hstart
  · exact secondText_confined.bind fun _ _ =>
      .ite (variableStatement_confined hp hstart) hexpression
  · exact function_confined hp hstart true
  · exact secondText_confined.bind fun _ _ => .ite (function_confined hp hstart true) hexpression
  · exact classDeclaration_confined hp hstart (by simp) false
  · exact returnStatement_confined hp hstart
  · exact ifStatement_confined hp hstart
  · exact secondText_confined.bind fun _ _ => .ite hexpression (importDeclaration_confined hstart)
  · exact exportDeclaration_confined hp hstart (by simp)
  · exact .ite (fail_confined _ htoken) hexpression

/-- A statement starts at the token ahead. -/
theorem statement_confined : Confined source (statement parse) := by
  refine nested_confined (startAhead_confined.bind fun start hstart => ?_)
  refine ahead_confined.bind fun token htoken => .ite (block_confined hp) (.ite ?_ (.ite ?_ ?_))
  · exact skip_confined.bind fun _ _ => node_confined hstart (by simp)
  · exact decorated_confined hp hstart
  · exact .ite (wordStatement_confined hp hstart htoken) (expressionStatement_confined hp hstart)

/-! ### All rules -/

/-- Each rule keeps to the source if the rules do that it calls. -/
theorem rule_confined (r : Rule) (hr : source.Locates r) : Confined source (rule parse r) := by
  cases r with
  | statement => exact statement_confined hp
  | expression => exact expression_confined hp
  | assignment => exact assignment_confined hp
  | binary least => exact binary_confined hp least
  | unary => exact unary_confined hp
  | callMember allowCall => exact callMember_confined hp allowCall
  | bindingTarget => exact bindingTarget_confined hp
  | element start after => exact elementBody_confined hp hr after

/-- To note who calls a rule gives no place. -/
theorem called_confined (caller : Rule) (before : Nat) :
    Confines source (called parse caller before) :=
  fun r hr => (note_confined _).bind fun _ _ => hp r hr

end Pieces

/-- Nor does it to note how deep the calls are. -/
theorem noteDepth_confined (fuel : Nat) : Confined source (noteDepth fuel) :=
  .modify fun _ hs => ⟨hs.scanner, hs.token, hs.lastEnd⟩

/-- So all rules keep to the source, however deep they call one another. -/
theorem parseRule_confined (fuel : Nat) : Confines source (parseRule fuel) := by
  induction fuel with
  | zero => exact fun _ _ => exhausted_confined
  | succ fuel ih =>
    refine fun r hr => takenUpTo_confined.bind fun before _ => ?_
    exact (noteDepth_confined fuel).bind fun _ _ => rule_confined (called_confined ih r before) r hr

/-! ### Whole sources -/

/-- A node that lies below a depth is one of the tree. -/
theorem locates_firstBelow {depth : Nat} {n deep : Node} (hn : source.Locates n)
    (h : firstBelow depth n = some deep) : source.Locates deep := by
  induction depth generalizing n with
  | zero =>
    cases h
    exact hn
  | succ depth ih =>
    obtain ⟨c, hc, hdeep⟩ := List.exists_of_findSome?_eq_some h
    rw [List.mem_reverse] at hc
    exact ih ((Node.locates_iff.1 hn).2 c (Node.mem_of_mem_dropRepeated hc)) hdeep

/-- The contents of a source have their places one after the other. -/
theorem contents_confined (html : Bool) (hp : Confines source parse) :
    Confined source (contents html parse) := by
  refine collect_confined (isAtEnd_confined.bind fun _ _ => .pure trivial) ?_
  exact .either (child_confined hp _ true) (hp .statement trivial) fun n hn => .pure ⟨hn, trivial⟩

/-- At the start nothing is known of the token ahead, but it is replaced by the first one. -/
theorem root_ends (source : Source) (html : Bool) :
    Concludes (root html) { scanner := .start source, html } (fun _ _ => True)
      fun fault _ => source.Locates fault := by
  have hfirst := (scan_ends (Scan.next_confined (if html then .htmlChild else .script))
    (s := { scanner := .start source, html }) (Scanner.locates_start source)).mono
      (fun _ _ h => h) fun _ _ h => h.1
  refine hfirst.bind fun first s1 ⟨htoken, hscanner, hs1⟩ => ?_
  have hs2 : source.Locates { s1 with token := first } :=
    ⟨hscanner, htoken, hs1 ▸ source.counts_start⟩
  -- from here on the parser is located
  refine Concludes.bind (.of_ok rfl hs2) fun _ s2 hs2 => Confined.ends ?_ hs2
  refine Confined.get.bind fun s3 _ => ?_
  refine (contents_confined html (parseRule_confined _)).bind fun nodes hnodes => ?_
  refine Confined.get.bind fun s4 hs4 => ?_
  refine .bind (nodeAt_confined ⟨source.counts_start, hs4.scanner.2⟩ ?_) fun tree htree => ?_
  · split <;> simp [hnodes]
  · split
    next deep hdeep => exact fail_confined _ (Node.locates_span (locates_firstBelow htree hdeep))
    next => exact .pure htree

/-- What is wrong with a source lies at a place of this source. -/
theorem parse_fault {html : Bool} {fault : SourceFault}
    (h : Grammar.parse source html = .error fault) : source.Locates fault := by
  -- the run of the parser gives the fault, and the fault of a run is located in the source
  have hroot := root_ends source html
  rw [Grammar.parse] at h
  cases hrun : root html { scanner := .start source, html } with
  | mk result s =>
    rw [hrun] at h
    cases result with
    | ok n => cases h
    | error cause =>
      cases h
      exact hroot.error hrun

end Statements

end Reflow.Grammar
