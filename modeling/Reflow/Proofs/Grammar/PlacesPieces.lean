import Reflow.Grammar.Pieces
import Reflow.Proofs.Grammar.Places

/-!
# Pieces of statements and expressions keep to the source

One lemma for each piece of the grammar, given that the rules which refer to each other are
confined.

## Key results

- `Confines`: what the pieces rely on
- `block_confined`, `classDeclaration_confined`, `object_confined` and so on: one lemma for each
  piece
-/

namespace Reflow.Grammar

-- what a node holds is read off its form
attribute [local simp] Form.locates_iff Form.fields

/-- The rules are confined where they are called with places of the source. -/
def Confines (source : Source) (parse : Rule → Parse Node) : Prop :=
  ∀ r : Rule, source.Locates r → Confined source (parse r)

variable {α : Type} [HasPlaces α] {source : Source} {parse : Rule → Parse Node} {start : Position}
  (hp : Confines source parse)

/-- A string has the place of its token. -/
theorem stringLiteral_confined : Confined source stringLiteral := by
  refine (isAtKind_confined _).bind fun _ _ => .optionally (want_confined _) ?_
  exact startAhead_confined.bind fun _ hstart => leaf_confined hstart (by simp)

/-- To see whether a word is a modifier gives no place. -/
theorem isModifier_confined (words enders : List String) :
    Confined source (isModifier words enders) :=
  (isAt_confined _).bind fun _ _ =>
    .ite (secondText_confined.bind fun _ _ => .pure trivial) (.pure trivial)

/-- A step that may be left out. -/
theorem optional_confined {x : Parse α} {c : Prop} [Decidable c] {f : Option α → Parse Node}
    (hx : Confined source x) (hf : ∀ o, source.Locates o → Confined source (f o)) :
    Confined source (if c then some <$> x >>= f else pure none >>= f) :=
  .either (hx.map fun _ ha => Source.locates_some.2 ha) (.pure (by simp)) hf

include hp

/-- A block goes from its brace to the one that closes it. -/
theorem block_confined : Confined source (block parse) := by
  refine startAhead_confined.bind fun start hstart => (expect_confined _).bind fun _ _ => ?_
  refine .bind (collect_confined (notAt_confined _) ?_) fun body hbody => ?_
  · refine isAtEnd_confined.bind fun _ _ => .optionally (want_confined _) ?_
    exact (hp .statement trivial).bind fun n hn => .pure ⟨hn, trivial⟩
  · exact skip_confined.bind fun _ _ => node_confined hstart (by simp [hbody])

/-- An item goes from its three dots, if there are any, to its end. -/
theorem spreadable_confined : Confined source (spreadable parse) := by
  refine startAhead_confined.bind fun start hstart => (eat_confined _).bind fun _ _ => ?_
  refine .ite ((hp .assignment trivial).bind fun argument h => ?_) (hp .assignment trivial)
  exact node_confined hstart (by simp [h])

omit hp in
/-- Items with commas between them, in brackets. -/
theorem bracketed_confined {β : Type} [HasPlaces β] {opening closing : String} {item : Parse α}
    {f : List α → Parse β} (hitem : Confined source item)
    (hf : ∀ l, source.Locates l → Confined source (f l)) :
    Confined source (do
      expect opening
      let l ← separated closing item
      expect closing
      f l) :=
  (expect_confined _).bind fun _ _ => (separated_confined _ hitem).bind fun l hl =>
    (expect_confined _).bind fun _ _ => hf l hl

/-- Arguments have the places of their items. -/
theorem arguments_confined : Confined source (arguments parse) :=
  bracketed_confined (spreadable_confined hp) fun _ hl => .pure hl

/-- A parameter goes from its target to its default. -/
theorem param_confined : Confined source (param parse) := by
  refine startAhead_confined.bind fun start hstart => (eat_confined _).bind fun _ _ => ?_
  refine .ite ?_ ((hp .bindingTarget trivial).bind fun target htarget => ?_)
  · exact (hp .bindingTarget trivial).bind fun n hn => node_confined hstart (by simp [hn])
  · refine (eat_confined _).bind fun _ _ => .ite ?_ (.pure htarget)
    exact (hp .assignment trivial).bind fun n hn => node_confined hstart (by simp [htarget, hn])

/-- Parameters have the places of their items. -/
theorem params_confined : Confined source (params parse) :=
  bracketed_confined (param_confined hp) fun _ hl => .pure hl

/-- A key has the place of its token, or of the expression in its brackets. -/
theorem propertyKey_confined : Confined source (propertyKey parse) := by
  refine startAhead_confined.bind fun start hstart => ahead_confined.bind fun token htoken => ?_
  refine (isAt_confined _).bind fun _ _ => .ite ?_ (.ite ?_ (.ite ?_ ?_))
  · refine skip_confined.bind fun _ _ => (hp .assignment trivial).bind fun key hkey => ?_
    exact (expect_confined _).bind fun _ _ => .pure ⟨hkey, trivial⟩
  · exact stringLiteral_confined.bind fun key hkey => .pure ⟨hkey, trivial⟩
  · refine skip_confined.bind fun _ _ => (node_confined hstart (by simp)).bind fun key hkey => ?_
    exact .pure ⟨hkey, trivial⟩
  · exact propertyName_confined.bind fun key hkey => .pure ⟨hkey, trivial⟩

omit hp in
/-- Names with dots between them. -/
theorem dotted_confined (hstart : source.Locates start) {n : Node} (hn : source.Locates n) :
    Confined source (extend (fun object => do
        if ← isAt ["."] then
          skip
          let property ← propertyName
          return some (← node start (.memberExpression object property false false))
        else return none) n) := by
  refine extend_confined (fun object hobject => (isAt_confined _).bind fun _ _ => ?_) hn
  refine .ite (skip_confined.bind fun _ _ => ?_) (.pure (by simp))
  refine propertyName_confined.bind fun property hproperty => ?_
  refine (node_confined hstart (by simp [hobject, hproperty])).bind fun n hn => ?_
  exact .pure (Source.locates_some.2 hn)

/-- A decorator goes from its sign to the end of its expression. -/
theorem decorator_confined : Confined source (decorator parse) := by
  refine startAhead_confined.bind fun start hstart => skip_confined.bind fun _ _ => ?_
  -- an expression in parentheses, or a dotted name
  refine (isAt_confined _).bind fun _ _ => .ite (skip_confined.bind fun _ _ => ?_) ?_
  · refine (hp .expression trivial).bind fun expression h => ?_
    exact (expect_confined _).bind fun _ _ => node_confined hstart (by simp [h])
  · refine startAhead_confined.bind fun inner hinner => ?_
    refine identifier_confined.bind fun name hname => ?_
    refine (dotted_confined hinner hname).bind fun access haccess => ?_
    refine (isAt_confined _).bind fun _ _ => ?_
    -- arguments make a call of the name
    extract_lets finish
    have hfinish : ∀ e, source.Locates e → Confined source (finish e) :=
      fun e he => node_confined hstart (by simp [he])
    refine .ite ((arguments_confined hp).bind fun arguments harguments => ?_)
      (hfinish access haccess)
    exact (node_confined hinner (by simp [haccess, harguments])).bind hfinish

/-- Decorators have their places one after the other. -/
theorem decorators_confined : Confined source (decorators parse) :=
  every_confined (isAt_confined _) (decorator_confined hp)

/-- A function goes from its first word to the end of its body. -/
theorem function_confined (hstart : source.Locates start) (declaration : Bool) :
    Confined source (function parse start declaration) := by
  refine (eat_confined _).bind fun isAsync _ => (expect_confined _).bind fun _ _ => ?_
  refine (eat_confined _).bind fun generator _ => ahead_confined.bind fun token _ => ?_
  extract_lets finish
  have hfinish : ∀ name, source.Locates name → Confined source (finish name) := by
    refine fun name hname => (params_confined hp).bind fun params hparams => ?_
    refine (block_confined hp).bind fun body hbody => node_confined hstart ?_
    split <;> simp [hname, hparams, hbody]
  refine .ite ?_ (.ite ((want_confined _).bind hfinish) (hfinish none (by simp)))
  exact (identifier_confined.map fun _ hn => Source.locates_some.2 hn).bind hfinish

omit hp in
/-- The word before an accessor only tells its kind. -/
theorem methodKind_confined {f : MethodKind → Parse Node} {enders : List String}
    (hf : ∀ kind, Confined source (f kind)) :
    Confined source (isModifier ["get", "set"] enders >>= fun found =>
      if found then do
        let word ← take
        let kind ← pure (if word.text == "get" then MethodKind.getter else .setter)
        f kind
      else pure .method >>= f) :=
  (isModifier_confined _ _).bind fun _ _ =>
    .ite (take_confined.bind fun _ _ => hf _) (hf .method)

/-- A member goes from its decorators to the end of its body. -/
theorem classMember_confined : Confined source (classMember parse) := by
  refine startAhead_confined.bind fun start hstart => (isAt_confined _).bind fun _ _ => ?_
  -- decorators, then modifiers, each only when it is not the name of the member itself
  refine .either (decorators_confined hp) (.pure (by simp)) fun decorators hdecorators => ?_
  refine (isModifier_confined _ _).bind fun isStatic _ => .optionally skip_confined ?_
  refine (isModifier_confined _ _).bind fun found _ => ?_
  extract_lets rest
  -- a method and a property differ behind their key
  have hrest : ∀ isAsync, source.Locates isAsync → Confined source (rest isAsync) := by
    refine fun isAsync _ => .optionally skip_confined ((eat_confined _).bind fun generator _ => ?_)
    refine methodKind_confined fun kind => (propertyKey_confined hp).bind fun r hr => ?_
    refine (isAt_confined _).bind fun _ _ => .ite ?_ ((eat_confined _).bind fun _ _ => ?_)
    · refine (params_confined hp).bind fun params hparams => ?_
      refine (block_confined hp).bind fun body hbody => ?_
      exact node_confined hstart (by simp [hdecorators, hr.1, hparams, hbody])
    · refine optional_confined (hp .assignment trivial) fun value hvalue => ?_
      refine semicolon_confined.bind fun _ _ => ?_
      exact node_confined hstart (by simp [hdecorators, hr.1, hvalue])
  refine .ite (second_confined.bind fun token _ => ?_) (hrest false trivial)
  -- the word before the key is a modifier, or is the key
  exact hrest _ trivial

/-- Members have their places one after the other. -/
theorem classMembers_confined : Confined source (classMembers parse) := by
  refine .bind (collect_confined (notAt_confined _) ?_) fun members h => .pure fun n hn => ?_
  · refine isAtEnd_confined.bind fun _ _ => .optionally (want_confined _) ?_
    refine (eat_confined _).bind fun _ _ => .ite (.pure ⟨by simp, trivial⟩) ?_
    exact (classMember_confined hp).bind fun n hn => .pure ⟨Source.locates_some.2 hn, trivial⟩
  · exact Source.locates_some.1 (h (some n) (by simpa using hn))

/-- A class goes from where it is told to start to its closing brace. -/
theorem classDeclaration_confined (hstart : source.Locates start) {decorators : List Node}
    (hdecorators : source.Locates decorators) (isExpression : Bool) :
    Confined source (classDeclaration parse start decorators isExpression) := by
  refine (expect_confined _).bind fun _ _ => isAtName_confined.bind fun _ _ => ?_
  -- a name is needed for a declaration only
  extract_lets finish
  have hfinish : ∀ name, source.Locates name → Confined source (finish name) := by
    refine fun name hname => (eat_confined _).bind fun _ _ => ?_
    refine optional_confined (hp (.callMember true) trivial) fun superclass hsuperclass => ?_
    refine startAhead_confined.bind fun bodyStart hbodyStart => ?_
    refine (expect_confined _).bind fun _ _ => ?_
    refine (classMembers_confined hp).bind fun members hmembers => skip_confined.bind fun _ _ => ?_
    -- the braces make a node of their own
    refine (node_confined hbodyStart (by simp [hmembers])).bind fun body hbody => ?_
    exact node_confined hstart (by simp [hdecorators, hname, hsuperclass, hbody])
  refine .ite ?_ (.ite (hfinish none (by simp)) ((want_confined _).bind hfinish))
  exact (identifier_confined.map fun _ hn => Source.locates_some.2 hn).bind hfinish

/-- An array goes from its bracket to the one that closes it. -/
theorem array_confined : Confined source (array parse) := by
  refine startAhead_confined.bind fun start hstart => (expect_confined _).bind fun _ _ => ?_
  refine .bind (collect_confined (notAt_confined _) ?_) fun elements helements => ?_
  · refine (eat_confined _).bind fun _ _ => .ite (.pure ⟨by simp, trivial⟩) ?_
    refine (spreadable_confined hp).bind fun element h => (eat_confined _).bind fun _ _ => ?_
    exact .pure ⟨Source.locates_some.2 h, trivial⟩
  · exact (expect_confined _).bind fun _ _ => node_confined hstart (by simp [helements])

/-- A member of an object goes from its key to the end of its value. -/
theorem objectMember_confined : Confined source (objectMember parse) := by
  refine startAhead_confined.bind fun start hstart => (eat_confined _).bind fun _ _ => .ite ?_ ?_
  · -- what is spread
    exact (hp .assignment trivial).bind fun argument h => node_confined hstart (by simp [h])
  refine (isModifier_confined _ _).bind fun isAsync _ => .optionally skip_confined ?_
  refine (eat_confined _).bind fun generator _ => methodKind_confined fun kind => ?_
  -- a method has parameters, a property a value or nothing
  refine (propertyKey_confined hp).bind fun r hr => (isAt_confined _).bind fun _ _ => .ite ?_ ?_
  · refine (params_confined hp).bind fun params hparams => ?_
    refine (block_confined hp).bind fun body hbody => ?_
    exact node_confined hstart (by simp [hr.1, hparams, hbody])
  · refine (eat_confined _).bind fun _ _ => .ite ?_ ?_
    · refine (hp .assignment trivial).bind fun value hvalue => ?_
      exact node_confined hstart (by simp [hr.1, hvalue])
    · -- a key without a value stands for itself, if it is a name
      split
      · refine (eat_confined _).bind fun _ _ => .ite ?_ (node_confined hstart (by simp [hr.1]))
        refine (hp .assignment trivial).bind fun value hvalue => ?_
        refine (node_confined hstart (by simp [hr.1, hvalue])).bind fun pattern hpattern => ?_
        exact node_confined hstart (by simp [hr.1, hpattern])
      · exact want_confined _

/-- An object goes from its brace to the one that closes it. -/
theorem object_confined : Confined source (object parse) :=
  startAhead_confined.bind fun _ hstart => bracketed_confined (objectMember_confined hp)
    fun l hl => node_confined hstart (by simp [hl])

/-- A target of a binding is an array, an object or a name. -/
theorem bindingTarget_confined : Confined source (bindingTarget parse) := by
  refine (isAt_confined _).bind fun _ _ => .ite (object_confined hp) ?_
  refine (isAt_confined _).bind fun _ _ => .ite (array_confined hp) ?_
  exact isAtName_confined.bind fun _ _ => .ite identifier_confined (want_confined _)

/-! ### Templates -/

/-- Texts have places that the scanner gave, and expressions have their own. -/
theorem templateParts_confined (n : Nat) : Confined source (templateParts parse n) := by
  -- by induction on the rounds: text, and between texts an expression
  induction n with
  | zero => exact exhausted_confined
  | succ n ih =>
    refine takenUpTo_confined.bind fun before _ => ?_
    refine (scan_confined Scan.templateChunk_confined).bind fun chunk hchunk => ?_
    refine (nodeAt_confined hchunk (by simp)).bind fun quasi hquasi => ?_
    refine Confined.get.bind fun s hs => ?_
    -- the last node ends where the text does
    refine .bind (.set ⟨hs.scanner, hs.token, hs.scanner.2⟩) fun _ _ => ?_
    refine refill_confined .script (.ite (.pure ⟨by simp [hquasi], by simp⟩) ?_)
    refine (hp .expression trivial).bind fun expression h => (isAt_confined _).bind fun _ _ => ?_
    refine .optionally (want_confined _) ((onward_confined _).bind fun _ _ => ?_)
    exact ih.bind fun parts hparts => .pure ⟨by simp [hquasi, hparts.1], by simp [h, hparts.2]⟩

/-- A template goes from its quote to the one that closes it. -/
theorem template_confined : Confined source (template parse) := by
  refine startAhead_confined.bind fun start hstart => (isAt_confined _).bind fun _ _ => ?_
  refine .optionally (want_confined _) ?_
  refine .bind (.modify fun s hs => ⟨hs.scanner, hs.token, hs.token.2⟩) fun _ _ => ?_
  refine rounds_confined.bind fun n _ => (templateParts_confined hp n).bind fun parts hparts => ?_
  exact node_confined hstart (by simp [hparts.1, hparts.2])

end Reflow.Grammar
