import Reflow.Grammar.Markup
import Reflow.Proofs.Grammar.Pieces
import Reflow.Proofs.Grammar.Progress

/-!
# Pieces of statements and expressions get ahead

A rule that started where `p` was the end of the last token taken may call any rule once a token was
taken, and before that only a lower one.  Given a parser of the rules that gets ahead when it is called
in this way, each piece of the grammar gets ahead, and calls it in no other way.

Between tags and inside them the tokens of a script have characters as well, so the loops over
attributes and children take a token in each round, also where a child is an element of its own.

## Key results

- `Calls`: the calls that a rule may make
- `block_advances`, `classDeclaration_advances`, `object_advances` and so on: one lemma for each piece
- `childrenUpTo_goesOn`: the loop over the children of an element
- `elementBody_advances`: an element or fragment, behind its opening bracket
-/

namespace Reflow.Grammar

/-- What stands behind an element is not read as the inside of a tag of HTML. -/
def Rule.Scripted : Rule → Prop
  | .element _ after => after.OutsideHtmlTag
  | _ => True

/-- The rules get ahead where they are called behind `p`, or at `p` but below a level. -/
structure Calls (source : Source) (parse : Rule → Parse Node) (p level : Nat) : Prop where
  past : ∀ (r : Rule) {s : State}, r.Scripted → s.Past source p → Advances source (parse r) s
  lower : ∀ (r : Rule) {s : State}, r.Scripted → r.level < level → s.From source p →
    Advances source (parse r) s

section Pieces

variable {α : Type} {source : Source} {parse : Rule → Parse Node} {p level : Nat} {s : State}
  {start : Position} (hp : Calls source parse p level)

/-- A string takes its token. -/
theorem stringLiteral_advances (hs : s.InScript source) : Advances source stringLiteral s := by
  refine .look _ rfl (unless_proceeds (want_proceeds hs _) fun hat => .look _ rfl ?_)
  refine leaf_advances hs fun hend => ?_
  rw [hend] at hat
  exact hat rfl

/-- To see whether a word is a modifier, the parser looks ahead and comes back. -/
theorem isModifier_goesOn (hs : s.InScript source) (words enders : List String) :
    GoesOn source (isModifier words enders) s := by
  refine .look _ rfl (.ite (fun _ => ?_) fun _ => .pure hs trivial)
  exact (secondText_proceeds hs).bind fun _ _ h1 _ => .pure h1.script trivial

/-- A step that may be left out. -/
theorem optional_goesOn {x : Parse α} {c : Prop} [Decidable c] {f : Option α → Parse Node}
    (hs : s.InScript source) (hx : c → GoesOn source x s)
    (hf : ∀ o s', s.Onward source s' → GoesOn source (f o) s') :
    GoesOn source (if c then some <$> x >>= f else pure none >>= f) s :=
  .ite (fun hc => (hx hc).map.bind hf) fun _ => GoesOn.bind (.pure hs trivial) hf

include hp

/-- A block takes its brace, behind which its statements are called. -/
theorem block_advances (b : s.From source p) : Advances source (block parse) s := by
  refine .look _ rfl ((expect_advances b.toInScript _).first fun _ s1 h1 hfront => ?_)
  have b1 := b.past h1 hfront
  refine (items_goesOn (fun _ => ⟨_, rfl⟩) h1.script fun s' h => ?_).bind fun body s2 h2 => ?_
  · refine .look _ rfl (unless_proceeds (want_proceeds h.script _) fun _ => ?_)
    exact (hp.past .statement trivial (h.past b1)).first fun _ _ h3 _ => .pure h3.script trivial
  · exact (skip_goesOn h2.script).bind fun _ s3 h3 => node_goesOn h3.script

/-- An item is an expression that is called behind where the list started. -/
theorem spreadable_advances (b : s.Past source p) : Advances source (spreadable parse) s := by
  refine .look _ rfl ((eat_goesOn b.toInScript _).later fun found s1 h1 => ?_)
  refine .ite (fun _ => ?_) fun _ => hp.past .assignment trivial (h1.past b)
  exact (hp.past .assignment trivial (h1.past b)).first fun _ s2 h2 _ => node_goesOn h2.script

omit hp in
/-- Items with commas between them, in brackets. -/
theorem bracketed_advances {β : Type} {opening closing : String} {item : Parse α}
    {f : List α → Parse β} (b : s.From source p)
    (hitem : ∀ s', s'.Past source p → Advances source item s')
    (hf : ∀ l s', s'.Past source p → GoesOn source (f l) s') :
    Advances source (do
      expect opening
      let l ← separated closing item
      expect closing
      f l) s := by
  -- the opening bracket is past, so that what follows may call any rule
  refine (expect_advances b.toInScript _).first fun _ s1 h1 hfront => ?_
  have b1 := b.past h1 hfront
  refine (separated_goesOn h1.script fun s' h => hitem s' (h.past b1)).bind fun l s2 h2 => ?_
  exact (expect_advances h2.script _).goesOn.bind fun _ s3 h3 => hf l s3 (h3.past (h2.past b1))

/-- Arguments take their bracket. -/
theorem arguments_advances (b : s.From source p) : Advances source (arguments parse) s :=
  bracketed_advances b (fun _ => spreadable_advances hp) fun _ _ b1 => .pure b1.toInScript trivial

/-- A parameter is a target that is called behind where the list started. -/
theorem param_advances (b : s.Past source p) : Advances source (param parse) s := by
  refine .look _ rfl ((eat_goesOn b.toInScript _).later fun found s1 h1 => .ite (fun _ => ?_) fun _ => ?_)
  · exact (hp.past .bindingTarget trivial (h1.past b)).first fun _ s2 h2 _ => node_goesOn h2.script
  · refine (hp.past .bindingTarget trivial (h1.past b)).first fun target s2 h2 _ => ?_
    refine (eat_goesOn h2.script _).bind fun found s3 h3 => ?_
    refine .ite (fun _ => ?_) fun _ => .pure h3.script trivial
    have b3 := h3.past (h2.past (h1.past b))
    exact (hp.past .assignment trivial b3).goesOn.bind fun _ s4 h4 => node_goesOn h4.script

/-- Parameters take their bracket. -/
theorem params_advances (b : s.From source p) : Advances source (params parse) s :=
  bracketed_advances b (fun _ => param_advances hp) fun _ _ b1 => .pure b1.toInScript trivial

/-- A key takes a token, or a bracket with an expression behind it. -/
theorem propertyKey_advances (b : s.From source p) : Advances source (propertyKey parse) s := by
  have hs := b.toInScript
  refine .look _ rfl (.look _ rfl (.look _ rfl (.ite (fun hat => ?_) fun _ => ?_)))
  · refine (skip_advances hs (isOne_not_end hat)).first fun _ s1 h1 hfront => ?_
    refine (hp.past .assignment trivial (b.past h1 hfront)).goesOn.bind fun key s2 h2 => ?_
    exact (expect_advances h2.script _).goesOn.bind fun _ s3 h3 => .pure h3.script trivial
  · refine .ite (fun _ => ?_) fun _ => .ite (fun hnumber => ?_) fun _ => ?_
    · exact (stringLiteral_advances hs).first fun _ _ h1 _ => .pure h1.script trivial
    · refine (skip_advances hs (hnumber ▸ nofun)).first fun _ s1 h1 _ => ?_
      exact (node_goesOn h1.script).bind fun _ _ h2 => .pure h2.script trivial
    · exact (propertyName_advances hs).first fun _ _ h1 _ => .pure h1.script trivial

omit hp in
/-- Names with dots between them. -/
theorem dotted_goesOn (hs : s.InScript source) (n : Node) :
    GoesOn source (extend (fun object => do
        if ← isAt ["."] then
          skip
          let property ← propertyName
          return some (← node start (.memberExpression object property false false))
        else return none) n) s := by
  -- every round takes a point and a name
  refine extend_goesOn hs n fun object s1 h1 => .look _ rfl (.ite (fun hat => ?_) fun _ => ?_)
  · refine Proceeds.bind (skip_advances h1.script (isOne_not_end hat)) fun _ s2 h2 hfront => ?_
    refine (propertyName_advances h2.script).goesOn.bind fun property s3 h3 => ?_
    exact (node_goesOn h3.script).bind fun _ s4 h4 => .pure h4.script fun _ =>
      Nat.lt_of_lt_of_le hfront (h3.trans h4).before.back
  · exact .pure h1.script nofun

/-- A decorator takes its sign. -/
theorem decorator_advances (b : s.From source p) : Advances source (decorator parse) s := by
  refine .look _ rfl ((skip_goesOn b.toInScript).later fun _ s1 h1 => ?_)
  have b1 := h1.from b
  -- an expression in parentheses, or a dotted name
  refine .look _ rfl (.ite (fun hat => ?_) fun _ => .look _ rfl ?_)
  · refine (skip_advances h1.script (isOne_not_end hat)).first fun _ s2 h2 hfront => ?_
    refine (hp.past .expression trivial (b1.past h2 hfront)).goesOn.bind fun expression s3 h3 => ?_
    exact (expect_advances h3.script _).goesOn.bind fun _ s4 h4 => node_goesOn h4.script
  · refine (identifier_advances h1.script).first fun name s2 h2 _ => ?_
    refine (dotted_goesOn h2.script name).bind fun access s3 h3 => .look _ rfl ?_
    -- arguments make a call of the name
    extract_lets finish
    have hfinish : ∀ expression s4, s4.InScript source → GoesOn source (finish expression) s4 :=
      fun expression s4 hs4 => node_goesOn hs4
    refine .ite (fun _ => ?_) fun _ => hfinish access s3 h3.script
    refine (arguments_advances hp (h3.from (h2.from b1))).goesOn.bind fun arguments s4 h4 => ?_
    exact (node_goesOn h4.script).bind fun expression s5 h5 => hfinish expression s5 h5.script

/-- There may be no decorators; each that there is gets ahead. -/
theorem decorators_goesOn (b : s.From source p) : GoesOn source (decorators parse) s :=
  items_goesOn (fun _ => ⟨_, rfl⟩) b.toInScript fun _ h =>
    (decorator_advances hp (h.from b)).first fun _ _ h1 _ => .pure h1.script trivial

/-- A function takes its first word. -/
theorem function_advances (b : s.From source p) (declaration : Bool) :
    Advances source (function parse start declaration) s := by
  refine (eat_goesOn b.toInScript _).later fun isAsync s1 h1 => ?_
  refine (expect_advances h1.script _).first fun _ s2 h2 hfront => ?_
  refine (eat_goesOn h2.script _).bind fun generator s3 h3 => .look _ rfl ?_
  have b3 := h3.past ((h1.from b).past h2 hfront)
  -- the name may be missing; parameters and body follow
  extract_lets finish
  have hfinish : ∀ name s4, s4.Past source p → GoesOn source (finish name) s4 := by
    intro name s4 b4
    refine (params_advances hp b4.from).goesOn.bind fun params s5 h5 => ?_
    refine (block_advances hp (h5.past b4).from).goesOn.bind fun body s6 h6 => ?_
    exact node_goesOn h6.script
  refine .ite (fun _ => ?_) fun _ => .ite (fun _ => ?_) fun _ => hfinish none s3 b3
  · exact (identifier_advances h3.script).goesOn.map.bind fun name s4 h4 => hfinish name s4 (h4.past b3)
  · exact want_bind h3.script _

omit hp in
/-- The word before an accessor only tells its kind. -/
theorem methodKind_advances {f : MethodKind → Parse Node} {enders : List String}
    (hs : s.InScript source) (hf : ∀ kind s', s.Onward source s' → Advances source (f kind) s') :
    Advances source (isModifier ["get", "set"] enders >>= fun found =>
      if found then do
        let word ← take
        let kind ← pure (if word.text == "get" then MethodKind.getter else .setter)
        f kind
      else pure .method >>= f) s := by
  refine (isModifier_goesOn hs _ _).later fun found s1 h1 => .ite (fun _ => ?_) fun _ => ?_
  · exact (take_goesOn h1.script).later fun word s2 h2 => hf _ s2 (h1.trans h2)
  · exact hf .method s1 h1

/-- A member takes its key at least. -/
theorem classMember_advances (b : s.From source p) : Advances source (classMember parse) s := by
  refine .look _ rfl (.look _ rfl ?_)
  -- decorators may be missing, so nothing has been passed yet
  refine .either (P := fun _ _ => True) (fun _ => decorators_goesOn hp b)
    (fun _ => .pure b.toInScript trivial) fun decorators s1 h1 _ => .after h1 ?_
  refine (isModifier_goesOn h1.script _ _).later fun isStatic s2 h2 => ?_
  refine when_proceeds h2.script (fun _ => skip_goesOn h2.script) fun s3 h3 => .after h3 ?_
  refine (isModifier_goesOn h3.script _ _).later fun found s4 h4 => ?_
  have b4 := h4.from (h3.from (h2.from (h1.from b)))
  extract_lets rest
  -- with or without a modifier, it is the key that brings the parser onward
  have hrest : ∀ isAsync s5, s5.From source p → Advances source (rest isAsync) s5 := by
    intro isAsync s5 b5
    refine when_proceeds b5.toInScript (fun _ => skip_goesOn b5.toInScript) fun s6 h6 => .after h6 ?_
    refine (eat_goesOn h6.script _).later fun generator s7 h7 => ?_
    have b7 := h7.from (h6.from b5)
    refine methodKind_advances h7.script fun kind s8 h8 => ?_
    refine (propertyKey_advances hp (h8.from b7)).first fun r s9 h9 hfront => .look _ rfl ?_
    have b9 := (h8.from b7).past h9 hfront
    -- a method, or a property that may have a value
    refine .ite (fun _ => ?_) fun _ => ?_
    · refine (params_advances hp b9.from).goesOn.bind fun params s10 h10 => ?_
      refine (block_advances hp (h10.past b9).from).goesOn.bind fun body s11 h11 => ?_
      exact node_goesOn h11.script
    · refine (eat_goesOn h9.script _).bind fun found s10 h10 => ?_
      refine optional_goesOn h10.script
        (fun _ => (hp.past .assignment trivial (h10.past b9)).goesOn) fun value s11 h11 => ?_
      exact (semicolon_goesOn h11.script).bind fun _ s12 h12 => node_goesOn h12.script
  refine .ite (fun _ => ?_) fun _ => hrest false s4 b4
  refine Proceeds.bind (second_proceeds h4.script) fun token s5 h5 _ => .after h5 ?_
  exact hrest _ s5 (h5.from b4)

/-- There may be no members; each that there is gets ahead. -/
theorem classMembers_goesOn (b : s.From source p) : GoesOn source (classMembers parse) s := by
  refine (items_goesOn (fun _ => ⟨_, rfl⟩) b.toInScript fun s' h => ?_).bind fun members s1 h1 =>
    .pure h1.script trivial
  refine .look _ rfl (unless_proceeds (want_proceeds h.script _) fun _ => ?_)
  refine Proceeds.bind (eat_proceeds h.script ";") fun found s1 h1 hfront => ?_
  refine .ite (fun hfound => .pure h1.script (hfront hfound)) fun _ => .after h1 ?_
  exact (classMember_advances hp (h1.from (h.from b))).first fun _ _ h2 _ => .pure h2.script trivial

/-- A class takes its first word. -/
theorem classDeclaration_advances {decorators : List Node} (b : s.From source p)
    (isExpression : Bool) :
    Advances source (classDeclaration parse start decorators isExpression) s := by
  refine (expect_advances b.toInScript _).first fun _ s1 h1 hfront => .look _ rfl ?_
  have b1 := b.past h1 hfront
  -- the class has been passed, so the parts of it may call any rule
  extract_lets finish
  have hfinish : ∀ name s2, s2.Past source p → GoesOn source (finish name) s2 := by
    intro name s2 b2
    refine (eat_goesOn b2.toInScript _).bind fun found s3 h3 => ?_
    refine optional_goesOn h3.script
      (fun _ => (hp.past (.callMember true) trivial (h3.past b2)).goesOn) fun superclass s4 h4 => ?_
    refine .look _ rfl ((expect_advances h4.script _).goesOn.bind fun _ s5 h5 => ?_)
    have b5 := h5.past (h4.past (h3.past b2))
    refine (classMembers_goesOn hp b5.from).bind fun members s6 h6 => ?_
    refine (skip_goesOn h6.script).bind fun _ s7 h7 => ?_
    exact (node_goesOn h7.script).bind fun body s8 h8 => node_goesOn h8.script
  -- a declaration without a name is refused
  refine .ite (fun _ => ?_) fun _ => .ite (fun _ => hfinish none s1 b1) fun _ => ?_
  · exact (identifier_advances h1.script).goesOn.map.bind fun name s2 h2 => hfinish name s2 (h2.past b1)
  · exact want_bind h1.script _

/-- An array takes its bracket. -/
theorem array_advances (b : s.From source p) : Advances source (array parse) s := by
  refine .look _ rfl ((expect_advances b.toInScript _).first fun _ s1 h1 hfront => ?_)
  have b1 := b.past h1 hfront
  refine (items_goesOn (fun _ => ⟨_, rfl⟩) h1.script fun s' h => ?_).bind fun elements s2 h2 => ?_
  · refine Proceeds.bind (eat_proceeds h.script ",") fun found s2 h2 hfound => ?_
    refine .ite (fun hat => .pure h2.script (hfound hat)) fun _ => .after h2 ?_
    refine (spreadable_advances hp (h2.past (h.past b1))).first fun element s3 h3 _ => ?_
    exact (eat_goesOn h3.script ",").bind fun _ s4 h4 => .pure h4.script trivial
  · exact (expect_advances h2.script _).goesOn.bind fun _ s3 h3 => node_goesOn h3.script

/-- A member of an object takes its key, or the three dots. -/
theorem objectMember_advances (b : s.Past source p) : Advances source (objectMember parse) s := by
  refine .look _ rfl ((eat_goesOn b.toInScript _).later fun found s1 h1 => ?_)
  have b1 := h1.past b
  -- what is spread, or a member
  refine .ite (fun _ => ?_) fun _ => ?_
  · exact (hp.past .assignment trivial b1).first fun argument s2 h2 _ => node_goesOn h2.script
  · -- modifiers may be missing: only the key is sure to be past
    refine (isModifier_goesOn h1.script _ _).later fun isAsync s2 h2 => ?_
    refine when_proceeds h2.script (fun _ => skip_goesOn h2.script) fun s3 h3 => .after h3 ?_
    refine (eat_goesOn h3.script _).later fun generator s4 h4 => ?_
    have b4 := h4.past (h3.past (h2.past b1))
    refine methodKind_advances h4.script fun kind s5 h5 => ?_
    refine (propertyKey_advances hp (h5.past b4).from).first fun r s6 h6 _ => .look _ rfl ?_
    have b6 := h6.past (h5.past b4)
    -- a method, a property with a value, or one without
    refine .ite (fun _ => ?_) fun _ => ?_
    · refine (params_advances hp b6.from).goesOn.bind fun params s7 h7 => ?_
      refine (block_advances hp (h7.past b6).from).goesOn.bind fun body s8 h8 => ?_
      exact node_goesOn h8.script
    · refine (eat_goesOn h6.script _).bind fun found s7 h7 => .ite (fun _ => ?_) fun _ => ?_
      · refine (hp.past .assignment trivial (h7.past b6)).goesOn.bind fun value s8 h8 => ?_
        exact node_goesOn h8.script
      · split
        next name _ =>
          refine (eat_goesOn h7.script _).bind fun found s8 h8 => .ite (fun _ => ?_) fun _ => ?_
          · have b8 := h8.past (h7.past b6)
            refine (hp.past .assignment trivial b8).goesOn.bind fun value s9 h9 => ?_
            exact (node_goesOn h9.script).bind fun pattern s10 h10 => node_goesOn h10.script
          · exact node_goesOn h8.script
        next => exact want_proceeds h7.script _

/-- An object takes its brace. -/
theorem object_advances (b : s.From source p) : Advances source (object parse) s :=
  .look _ rfl (bracketed_advances b (fun _ => objectMember_advances hp) fun _ _ b1 =>
    node_goesOn b1.toInScript)

/-- A target takes its bracket or its name. -/
theorem bindingTarget_advances (b : s.From source p) : Advances source (bindingTarget parse) s := by
  refine .look _ rfl (.ite (fun _ => object_advances hp b) fun _ => ?_)
  refine .look _ rfl (.ite (fun _ => array_advances hp b) fun _ => ?_)
  exact .look _ rfl (.ite (fun _ => identifier_advances b.toInScript) fun _ =>
    want_proceeds b.toInScript _)

/-! ### Templates -/

omit hp in
/-- The scanner stands in the text of a template of a script. -/
structure State.InTemplate (source : Source) (s : State) : Prop extends InText s where
  placed : s.scanner.Placed
  source : s.scanner.source = source
  html : s.html = false
  unstalled : s.stalled = false

omit hp in
/-- Where the parser stands in a script it may go on with template text. -/
theorem State.InScript.inTemplate (hs : s.InScript source) : s.InTemplate source :=
  ⟨hs.toReady.inText, hs.placed, hs.source, hs.html, hs.unstalled⟩

omit hp in
/-- A piece of text is passed over, and the token behind it is read. -/
theorem chunk_proceeds {f : Scan.TemplateChunk → Node → Parse α} {Q : α → State → Prop}
    (hs : s.InTemplate source)
    (hf : ∀ chunk quasi s', s.Onward source s' → Proceeds source (f chunk quasi) s' Q) :
    Proceeds source (do
      let chunk ← scan Scan.templateChunk
      let quasi ← nodeAt chunk.span (.templateElement chunk.raw chunk.tail)
      let s ← get
      set { s with lastEnd := s.scanner.position }
      let next ← scan (Scan.next .script)
      modify fun s => { s with token := next }
      f chunk quasi) s Q := by
  refine scan_proceeds hs.html hs.unstalled (Scan.templateChunk_leads hs.tidy)
    Scan.templateChunk_unexhausted fun chunk scanner htidy hprecedes hspan _ => ?_
  -- the position of the text is put before the next token is scanned
  have hback : s.back ≤ scanner.position.offset := Nat.le_trans hs.back hprecedes.position
  refine .resume { s with scanner, nextId := s.nextId + 1, lastEnd := scanner.position }
    (y := do
      let next ← scan (Scan.next .script)
      modify fun s => { s with token := next }
      f chunk (.mk s.nextId chunk.span (.templateElement chunk.raw chunk.tail))) rfl
    ⟨Nat.le_succ _, hback, Nat.le_refl _, .refl _, id, .same rfl rfl, Nat.le_max_left _ _⟩ ?_
  have hplaced := hprecedes.placed hs.placed
  -- the token behind the text comes after it
  refine scan_proceeds hs.html hs.unstalled (Scan.next_leads htidy .script)
    (Scan.next_nonempty htidy hplaced ⟨nofun, nofun⟩) fun next scanner' htidy' hprecedes' hspan' hnext => ?_
  have hfront : s.front ≤ next.span.start.offset :=
    Nat.le_trans hs.front (Nat.le_trans hprecedes.position hspan'.start)
  refine .resume { s with
    scanner := scanner', nextId := s.nextId + 1, lastEnd := scanner.position, token := next } rfl
    ⟨Nat.le_refl _, Nat.le_refl _, hfront, .refl _, id, .same rfl rfl, Nat.le_max_left _ _⟩ (hf _ _ _ ⟨?_, ?_⟩)
  · exact ⟨Nat.le_succ _, hback, hfront, hprecedes.trans hprecedes', id, .same rfl rfl, Nat.le_max_left _ _⟩
  · exact ⟨⟨htidy', hspan'.start, hspan'.order, hspan'.stop⟩, hprecedes'.placed hplaced,
      hprecedes'.source.trans (hprecedes.source.trans hs.source), hs.html, hnext, hs.unstalled⟩

/-- The texts of a template may be empty, but there is an expression between two of them. -/
theorem templateParts_goesOn (n : Nat) (hs : s.InTemplate source) (hpast : p < s.back)
    (hn : source.size + 1 ≤ n + s.back) : GoesOn source (templateParts parse n) s := by
  -- by induction on the rounds: those that are left reach up to the end of the source
  induction n generalizing s with
  | zero =>
    have hsize := hs.placed.le_size
    rw [hs.source] at hsize
    have := hs.back
    omega
  | succ n ih =>
    -- the last text ends the template, another is followed by an expression
    refine .look _ rfl (chunk_proceeds hs fun chunk quasi s1 h1 => .ite (fun _ => ?_) fun _ => ?_)
    · exact .pure h1.script trivial
    · have b1 : s1.Past source p := ⟨h1.script, Nat.lt_of_lt_of_le hpast h1.before.back⟩
      refine Proceeds.bind (hp.past .expression trivial b1) fun expression s2 h2 hfront => ?_
      refine .look _ rfl (unless_proceeds (want_proceeds h2.script _) fun _ => ?_)
      -- the expression is not empty, so one round less is enough
      have hlt : s.back < s2.back :=
        Nat.lt_of_le_of_lt h1.before.back (h1.script.lt_back hfront)
      refine .look _ (onward_apply hlt) ?_
      refine (ih h2.script.inTemplate (h2.past b1).past (by omega)).bind fun _ s3 h3 => ?_
      exact .pure h3.script trivial

/-- A template takes its quote; texts in it may be empty, but what ends them is not. -/
theorem template_advances (b : s.From source p) : Advances source (template parse) s := by
  have hs := b.toInScript
  refine .look _ rfl (.look _ rfl (unless_proceeds (want_proceeds hs _) fun hat => ?_))
  have hlt : s.front < s.token.span.stop.offset :=
    hs.nonempty (isOne_not_end (by simpa using hat))
  -- the opening quote is taken, but no token is read behind it
  have htemplate : State.InTemplate source { s with lastEnd := s.token.span.stop } :=
    ⟨⟨hs.tidy, hs.scanner, Nat.le_trans hs.token hs.scanner⟩, hs.placed, hs.source, hs.html,
      hs.unstalled⟩
  have hpast : p < s.token.span.stop.offset :=
    Nat.lt_of_le_of_lt (Nat.le_trans b.reach hs.front) hlt
  have hn : source.size + 1 ≤ s.scanner.source.size + 2 + s.token.span.stop.offset := by
    rw [hs.source]
    omega
  refine modify_proceeds
    ⟨Nat.le_refl _, Nat.le_trans hs.front hs.token, Nat.le_refl _, .refl _, id, .same rfl rfl, Nat.le_max_left _ _⟩
    (.look _ rfl ?_)
  refine (templateParts_goesOn hp _ htemplate hpast hn).bind fun _ s1 h1 => ?_
  exact .kept (Nat.lt_of_lt_of_le hlt h1.before.back) (node_goesOn h1.script)

end Pieces

/-! ### Markup -/

section Markup

variable {source : Source} {parse : Rule → Parse Node} {p level : Nat} {s : State}
  {start : Position} {after : ScanMode} (hp : Calls source parse p level)

/-- In a script, tags are not read as those of HTML. -/
theorem tagMode_scripted {html : Bool} (h : html = false) :
    (if html then ScanMode.htmlTag else .tag).OutsideHtmlTag := by
  rw [h]
  exact ⟨nofun, nofun⟩

/-- Nor are children. -/
theorem childMode_scripted {html : Bool} (h : html = false) :
    (if html then ScanMode.htmlChild else .child).OutsideHtmlTag := by
  rw [h]
  exact ⟨nofun, nofun⟩

/-- A name in markup takes its token. -/
theorem markupIdentifier_advances (hs : s.InScript source) (wanted : Wanted) :
    Advances source (markupIdentifier wanted) s := by
  refine .look _ rfl (.look _ rfl (unless_proceeds (want_proceeds hs _) fun hat => .look _ rfl ?_))
  have hne : s.token.kind ≠ .endOfInput := by
    intro hend
    rw [hend] at hat
    exact hat rfl
  refine Proceeds.bind (advance_proceeds hs _ (tagMode_scripted hs.html)) fun token s1 h1 hfront => ?_
  exact .kept (hfront hne) (node_goesOn h1.script)

/-- The name of a tag takes its first name. -/
theorem tagName_advances (hs : s.InScript source) : Advances source tagName s := by
  refine .look _ rfl ((markupIdentifier_advances hs _).first fun name s1 h1 _ => ?_)
  -- a name with a prefix, or one with members
  refine .look _ rfl (.ite (fun _ => .look _ rfl ?_) fun _ => ?_)
  · refine (pass_goesOn h1.script (tagMode_scripted h1.script.html)).bind fun _ s2 h2 => ?_
    refine (markupIdentifier_advances h2.script _).goesOn.bind fun inner s3 h3 => ?_
    exact node_goesOn h3.script
  · refine extend_goesOn h1.script name fun object s2 h2 => .look _ rfl ?_
    refine .ite (fun hat => .look _ rfl ?_) fun _ => .pure h2.script nofun
    -- a point is passed in every round
    refine Proceeds.bind (pass_advances h2.script (tagMode_scripted h2.script.html) (isOne_not_end hat))
      fun _ s3 h3 hfront => ?_
    refine (markupIdentifier_advances h3.script _).goesOn.bind fun property s4 h4 => ?_
    exact (node_goesOn h4.script).bind fun _ s5 h5 => .pure h5.script fun _ =>
      Nat.lt_of_lt_of_le hfront (h4.trans h5).before.back

include hp

/-- An element takes its bracket, behind which the rest of it is called. -/
theorem element_advances (b : s.From source p) (hne : s.token.kind ≠ .endOfInput)
    (hafter : after.OutsideHtmlTag) : Advances source (element parse after) s := by
  refine .look _ rfl (.look _ rfl ?_)
  refine (pass_advances b.toInScript (tagMode_scripted b.html) hne).first fun _ s1 h1 hfront => ?_
  exact (hp.past (.element _ after) hafter (b.past h1 hfront)).goesOn

/-- An expression in braces takes its brace. -/
theorem expressionContainer_advances (b : s.From source p) (hne : s.token.kind ≠ .endOfInput)
    (hafter : after.OutsideHtmlTag) (child : Bool) :
    Advances source (expressionContainer parse after child) s := by
  refine .look _ rfl ((skip_advances b.toInScript hne).first fun _ s1 h1 hfront => ?_)
  have b1 := b.past h1 hfront
  -- an empty interpolation is a node of its own
  refine .look _ rfl (.ite (fun _ => .get_bind ?_) fun _ => ?_)
  · refine (nodeAt_goesOn h1.script).bind fun empty s2 h2 => ?_
    refine (expectPunctuator_advances h2.script _ hafter).goesOn.bind fun _ s3 h3 => ?_
    exact node_goesOn h3.script
  · -- another may be spread
    refine .either (P := fun _ _ => True) (fun _ => eat_goesOn h1.script _)
      (fun _ => .pure h1.script trivial) fun spread s2 h2 _ => ?_
    refine (hp.past .expression trivial (h2.past b1)).goesOn.bind fun expression s3 h3 => ?_
    refine (expectPunctuator_advances h3.script _ hafter).goesOn.bind fun _ s4 h4 => ?_
    exact node_goesOn h4.script

/-- The value of an attribute is read behind its equals sign. -/
theorem attributeValue_goesOn (b : s.Past source p) : GoesOn source (attributeValue parse) s := by
  -- outside HTML the value is scanned in the mode of a tag
  have hmode : (if s.html then .htmlValue else
      if s.html then ScanMode.htmlTag else .tag).OutsideHtmlTag := by
    rw [b.html]
    exact ⟨nofun, nofun⟩
  refine .get_bind (.look _ rfl ((pass_goesOn b.toInScript hmode).bind fun _ s1 h1 => ?_))
  have b1 := (h1.past b).from
  -- a text, an interpolation or an element
  refine .look _ rfl (.look _ rfl (.ite (fun _ => .look _ rfl ?_) fun _ => ?_))
  · refine (pass_goesOn h1.script (tagMode_scripted h1.script.html)).bind fun _ s2 h2 => ?_
    exact node_goesOn h2.script
  · refine .ite (fun hat => .look _ rfl ?_) fun _ => .ite (fun hat => .look _ rfl ?_) fun _ => ?_
    · rw [Bool.and_eq_true] at hat
      exact (expressionContainer_advances hp b1 (isOne_not_end hat.2) (tagMode_scripted h1.script.html)
        false).goesOn
    · rw [Bool.and_eq_true] at hat
      exact (element_advances hp b1 (isOne_not_end hat.2) (tagMode_scripted h1.script.html)).goesOn
    · exact want_proceeds h1.script _

/-- An attribute takes its name, or the brace of what is spread. -/
theorem tagAttribute_advances (b : s.Past source p) :
    Advances source (tagAttribute parse) s := by
  -- an interpolation in the place of an attribute, or a name
  refine .look _ rfl (.get_bind (.look _ rfl (.ite (fun hat => ?_) fun _ => ?_)))
  · rw [Bool.and_eq_true] at hat
    refine (skip_advances b.toInScript (isOne_not_end hat.2)).first fun _ s1 h1 _ => ?_
    refine (expect_advances h1.script _).goesOn.bind fun _ s2 h2 => ?_
    have b2 := h2.past (h1.past b)
    refine (hp.past .assignment trivial b2).goesOn.bind fun argument s3 h3 => .look _ rfl ?_
    refine (expectPunctuator_advances h3.script _ (tagMode_scripted h3.script.html)).goesOn.bind fun _ s4 h4 => ?_
    exact node_goesOn h4.script
  · refine (markupIdentifier_advances b.toInScript _).first fun first s1 h1 _ => .look _ rfl ?_
    extract_lets finish
    -- behind the name the value may be missing
    have hfinish : ∀ name s2, s2.Past source p → GoesOn source (finish name) s2 := by
      intro name s2 b2
      refine .look _ rfl (optional_goesOn b2.toInScript (fun _ => attributeValue_goesOn hp b2) ?_)
      exact fun value s3 h3 => node_goesOn h3.script
    refine .ite (fun _ => .look _ rfl ?_) fun _ => hfinish first s1 (h1.past b)
    refine (pass_goesOn h1.script (tagMode_scripted h1.script.html)).bind fun _ s2 h2 => ?_
    refine (markupIdentifier_advances h2.script _).goesOn.bind fun inner s3 h3 => ?_
    exact (node_goesOn h3.script).bind fun name s4 h4 =>
      hfinish name s4 (h4.past (h3.past (h2.past (h1.past b))))

/-- A child takes a token, also if it is text. -/
theorem child_advances (b : s.From source p) {mode : ScanMode} (hmode : mode.OutsideHtmlTag)
    (topLevel : Bool) : Advances source (child parse mode topLevel) s := by
  have hs := b.toInScript
  refine .look _ rfl (.look _ rfl (.ite (fun hkind => ?_) fun _ => .ite (fun hkind => ?_) fun _ => ?_))
  · exact (pass_advances hs hmode (hkind ▸ nofun)).first fun _ s1 h1 _ => node_goesOn h1.script
  · exact (pass_advances hs hmode (hkind ▸ nofun)).first fun _ s1 h1 _ => node_goesOn h1.script
  · refine .ite (fun hat => ?_) fun _ => .ite (fun hat => ?_) fun _ => ?_
    · exact expressionContainer_advances hp b (isOne_not_end hat) hmode true
    · rw [Bool.and_eq_true] at hat
      exact element_advances hp b (isOne_not_end hat.2) hmode
    · exact failAhead_proceeds hs nofun

/-- Each child takes a token, and so does the bracket of an element. -/
theorem childrenUpTo_goesOn {mode : ScanMode} (hmode : mode.OutsideHtmlTag) (n : Nat)
    (b : s.Past source p) (hn : source.size + 1 ≤ n + s.back) :
    GoesOn source (childrenUpTo parse mode n) s := by
  induction n generalizing s with
  | zero =>
    have := b.le_size
    omega
  | succ n ih =>
    have hmore : ∀ (first : Node) (s1 : State), s.Onward source s1 → s.front < s1.back →
        GoesOn source (do
          onward s.back
          let r ← childrenUpTo parse mode n
          return (first :: r.1, r.2)) s1 := by
      intro first s1 h1 hfront
      have hlt : s.back < s1.back := b.lt_back hfront
      refine .look _ (onward_apply hlt) ?_
      exact (ih (h1.past b) (by omega)).bind fun _ s2 h2 => .pure h2.script trivial
    have hs := b.toInScript
    refine .look _ rfl (.look _ rfl ?_)
    refine unless_proceeds (failAhead_proceeds hs nofun) fun _ => .look _ rfl ?_
    refine .ite (fun hat => .look _ rfl (.look _ rfl ?_)) fun _ => ?_
    · -- the bracket is taken before it is known whether it opens an element or closes this one
      refine Proceeds.bind (pass_advances hs (tagMode_scripted hs.html) (isOne_not_end hat))
        fun _ s1 h1 hfront => .look _ rfl ?_
      refine .ite (fun _ => .pure h1.script trivial) fun _ => ?_
      refine (hp.past (.element _ mode) hmode (h1.past b)).goesOn.bind fun element s2 h2 => ?_
      exact hmore element s2 (h1.trans h2) (Nat.lt_of_lt_of_le hfront h2.before.back)
    · refine Proceeds.bind (child_advances hp b.from hmode false) fun first s1 h1 hfront => ?_
      exact hmore first s1 h1 hfront

/-- Children take tokens, so the rounds of their loop suffice. -/
theorem children_goesOn (b : s.Past source p) : GoesOn source (children parse) s :=
  .look _ rfl (.look _ rfl
    (childrenUpTo_goesOn hp (childMode_scripted b.html) _ b (rounds_enough b.toInScript)))

/-- A fragment takes its brackets. -/
theorem fragment_advances (b : s.From source p) (hne : s.token.kind ≠ .endOfInput)
    (hafter : after.OutsideHtmlTag) : Advances source (fragment parse start after) s := by
  refine .look _ rfl ?_
  refine (pass_advances b.toInScript (childMode_scripted b.html) hne).first fun _ s1 h1 hfront => ?_
  refine (node_goesOn h1.script).bind fun opening s2 h2 => ?_
  refine (children_goesOn hp (h2.past (b.past h1 hfront))).bind fun r s3 h3 => .look _ rfl ?_
  refine (pass_goesOn h3.script (tagMode_scripted h3.script.html)).bind fun _ s4 h4 => ?_
  refine (expectPunctuator_advances h4.script _ hafter).goesOn.bind fun _ s5 h5 => ?_
  exact (node_goesOn h5.script).bind fun closing s6 h6 => node_goesOn h6.script

/-- An element with a name takes that name. -/
theorem namedElement_advances (b : s.From source p) (hafter : after.OutsideHtmlTag) :
    Advances source (namedElement parse start after) s := by
  refine (tagName_advances b.toInScript).first fun name s1 h1 hfront => ?_
  have b1 := b.past h1 hfront
  -- every attribute brings the parser onward; the end of the input is refused
  refine (items_goesOn (fun _ => ⟨_, rfl⟩) h1.script fun s' h => ?_).bind
    fun attributes s2 h2 => .look _ rfl ?_
  · refine .look _ rfl (unless_proceeds (want_proceeds h.script _) fun _ => ?_)
    exact (tagAttribute_advances hp (h.past b1)).first fun _ _ h2 _ => .pure h2.script trivial
  extract_lets text finish
  -- the opening tag is past; with children, the closing tag follows
  have hfinish : ∀ u s3, s3.Past source p → GoesOn source (finish u) s3 := by
    intro u s3 b3
    refine .get_bind (.look _ rfl ?_)
    -- the mode behind the tag is one outside it, whether there are children or not
    have hmode : ∀ selfClosing : Bool, (if selfClosing then after else
        if s3.html then .htmlChild else .child).OutsideHtmlTag := by
      rintro (_ | _)
      · exact childMode_scripted b3.html
      · exact hafter
    refine (expectPunctuator_advances b3.toInScript _ (hmode _)).goesOn.bind fun _ s4 h4 => ?_
    refine (node_goesOn h4.script).bind fun opening s5 h5 => ?_
    refine .ite (fun _ => node_goesOn h5.script) fun _ => ?_
    refine (children_goesOn hp (h5.past (h4.past b3))).bind fun r s6 h6 => .look _ rfl ?_
    refine (pass_goesOn h6.script (tagMode_scripted h6.script.html)).bind fun _ s7 h7 => ?_
    refine (tagName_advances h7.script).goesOn.bind fun closingName s8 h8 => ?_
    refine unless_proceeds (fail_proceeds h8.script _ nofun) fun _ => ?_
    refine (expectPunctuator_advances h8.script _ hafter).goesOn.bind fun _ s9 h9 => ?_
    exact (node_goesOn h9.script).bind fun closing s10 h10 => node_goesOn h10.script
  refine .ite (fun _ => .look _ rfl ?_) fun _ => hfinish ⟨⟩ s2 (h2.past b1)
  exact (pass_goesOn h2.script (tagMode_scripted h2.script.html)).bind fun u s3 h3 =>
    hfinish u s3 (h3.past (h2.past b1))

/-- Behind its bracket, an element takes a bracket or a name. -/
theorem elementBody_advances (b : s.From source p) (hafter : after.OutsideHtmlTag) :
    Advances source (elementBody parse start after) s := by
  refine nested_advances b.toInScript fun depth => .look _ rfl (.ite (fun hat => ?_) fun _ => ?_)
  · exact fragment_advances hp (b.depth depth) (isOne_not_end hat) hafter
  · exact namedElement_advances hp (b.depth depth) hafter

end Markup

end Reflow.Grammar
