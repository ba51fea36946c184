import Reflow.Format.Text
import Reflow.Proofs.Print.Marks

/-!
# Which comments are shown

A comment is printed with its node, if the printers come to the node and print comments on that side
of it.  `Visit.next` says where they go from a node, `Visit.shown` which comments they print there,
and `Shown` puts the two together.  A comment that is not `Shown` is the one that formatting gives up
on.

The printers pass over empty statements in a sequence, texts of attributes, names that are written
once, the texts of a template that is formatted in its own language, and all that does not show
between tags.  Comments inside a node are printed by few forms only.  A node that is left as it is
brings the comments in its range along, and nothing else of what is attached below it.

## Key results

- `shown_iff`: one step of the way
- `shown_of_kept`, `shown_of_not_kept`: what is shown at a node that is left as it is, and at others
- `shown_mem`: only comments of the source are shown
-/

namespace Reflow

/-- The paths of all children of a path's node. -/
def Path.inside (p : Path) : List Path := p.node.placedChildren.map fun x => p.childAt x.1 x.2

/-- A node that the printers come to.  `inline` if its parent prints it as a part of its own: a link
of a chain, an operand of a chain of operators, or a key without its quotes. -/
structure Visit where
  path : Path
  inline : Bool := false

namespace Print

/-- Is a call with one argument printed around a template over several lines? -/
def hangs (source : Source) (args : List Node) : Bool :=
  match args with
  | [only] => only.isHangingTemplate source
  | _ => false

/-- Is a call printed as a chain of accesses? -/
def printsAsChain (source : Source) (p : Path) (callee : Node) (args : List Node) : Bool :=
  callee.isMember && !p.node.isTestCall && !hangs source args

/-- Is there nothing to print between the tags of an element? -/
def isHollow (children : List Node) : Bool :=
  children.isEmpty || (children.length = 1 && children.all Node.isHiddenText)

/-- Can a text be read in the language? -/
def reads (language : Language) (text : String) : Bool :=
  match language with
  | .css => (Stylesheet.read (.ofString text)).isOk
  | _ => (Grammar.parse (.ofString text) (language == .html)).isOk

/-- What is printed of a template: its texts and expressions, only the expressions if it is formatted
in its own language, or nothing if it is blank. -/
inductive TemplateParts where
  | all
  | expressions
  | nothing
  deriving DecidableEq

/-- What is printed of a template. -/
def templateParts (a : Attachments) (p : Path) (quasis expressions : List Node) : TemplateParts :=
  let texts := quasis.map Node.rawText
  match p.embeddedLanguage? a with
  | some .css =>
    if Embed.isBlankTemplate texts then .nothing
    else if reads .css (Embed.payload .css texts) then .expressions else .all
  | some .html =>
    if expressions.isEmpty && Embed.isBlankTemplate texts then .nothing
    else if reads .html (Embed.payload .html texts) then .expressions else .all
  | _ => .all

end Print

namespace Visit

variable (c : PrintContext) (v : Visit)

/-- Is the node left as it is?  A node that is printed as a part of its parent never is. -/
def isKept : Bool :=
  !v.inline && (c.attachments.isIgnored v.path.node || v.path.isIgnoredBySibling c.attachments)

/-- Do the printers go from a node to the child at a path? -/
def goesTo (q : Path) : Bool :=
  match v.path.node.form with
  | .program _ | .block _ | .classBody _ => !q.node.isEmptyStatement
  | .classDeclaration .. =>
    -- decorators before an export are printed with it
    q.slot? ≠ some .decorators || !v.path.parent?.any Node.isDecoratedBeforeExport
  | .importSpecifier imported binding => q.slot? = some .imported || !imported.same binding
  | .exportSpecifier binding exported => q.slot? = some .localName || !binding.same exported
  | .exportNamedDeclaration (some _) _ _ => q.slot? = some .declaration
  | .objectProperty _ _ _ true => q.slot? = some .value
  | .templateLiteral quasis expressions =>
    match Print.templateParts c.attachments v.path quasis expressions with
    | .all => true
    | .expressions => q.slot? = some .expressions
    | .nothing => false
  | .jsxAttribute .. => q.slot? = some .name || !q.node.isString
  | .jsxElement _ children _ =>
    q.slot? = some .openingElement
      || (!Print.isHollow children
        && (q.slot? = some .closingElement || Print.isSoleTemplate children
          || !(q.node.markupText?.isSome || q.node.isSpaceExpression c.attachments)))
  | .jsxFragment _ children _ =>
    q.slot? ≠ some .children || Print.isSoleTemplate children
      || !(q.node.markupText?.isSome || q.node.isSpaceExpression c.attachments)
  | .markupRoot _ => q.node.markupText?.isNone
  | _ => true

/-- Is the child at a path printed as a part of the node? -/
def inlines (q : Path) : Bool :=
  match v.path.node.form with
  | .callExpression callee args _ =>
    q.slot? = some .callee && (v.inline || Print.printsAsChain c.source v.path callee args)
      && callee.chainStep?.isSome
  | .memberExpression object _ _ _ =>
    q.slot? = some .object && v.inline && object.chainStep?.isSome
  | .binaryExpression operator left _ | .logicalExpression operator left _ =>
    q.slot? = some .left && left.joinsChain operator
  | .objectProperty key _ computed _ | .classProperty _ key _ computed _
  | .classMethod _ key _ _ _ computed _ _ _ | .objectMethod key _ _ _ computed _ _ =>
    q.slot? = some .key && !computed && key.unquotedKey?.isSome
  | _ => false

/-- The decorators of an exported class that stand before the export. -/
def earlyDecorators (p : Path) : List Path :=
  match p.node.form.exported? with
  | some declaration =>
    if p.node.isDecoratedBeforeExport then
      (p.child .declaration declaration).items .decorators declaration.form.decorators
    else []
  | none => []

/-- Where the printers go from a node. -/
def next : List Visit :=
  if v.isKept c then []
  else (v.path.inside.filter (v.goesTo c)).map (fun q => ⟨q, v.inlines c q⟩)
    ++ (earlyDecorators v.path).map ({ path := · })

/-- Is a comment inside the node printed? -/
def showsInside (x : Comment) : Bool :=
  let closes : Bool := c.source.nextCharacter? x.stop == some ')'
  match v.path.node.form with
  | .program _ | .block _ | .returnStatement _ | .arrayExpression _ | .exportNamedDeclaration ..
  | .exportDefaultDeclaration _ | .jsxEmptyExpression | .jsxOpeningFragment
  | .jsxClosingFragment => true
  | .ifStatement _ _ alternate => alternate.isSome
  | .classBody members => members.isEmpty
  | .objectExpression properties => properties.isEmpty
  | .callExpression callee args _ => args.isEmpty && !callee.isNamed ["require", "define"]
  | .newExpression _ args => args.isEmpty
  | .functionDeclaration _ params _ _ _ | .functionExpression _ params _ _ _
  | .classMethod _ _ params _ _ _ _ _ _ | .objectMethod _ params _ _ _ _ _ =>
    params.isEmpty && closes
  | .arrowFunction params _ _ =>
    (params.isEmpty && closes)
      || (c.source.nextCharacterIndex x.stop).any fun i =>
        Text.startsWith (c.source.charsFrom i) ['=', '>']
  | _ => false

/-- A child whose comments its parent prints. -/
def borrowed : Option Node :=
  match v.path.node.form with
  | .jsxSpreadAttribute e | .jsxSpreadChild e => some e
  | .classDeclaration _ _ superclass _ _ => superclass
  | _ => none

/-- The comments before and behind a node that are printed around it.  Those of a child that its
parent borrows are printed by the parent. -/
def own : List Comment :=
  if !v.inline && Print.printsOwnComments v.path && !v.path.node.isMarkup then []
  else c.attachments.around v.path.node

/-- The comments that are printed with a node. -/
def shown : List Comment :=
  let n := v.path.node
  if v.isKept c then
    c.comments.filter (fun x => n.start ≤ x.start && x.stop ≤ n.stop) ++ c.attachments.around n
  else
    v.own c ++ (c.attachments.inside n).filter (v.showsInside c)
      ++ v.borrowed.toList.flatMap c.attachments.around

end Visit

/-- The comment is printed when the printers come to a node. -/
inductive Shown (c : PrintContext) : Visit → Comment → Prop
  | here {v : Visit} {x : Comment} (h : x ∈ v.shown c) : Shown c v x
  | deeper {v w : Visit} {x : Comment} (hw : w ∈ v.next c) (h : Shown c w x) : Shown c v x

/-- A comment is shown at a visit if it is shown there or at one of the next visits. -/
theorem shown_iff {c : PrintContext} {v : Visit} {x : Comment} :
    Shown c v x ↔ x ∈ v.shown c ∨ ∃ w ∈ v.next c, Shown c w x := by
  constructor
  · rintro (h | ⟨hw, h⟩)
    · exact .inl h
    · exact .inr ⟨_, hw, h⟩
  · rintro (h | ⟨w, hw, h⟩)
    · exact .here h
    · exact .deeper hw h

/-- What is shown inside a node that is not left as it is. -/
def Visit.inner (c : PrintContext) (v : Visit) : Set Comment :=
  {x | x ∈ (c.attachments.inside v.path.node).filter (v.showsInside c) ∨
    (∃ n ∈ v.borrowed, x ∈ c.attachments.around n) ∨
    (∃ q ∈ v.path.inside, v.goesTo c q = true ∧ Shown c ⟨q, v.inlines c q⟩ x) ∨
    ∃ q ∈ Visit.earlyDecorators v.path, Shown c { path := q } x}

/-- A node that is left as it is brings the comments in its range along. -/
theorem shown_of_kept {c : PrintContext} {v : Visit} {x : Comment} (h : v.isKept c = true) :
    Shown c v x ↔
      x ∈ c.comments.filter (fun x => v.path.node.start ≤ x.start && x.stop ≤ v.path.node.stop) ∨
      x ∈ c.attachments.around v.path.node := by
  rw [shown_iff]
  simp only [Visit.shown, Visit.next, h, if_true, List.mem_append, List.not_mem_nil, false_and,
    exists_false, or_false]

/-- Where a node is not kept as it is, its own comments and those inside are shown. -/
theorem shown_of_not_kept {c : PrintContext} {v : Visit} {x : Comment}
    (h : v.isKept c = false) : Shown c v x ↔ x ∈ v.own c ∨ x ∈ v.inner c := by
  rw [shown_iff]
  simp only [Visit.shown, Visit.next, h, Bool.false_eq_true, if_false, List.mem_append,
    List.mem_flatMap, List.mem_map, Option.mem_toList, Visit.inner, Set.mem_ofPred_eq]
  -- the same five kinds, in either order of the cases
  constructor
  · rintro (((hx | hx) | hx) | ⟨_, ⟨q, hq, rfl⟩ | ⟨q, hq, rfl⟩, hx⟩)
    · exact .inl hx
    · exact .inr (.inl hx)
    · exact .inr (.inr (.inl hx))
    · obtain ⟨hmem, hgoes⟩ := List.mem_filter.1 hq
      exact .inr (.inr (.inr (.inl ⟨q, hmem, hgoes, hx⟩)))
    · exact .inr (.inr (.inr (.inr ⟨q, hq, hx⟩)))
  · rintro (hx | hx | hx | ⟨q, hmem, hgoes, hx⟩ | ⟨q, hq, hx⟩)
    · exact .inl (.inl (.inl hx))
    · exact .inl (.inl (.inr hx))
    · exact .inl (.inr hx)
    · exact .inr ⟨_, .inl ⟨q, List.mem_filter.2 ⟨hmem, hgoes⟩, rfl⟩, hx⟩
    · exact .inr ⟨_, .inr ⟨q, hq, rfl⟩, hx⟩

/-- Only comments of the source are shown. -/
theorem shown_mem {c : PrintContext} {v : Visit} {x : Comment}
    (hattached : ∀ n, ∀ a ∈ c.attachments.of n, a.comment ∈ c.comments) (h : Shown c v x) :
    x ∈ c.comments := by
  -- comments around or inside a node are attached to it
  have haround : ∀ {n : Node}, x ∈ c.attachments.around n → x ∈ c.comments := by
    intro n hx
    obtain ⟨a, ha, rfl⟩ := List.mem_map.1 hx
    exact hattached n a (List.mem_filter.1 ha).1
  have hinside : ∀ {n : Node}, x ∈ c.attachments.inside n → x ∈ c.comments := by
    intro n hx
    obtain ⟨a, ha, rfl⟩ := List.mem_map.1 hx
    exact hattached n a (List.mem_filter.1 ha).1
  -- by induction on how the comment comes to be shown
  induction h with
  | here hx =>
    unfold Visit.shown at hx
    split at hx
    next =>
      rcases List.mem_append.1 hx with hx | hx
      · exact (List.mem_filter.1 hx).1
      · exact haround hx
    next =>
      rcases List.mem_append.1 hx with hx | hx
      · rcases List.mem_append.1 hx with hx | hx
        · unfold Visit.own at hx
          split at hx
          · cases hx
          · exact haround hx
        · exact hinside (List.mem_filter.1 hx).1
      · obtain ⟨n, -, hx⟩ := List.mem_flatMap.1 hx
        exact haround hx
  | deeper _ _ ih => exact ih haround hinside

/-- What is printed as a part of its parent is never left as it is. -/
theorem shown_inline {c : PrintContext} {p : Path} {x : Comment} :
    Shown c ⟨p, true⟩ x ↔ x ∈ c.attachments.around p.node ∨ x ∈ Visit.inner c ⟨p, true⟩ :=
  shown_of_not_kept rfl

end Reflow
