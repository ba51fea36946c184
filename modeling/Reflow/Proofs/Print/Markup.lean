import Reflow.Proofs.Print.Parts

/-!
# What markup marks

Attributes, tags and what stands between tags.  Texts are not printed as nodes, and neither is a
space that is written as an expression, so that comments on them are not shown.

## Key results

- `markupItems_marks`: the children of an element that are printed
- `elementBody_marks`, `fragmentBody_marks`: elements and fragments
-/

namespace Reflow.Print

variable {c : PrintContext} {F : FormatFault → Prop} {root : Node} {d : Nat} {p : Path}
  {print : PrintNode} (hp : Prints c F root d print)

section

-- where the printers go is read off the form
attribute [local simp] Visit.inner Visit.goesTo Visit.inlines Visit.showsInside Visit.borrowed
  Visit.earlyDecorators Form.exported? Path.inside_eq Path.ofField Form.fields Path.mem_items seen
  seenAll

include hp

/-- An attribute marks what is shown at its name and at its value. -/
theorem tagAttribute_marks {name : Node} {value : Option Node}
    (hform : p.node.form = .jsxAttribute name value) (hname : root.Below d name)
    (hvalue : ∀ n ∈ value, root.Below d n) :
    Marks c F (tagAttribute print p name value) (Visit.inner c { path := p }) := by
  unfold tagAttribute
  cases value with
  | none =>
    refine ((child_marks hp hname).last fun _ => .pure _).congr ?_
    ext x
    simp [hform]
  | some v =>
    refine ((child_marks hp hname).bind (T := {x | v.isString = false ∧
      Shown c { path := p.child .value v } x}) fun _ => ?_).congr ?_
    · -- a string is printed as it is, and any other value as a node
      dsimp only
      split
      next hv => exact (Marks.quiet fun _ _ => ⟨_, _, rfl⟩).congr (by simp [Node.isString, hv])
      next hv =>
        have hstring : v.isString = false := by
          unfold Node.isString
          split
          next h => exact absurd h (hv _ _)
          next => rfl
        refine ((child_marks hp (hvalue v rfl)).last fun _ => .pure _).congr ?_
        simp [hstring]
    · ext x
      simp [hform]

omit hp in
/-- Where no comments are attached there are none around. -/
theorem around_eq_nil {n : Node} (h : c.attachments.has n = false) :
    c.attachments.around n = [] := by
  have hnone : c.attachments.of n = [] := by simpa [Attachments.has] using h
  simp [Attachments.around, hnone]

/-- The comments of what is spread are printed by what spreads it. -/
theorem spread_marks {slot : Slot} {n : Node} (hn : root.Below d n) :
    Marks c F (spread print p slot n)
      (seen c (p.child slot n) ∪ {x | x ∈ c.attachments.around n}) := by
  unfold spread
  refine (child_marks hp hn).bind fun _ => ?_
  refine .look (c.attachments.has n) (fun _ _ => rfl) ?_
  cases hcomments : c.attachments.has n with
  | true => exact (withComments_marks n _).last fun _ => .pure _
  | false => exact (Marks.quiet fun _ _ => ⟨_, _, rfl⟩).congr (by simp [around_eq_nil hcomments])

/-- An expression in braces marks what is shown at it. -/
theorem container_marks {e : Node} (he : root.Below d e) :
    Marks c F (container print p e) (seen c (p.child .expression e)) := by
  unfold container
  refine .look _ (fun _ _ => rfl) ?_
  exact (child_marks hp he).last fun _ => .pure _

omit hp in
/-- Empty braces mark what dangles in them. -/
theorem emptyExpression_marks :
    Marks c F (emptyExpression p) {x | x ∈ c.attachments.inside p.node} := by
  unfold emptyExpression
  refine .look _ (fun _ _ => rfl) ?_
  dsimp only
  split
  · exact (indentedDangling_marks p.node).last fun _ => .pure _
  · exact (dangling_marks_all p.node).last fun _ => .pure _

/-- An opening tag marks what is shown at its name and its attributes. -/
theorem openingElement_marks {name : Node} {attributes : List Node} {selfClosing : Bool}
    (hname : root.Below d name) (hattributes : ∀ n ∈ attributes, root.Below d n) :
    Marks c F (openingElement print p name attributes selfClosing)
      (seen c (p.child .name name) ∪ seenAll c (p.items .attributes attributes)) := by
  unfold openingElement
  refine .look _ (fun _ _ => rfl) ?_
  refine (child_marks hp hname).bind fun _ => ?_
  refine .ite (fun h => ?_) fun _ => ?_
  · simp only [Bool.and_eq_true, List.isEmpty_iff] at h
    exact (Marks.pure _).congr (by simp [h.1.2, Path.items])
  · refine (items_marks hp hattributes).last fun _ => ?_
    exact .ite (fun _ => .pure _) fun _ => .quiet fun _ _ => ⟨_, _, rfl⟩

omit hp in
/-- The edge of a fragment marks what dangles in it. -/
theorem fragmentEdge_marks {opening : Bool} :
    Marks c F (fragmentEdge p opening) {x | x ∈ c.attachments.inside p.node} := by
  unfold fragmentEdge
  refine .look _ (fun _ _ => rfl) ?_
  exact (dangling_marks_all p.node).last fun _ => .pure _

/-! ### Elements -/

/-- Does the path lead to the whole of an HTML text? -/
def isTop (p : Path) : Bool := p.node.form matches .markupRoot _

/-- Is a child of markup printed?  A text is not, and neither is a space that is written as an
expression, unless it stands at the top. -/
def showsChild (a : Attachments) (atTop : Bool) (n : Node) : Bool :=
  n.markupText?.isNone && (atTop || !n.isSpaceExpression a)

/-- Children mark what is shown at those that are printed. -/
theorem markupItems_marks {children : List Node} (hchildren : ∀ n ∈ children, root.Below d n) :
    Marks c F (markupItems print p children)
      (seenAll c ((p.items .children children).filter fun q =>
        showsChild c.attachments (isTop p) q.node)) := by
  unfold markupItems
  refine .look _ (fun _ _ => rfl) ?_
  refine (Marks.mapM (S := fun q => {x | showsChild c.attachments (isTop p) q.node = true ∧
    Shown c { path := q } x}) fun q hq => ?_).congr ?_
  · -- a text is split into words and prints nothing else
    cases htext : q.node.markupText? with
    | some raw => exact (Marks.pure _).congr (by simp [showsChild, htext])
    | none =>
      change Marks c F (if (isTop p || !q.node.isSpaceExpression c.attachments) = true then _
        else _) _
      -- a space in braces is shown at the top only
      by_cases h : (isTop p || !q.node.isSpaceExpression c.attachments) = true
      · rw [if_pos h]
        have hbelow := hchildren _ (Path.node_mem_of_mem_items hq)
        refine ((hp q {} hbelow).last fun _ => .pure _).congr ?_
        simp only [showsChild, htext, Option.isNone_none, Bool.true_and, h, true_and]
        rfl
      · rw [if_neg h]
        refine (Marks.pure _).congr ?_
        rw [Bool.not_eq_true] at h
        simp [showsChild, htext, h]
  · ext x
    simp [and_assoc]

/-- What stands between tags marks the children, however it is laid out. -/
theorem betweenTags_marks {children : List Node} {opening closing : Doc} {attributes : Nat}
    {translated : Bool} (hchildren : ∀ n ∈ children, root.Below d n) :
    Marks c F (betweenTags print p children opening closing attributes translated)
      (seenAll c ((p.items .children children).filter fun q =>
        showsChild c.attachments (isTop p) q.node)) := by
  unfold betweenTags
  refine .look _ (fun _ _ => rfl) (.look _ (fun _ _ => rfl) ?_)
  refine (markupItems_marks hp hchildren).last fun _ => .look _ (fun _ _ => rfl) ?_
  exact .ite (fun _ => .pure _) fun _ => .pure _

/-- The children of markup that are printed. -/
theorem tagged_marks {children : List Node} {opening closing : Doc} {attributes : Nat}
    {translated : Bool} (hchildren : ∀ n ∈ children, root.Below d n) :
    Marks c F (tagged print p children opening closing attributes translated)
      (seenAll c ((p.items .children children).filter fun q => isSoleTemplate children ||
        showsChild c.attachments (isTop p) q.node)) := by
  unfold tagged
  -- a single template stands between the tags as it is
  by_cases hsole : isSoleTemplate children = true
  · rw [if_pos hsole]
    refine ((items_marks hp hchildren).last fun _ => .pure _).congr ?_
    simp [hsole]
  · rw [if_neg hsole]
    refine (betweenTags_marks hp hchildren).congr ?_
    simp [hsole]

/-- An element marks its tags and its children. -/
theorem elementBody_marks {opening : Node} {children : List Node} {closing : Option Node}
    (hform : p.node.form = .jsxElement opening children closing) (hopening : root.Below d opening)
    (hchildren : ∀ n ∈ children, root.Below d n) (hclosing : ∀ n ∈ closing, root.Below d n) :
    Marks c F (elementBody print p opening children closing) (Visit.inner c { path := p }) := by
  unfold elementBody
  change Marks c F (if isHollow children = true then _ else _) _
  -- without children to show, the element is its opening tag
  by_cases hhollow : isHollow children = true
  · rw [if_pos hhollow]
    refine (hp (p.child .openingElement opening) _ hopening).congr ?_
    ext x
    cases closing <;> simp [hform, hhollow]
  · rw [if_neg hhollow]
    have htop : isTop p = false := by simp [isTop, hform]
    refine ((child_marks hp hopening).bind (T := seenAll c (closing.toList.map
      (p.child .closingElement)) ∪ seenAll c ((p.items .children children).filter fun q =>
        isSoleTemplate children || showsChild c.attachments (isTop p) q.node)) fun _ => ?_).congr ?_
    · extract_lets rest
      -- the closing tag is printed before what stands between the tags
      have hrest : ∀ printed, Marks c F (rest printed) _ := fun _ => tagged_marks hp hchildren
      cases closing with
      | none => exact (hrest .empty).congr (by simp [seenAll])
      | some n => exact ((child_marks hp (hclosing n rfl)).bind hrest).congr (by simp)
    · ext x
      rw [htop]
      cases closing <;> simp [hform, hhollow, showsChild] <;> grind

/-- So does a fragment. -/
theorem fragmentBody_marks {opening : Node} {children : List Node} {closing : Node}
    (hform : p.node.form = .jsxFragment opening children closing) (hopening : root.Below d opening)
    (hchildren : ∀ n ∈ children, root.Below d n) (hclosing : root.Below d closing) :
    Marks c F (fragmentBody print p opening children closing) (Visit.inner c { path := p }) := by
  unfold fragmentBody
  refine ((child_marks hp hopening).bind fun _ => (child_marks hp hclosing).bind fun _ =>
    tagged_marks hp hchildren).congr ?_
  have htop : isTop p = false := by simp [isTop, hform]
  ext x
  rw [htop]
  simp [hform, showsChild]
  grind

omit hp in
/-- Around markup that stands alone, the comments around its node are marked. -/
theorem wrapped_marks (body : Doc) :
    Marks c F (wrapped p body) {x | x ∈ c.attachments.around p.node} := by
  unfold wrapped
  refine (withComments_marks p.node body).last fun _ => ?_
  exact .ite (fun _ => .pure _) fun _ => .pure _

/-- The root of HTML marks its children. -/
theorem markupRoot_marks {children : List Node} (hform : p.node.form = .markupRoot children)
    (hchildren : ∀ n ∈ children, root.Below d n) :
    Marks c F (markupRoot print p children) (Visit.inner c { path := p }) := by
  unfold markupRoot
  refine ((markupItems_marks hp hchildren).last fun _ => ?_).congr ?_
  · refine .look _ (fun _ _ => rfl) ?_
    exact .ite (fun _ => .pure _) fun _ => .pure _
  · have htop : isTop p = true := by simp [isTop, hform]
    ext x
    rw [htop]
    simp [hform, showsChild]
    grind

end

end Reflow.Print
