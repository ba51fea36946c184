import Reflow.Proofs.Comment.Attach
import Reflow.Proofs.Print.Shown

/-!
# What the printers of the parts mark

One lemma for each printer: given that children are printed as they should, it marks the comments
that are shown at the children it prints, and those inside its node.  The sets are put together from
the places that a printer goes to; that these are the right places is seen form by form, when all
printers are put together.

Chains, markup and templates have modules of their own.

## Key results

- `child_marks`, `items_marks`: children
- `parameters_marks`, `statements_marks`: what functions and blocks hold
- `exportHead_marks`: decorators that stand before an export
-/

namespace Reflow

variable {c : PrintContext} {F : FormatFault → Prop} {root : Node} {d : Nat} {p q : Path}

/-- The node is in the tree, and nothing below it is deeper than a depth. -/
structure Node.Below (root : Node) (d : Nat) (n : Node) : Prop where
  reaches : root.Reaches n
  height : n.height ≤ d

/-- A child is not as high as its node. -/
theorem Node.height_child_lt {m n : Node} (h : m ∈ n.children) : m.height < n.height := by
  rw [Node.height.eq_def n]
  -- the height of a node is the largest of its children's, and one more
  have hmem : m.height ∈ n.children.attach.map fun x => x.1.height :=
    List.mem_map.2 ⟨⟨m, h⟩, List.mem_attach _ _, rfl⟩
  generalize n.children.attach.map (fun x => x.1.height) = l at hmem ⊢
  induction l with
  | nil => cases hmem
  | cons a rest ih =>
    rw [List.foldr_cons]
    rcases List.mem_cons.1 hmem with rfl | hmem
    · omega
    · have := ih hmem
      omega

/-- Nothing below a child is as deep as below its node. -/
theorem Node.Below.child {m n : Node} (hn : root.Below (d + 1) n) (hm : m ∈ n.children) :
    root.Below d m where
  reaches := .child hn.reaches hm
  height := by
    have h1 := hn.height
    have h2 := Node.height_child_lt hm
    omega

/-- What is not deeper than a depth is not deeper than the next one. -/
theorem Node.Below.succ {n : Node} (hn : root.Below d n) : root.Below (d + 1) n :=
  ⟨hn.reaches, Nat.le_succ_of_le hn.height⟩

/-- A child is not as deep as its parent, unless it is the same node as the child before it. -/
theorem Node.Below.placed {m n : Node} (hw : root.WellBuilt) (hn : root.Below (d + 1) n)
    (hrepeat : n.form.mayRepeat = false) (hm : m ∈ n.form.children.map (·.2)) : root.Below d m :=
  hn.child (hw.mem_children hn.reaches hrepeat hm)

/-- What is shown at a node that is printed as a whole. -/
def seen (c : PrintContext) (p : Path) : Set Comment := {x | Shown c { path := p } x}

/-- What is shown at some nodes. -/
def seenAll (c : PrintContext) (ps : List Path) : Set Comment :=
  {x | ∃ q ∈ ps, Shown c { path := q } x}

/-- A printer for nodes that are not too deep marks what is shown at them. -/
def Prints (c : PrintContext) (F : FormatFault → Prop) (root : Node) (d : Nat) (print : PrintNode) :
    Prop :=
  ∀ (p : Path) (flags : PrintFlags), root.Below d p.node → Marks c F (print p flags) (seen c p)

namespace Path

@[simp] theorem node_child (p : Path) (slot : Slot) (n : Node) : (p.child slot n).node = n := rfl

@[simp] theorem slot?_child (p : Path) (slot : Slot) (n : Node) :
    (p.child slot n).slot? = some slot := rfl

@[simp] theorem node_item (p : Path) (slot : Slot) (i : Nat) (n : Node) :
    (p.item slot i n).node = n := rfl

@[simp] theorem slot?_item (p : Path) (slot : Slot) (i : Nat) (n : Node) :
    (p.item slot i n).slot? = some slot := rfl

/-- The paths of a list of children are those of its members, by their index. -/
theorem mem_items {slot : Slot} {ns : List Node} :
    q ∈ p.items slot ns ↔ ∃ i n, ns[i]? = some n ∧ p.item slot i n = q := by
  simp only [items, List.mem_map, Prod.exists, List.mem_zipIdx_iff_getElem?]
  constructor
  · rintro ⟨n, i, hn, rfl⟩
    exact ⟨i, n, hn, rfl⟩
  · rintro ⟨i, n, hn, rfl⟩
    exact ⟨n, i, hn, rfl⟩

/-- They lead to members of the list. -/
theorem node_mem_of_mem_items {slot : Slot} {ns : List Node} (h : q ∈ p.items slot ns) :
    q.node ∈ ns := by
  obtain ⟨i, n, hn, rfl⟩ := mem_items.1 h
  exact List.mem_of_getElem? hn

/-- The paths of the children in a field. -/
def ofField (p : Path) : Field Node → List Path
  | .one slot n => [p.child slot n]
  | .maybe slot n => n.toList.map (p.child slot)
  | .many slot ns => p.items slot ns
  | .holes slot ns => (placeAll slot 0 ns).map fun x => p.childAt x.1 x.2
  | .text .. | .flag .. => []

/-- Without holes, the places of a list are its indices. -/
theorem map_placeAll_some (p : Path) (slot : Slot) (ns : List Node) (i : Nat) :
    (placeAll slot i (ns.map some)).map (fun x => p.childAt x.1 x.2) =
      (ns.zipIdx i).map fun (n, i) => p.item slot i n := by
  induction ns generalizing i with
  | nil => rfl
  | cons n rest ih =>
    simp only [List.map_cons, placeAll, List.zipIdx_cons, ih]
    rfl

/-- The paths into a node are those into its fields. -/
theorem inside_eq (p : Path) : p.inside = p.node.form.fields.flatMap p.ofField := by
  unfold inside Node.placedChildren Form.children
  rw [List.map_flatMap]
  congr 1
  funext f
  cases f with
  | maybe slot n => cases n <;> rfl
  | many slot ns => exact map_placeAll_some p slot ns 0
  | _ => rfl

/-- A place in a list with holes is the index of a child. -/
theorem mem_placeAll {slot : Slot} {ns : List (Option Node)} {i : Nat} {x : Place × Node} :
    x ∈ placeAll slot i ns ↔ ∃ j n, ns[j]? = some (some n) ∧ x = (⟨slot, some (i + j)⟩, n) := by
  induction ns generalizing i with
  | nil => simp [placeAll]
  | cons a rest ih =>
    cases a with
    | none =>
      -- a hole moves the index on, and is itself in no place
      rw [placeAll, ih]
      constructor
      · rintro ⟨j, n, hn, rfl⟩
        exact ⟨j + 1, n, by simpa using hn, by simp [Nat.add_assoc, Nat.add_comm 1]⟩
      · rintro ⟨j, n, hn, rfl⟩
        cases j with
        | zero => simp at hn
        | succ j => exact ⟨j, n, by simpa using hn, by simp [Nat.add_assoc, Nat.add_comm 1]⟩
    | some m =>
      rw [placeAll, List.mem_cons, ih]
      constructor
      · -- the first node is in the place `i`, and the others are one further on
        rintro (rfl | ⟨j, n, hn, rfl⟩)
        · exact ⟨0, m, by simp, by simp⟩
        · exact ⟨j + 1, n, by simpa using hn, by simp [Nat.add_assoc, Nat.add_comm 1]⟩
      · rintro ⟨j, n, hn, rfl⟩
        cases j with
        | zero => exact .inl (by simpa using hn.symm)
        | succ j => exact .inr ⟨j, n, by simpa using hn, by simp [Nat.add_assoc, Nat.add_comm 1]⟩

end Path

namespace Print

variable {print : PrintNode}

/-- A child marks what is shown at it. -/
theorem child_marks (hp : Prints c F root d print) {slot : Slot} {n : Node} (hn : root.Below d n) :
    Marks c F (child print p slot n) (seen c (p.child slot n)) :=
  hp _ _ hn

/-- Paths that are printed one after the other mark what is shown at them. -/
theorem mapM_marks (hp : Prints c F root d print) {ps : List Path} {g : Path → PrintFlags}
    (hps : ∀ q ∈ ps, root.Below d q.node) :
    Marks c F (ps.mapM fun q => print q (g q)) (seenAll c ps) :=
  Marks.mapM fun q hq => hp q (g q) (hps q hq)

/-- So do the children of a list. -/
theorem items_marks (hp : Prints c F root d print) {slot : Slot} {ns : List Node}
    (hns : ∀ n ∈ ns, root.Below d n) :
    Marks c F (items print p slot ns) (seenAll c (p.items slot ns)) :=
  mapM_marks hp fun _ hq => hns _ (Path.node_mem_of_mem_items hq)

/-! ### Assignments -/

section

variable (hp : Prints c F root d print)

include hp

/-- What stands behind a sign marks what is shown at it, on its line or below. -/
theorem valueBehind_marks {left right : Node} {slot : Slot} (hright : root.Below d right) :
    Marks c F (valueBehind print p left slot right) (seen c (p.child slot right)) := by
  unfold valueBehind
  refine (child_marks hp hright).last fun _ => ?_
  refine .look _ (fun _ _ => rfl) (.look _ (fun _ _ => rfl) ?_)
  exact .ite (fun _ => .pure _) fun _ => .ite (fun _ => .pure _) fun _ => .pure _

omit hp in
/-- A key that loses its quotes is a string. -/
theorem form_of_unquotedKey? {n : Node} {name : String} (h : n.unquotedKey? = some name) :
    ∃ value raw, n.form = .stringLiteral value raw := by
  unfold Node.unquotedKey? at h
  split at h
  next value raw hform => exact ⟨value, raw, hform⟩
  next => cases h

/-- What is shown at a key; one without its quotes is printed as a part of its parent. -/
theorem key_marks {n : Node} {computed : Bool} (hn : root.Below d n) :
    Marks c F (key print p n computed)
      {x | Shown c ⟨p.child .key n, !computed && n.unquotedKey?.isSome⟩ x} := by
  unfold key
  cases computed with
  | true => exact (child_marks hp hn).last fun _ => .pure _
  | false =>
    simp only [Bool.false_eq_true, if_false]
    cases hkey : n.unquotedKey? with
    | none => exact child_marks hp hn
    | some name =>
      obtain ⟨value, raw, hform⟩ := form_of_unquotedKey? hkey
      refine (withComments_marks n _).congr ?_
      ext x
      -- a string has nothing below it, and no comments inside it are printed
      simp [shown_inline, Visit.inner, Path.inside_eq, hform, Form.fields, Path.ofField,
        Visit.showsInside, Visit.borrowed, Visit.earlyDecorators, Form.exported?]

/-- The layout of an assignment marks what is shown at its value. -/
theorem assignment_marks {printed : Doc} {left right : Node} {sign : String} {slot : Slot}
    (hright : root.Below d right) :
    Marks c F (assignment print p printed left sign slot right) (seen c (p.child slot right)) := by
  unfold assignment
  exact (valueBehind_marks hp hright).last fun _ => .pure _

/-- A declarator marks what is shown at its target, and at its value if it has one. -/
theorem declarator_marks {target : Node} {init : Option Node} (htarget : root.Below d target)
    (hinit : ∀ n ∈ init, root.Below d n) :
    Marks c F (declarator print p target init)
      (seen c (p.child .id target) ∪ seenAll c (init.toList.map (p.child .init))) := by
  unfold declarator
  cases init with
  | none => exact (child_marks hp htarget).bind fun _ => (Marks.pure _).congr (by simp [seenAll])
  | some value =>
    refine (child_marks hp htarget).bind fun _ => ?_
    exact (assignment_marks hp (hinit value rfl)).congr (by simp [seenAll, seen])

/-- A declaration marks what is shown at its declarators. -/
theorem variableDeclaration_marks {kind : String} {declarations : List Node}
    (hdeclarations : ∀ n ∈ declarations, root.Below d n) :
    Marks c F (variableDeclaration print p kind declarations)
      (seenAll c (p.items .declarations declarations)) := by
  unfold variableDeclaration
  refine (items_marks hp hdeclarations).last fun _ => ?_
  dsimp only
  split
  · exact .quiet fun _ _ => ⟨_, _, rfl⟩
  · exact .quiet fun _ _ => ⟨_, _, rfl⟩

/-! ### Functions -/

/-- The comments between the parentheses of a function without parameters. -/
def betweenParens (c : PrintContext) (n : Node) (params : List Node) : Set Comment :=
  {x | x ∈ (c.attachments.inside n).filter fun x =>
    params.isEmpty && c.source.nextCharacter? x.stop == some ')'}

/-- The comments between empty parentheses, and what is shown at the parameters. -/
theorem parameters_marks {params : List Node} {expand : Bool}
    (hparams : ∀ n ∈ params, root.Below d n) :
    Marks c F (parameters print p params expand)
      (betweenParens c p.node params ∪ seenAll c (p.items .params params)) := by
  unfold parameters
  -- the options and the comments are only looked at
  refine .look _ (fun _ _ => rfl) (.look _ (fun _ _ => rfl) ?_)
  by_cases hempty : params.isEmpty = true
  · -- without parameters the comments between the parentheses are printed there
    rw [if_pos hempty]
    refine ((dangling_marks p.node _).last fun _ => .pure _).congr ?_
    obtain rfl : params = [] := List.isEmpty_iff.1 hempty
    simp [betweenParens, seenAll, Path.items]
  · rw [if_neg hempty]
    -- what is printed behind a parameter depends on the source only
    have hprinted : Marks c F ((p.items .params params).mapM fun q => do
        let d ← print q {}
        let separator : List Doc :=
          if q.index? == some (params.length - 1) then []
          else if p.parent?.any Node.isTestCall || Node.hugsSoleParameter c.attachments params ||
            (expand && !params.any c.attachments.has) then [", "]
          else if c.source.isNextLineEmpty q.node.stop then [",", .hardline, .hardline]
          else [",", .space]
        return Doc.cat (d :: separator)) (seenAll c (p.items .params params)) :=
      Marks.mapM fun q hq =>
        (hp q {} (hparams _ (Path.node_mem_of_mem_items hq))).last fun _ => .pure _
    refine (hprinted.last fun _ => ?_).congr ?_
    · refine .ite (fun _ => .pure _) fun _ => .ite (fun _ => .pure _) fun _ => ?_
      exact .quiet fun _ _ => ⟨_, _, rfl⟩
    · simp [betweenParens, hempty]

/-- What is shown at the name of a function or class. -/
theorem named_marks {name : Option Node} (hname : ∀ n ∈ name, root.Below d n) {slot : Slot}
    {k : Doc → Print Doc} {S : Set Comment} (hk : ∀ d, Marks c F (k d) S) :
    Marks c F (match name with
      | some n => do
        let d ← child print p slot n
        let d ← pure (Doc.cat [" ", d])
        k d
      | none => do
        let d ← pure Doc.empty
        k d) (seenAll c (name.toList.map (p.child slot)) ∪ S) := by
  cases name with
  -- a name that is not there is no part of what is seen
  | none => exact (hk Doc.empty).congr (by simp [seenAll])
  | some n =>
    refine ((child_marks hp (hname n rfl)).bind fun d => ?_).congr (by simp [seenAll, seen]; rfl)
    exact hk (Doc.cat [" ", d])

/-- A function marks what is shown at its name, its parameters and its body. -/
theorem function_marks {name : Option Node} {params : List Node} {body : Node}
    {isAsync generator : Bool} (hname : ∀ n ∈ name, root.Below d n)
    (hparams : ∀ n ∈ params, root.Below d n) (hbody : root.Below d body) :
    Marks c F (function print p name params body isAsync generator)
      (seenAll c (name.toList.map (p.child .id)) ∪
        (betweenParens c p.node params ∪ seenAll c (p.items .params params) ∪
          seen c (p.child .body body))) := by
  unfold function
  refine named_marks hp hname fun _ => ?_
  refine (parameters_marks hp hparams).bind fun _ => ?_
  exact (child_marks hp hbody).last fun _ => .pure _

/-- So does a method, with its key for the name. -/
theorem method_marks {methodKey : Node} {params : List Node} {body : Node} {kind : MethodKind}
    {computed isAsync generator : Bool} (hkey : root.Below d methodKey)
    (hparams : ∀ n ∈ params, root.Below d n) (hbody : root.Below d body) :
    Marks c F (method print p methodKey params body kind computed isAsync generator)
      ({x | Shown c ⟨p.child .key methodKey, !computed && methodKey.unquotedKey?.isSome⟩ x} ∪
        (betweenParens c p.node params ∪ seenAll c (p.items .params params) ∪
          seen c (p.child .body body))) := by
  unfold method
  refine (key_marks hp hkey).bind fun _ => ?_
  refine (parameters_marks hp hparams).bind fun _ => ?_
  exact (child_marks hp hbody).last fun _ => .pure _

/-- The comments before the arrow of a function. -/
def beforeArrow (c : PrintContext) (n : Node) : Set Comment :=
  {x | x ∈ (c.attachments.inside n).filter fun x =>
    (c.source.nextCharacterIndex x.stop).any fun i =>
      Text.startsWith (c.source.charsFrom i) ['=', '>']}

/-- The head of an arrow function marks its parameters, and what dangles between its parentheses. -/
theorem arrowHead_marks {params : List Node} {body : Node} {isAsync expand : Bool}
    (hform : p.node.form = .arrowFunction params body isAsync)
    (hparams : ∀ n ∈ params, root.Below d n) :
    Marks c F (arrowHead print p params isAsync expand)
      (betweenParens c p.node params ∪ seenAll c (p.items .params params) ∪
        beforeArrow c p.node) := by
  unfold arrowHead
  refine .look _ (fun _ _ => rfl) (.look _ (fun _ _ => rfl) (.look _ (fun _ _ => rfl) ?_))
  extract_lets bare isBefore rest
  have hrest : ∀ printed, Marks c F (rest printed) (beforeArrow c p.node) := by
    intro printed
    -- the comments before the arrow are told by what follows them in the source
    have hbefore : isBefore = fun x => (c.source.nextCharacterIndex x.stop).any fun i =>
        Text.startsWith (c.source.charsFrom i) ['=', '>'] := by
      funext x
      simp only [isBefore]
      cases c.source.nextCharacterIndex x.stop <;> rfl
    refine ((dangling_marks p.node isBefore).last fun _ => .pure _).congr ?_
    rw [hbefore, beforeArrow]
  by_cases hbare : bare = true
  · -- without parentheses there is one parameter
    obtain ⟨only, rfl⟩ : ∃ only, params = [only] := by
      simp only [bare, Node.dropsParameterParens, hform] at hbare
      split at hbare
      next only _ _ heq => exact ⟨only, (Form.arrowFunction.inj heq).1⟩
      next => cases hbare
    rw [hbare]
    refine ((hp (p.item .params 0 only) {} (hparams only (by simp))).bind hrest).congr ?_
    -- and no comment between parentheses that are not there
    simp [betweenParens, seenAll, seen, Path.items]
  · rw [Bool.not_eq_true] at hbare
    rw [hbare]
    exact ((parameters_marks hp hparams).map Doc.grouped).bind hrest

/-- An arrow function marks its head and its body. -/
theorem arrowFunction_marks {params : List Node} {body : Node} {isAsync : Bool} {flags : PrintFlags}
    (hform : p.node.form = .arrowFunction params body isAsync)
    (hparams : ∀ n ∈ params, root.Below d n) (hbody : root.Below d body) :
    Marks c F (arrowFunction print p params body isAsync flags)
      (betweenParens c p.node params ∪ seenAll c (p.items .params params) ∪ beforeArrow c p.node ∪
        seen c (p.child .body body)) := by
  unfold arrowFunction
  refine (arrowHead_marks hp hform hparams).bind fun _ => ?_
  refine (hp (p.child .body body) _ hbody).last fun _ => ?_
  -- the shape of the body decides between layouts that print the same comments
  refine .look _ (fun _ _ => rfl) (.look _ (fun _ _ => rfl) ?_)
  refine .ite (fun _ => .pure _) fun _ => .ite (fun _ => .pure _) fun _ => ?_
  exact .quiet fun _ _ => ⟨_, _, rfl⟩

/-! ### Statements -/

/-- Empty statements are passed over. -/
theorem statements_marks {body : List Node} (hbody : ∀ n ∈ body, root.Below d n) :
    Marks c F (statements print p body)
      (seenAll c ((p.items .body body).filter fun q => !q.node.isEmptyStatement)) := by
  unfold statements
  refine .look _ (fun _ _ => rfl) (.look _ (fun _ _ => rfl) (.look _ (fun _ _ => rfl)
    (.look _ (fun _ _ => rfl) ?_)))
  refine Marks.last (Marks.mapM fun q hq => ?_) fun _ => .pure _
  have hmem := Path.node_mem_of_mem_items (List.mem_of_mem_filter hq)
  exact (hp q _ (hbody _ hmem)).last fun _ => .pure _

/-- A program marks its statements but the empty ones, and what dangles in it. -/
theorem program_marks {body : List Node} (hbody : ∀ n ∈ body, root.Below d n) :
    Marks c F (program print p body)
      (seenAll c ((p.items .body body).filter fun q => !q.node.isEmptyStatement) ∪
        {x | x ∈ c.attachments.inside p.node}) := by
  unfold program
  refine (statements_marks hp hbody).bind fun _ => ?_
  exact (dangling_marks_all p.node).last fun _ => .quiet fun _ _ => ⟨_, _, rfl⟩

/-- A statement of an expression marks what is shown at the expression. -/
theorem expressionStatement_marks {e : Node} (he : root.Below d e) :
    Marks c F (expressionStatement print p e) (seen c (p.child .expression e)) := by
  unfold expressionStatement
  exact (child_marks hp he).last fun _ => .quiet fun _ _ => ⟨_, _, rfl⟩

omit hp in
/-- Where nothing dangles there is nothing inside. -/
theorem inside_eq_nil {n : Node} (h : c.attachments.hasDangling n = false) :
    c.attachments.inside n = [] := by
  simp only [Attachments.hasDangling, Bool.not_eq_false', List.isEmpty_iff] at h
  rw [Attachments.inside, h, List.map_nil]

omit hp in
/-- Where all statements are empty none is printed. -/
theorem items_filter_eq_nil {slot : Slot} {body : List Node}
    (h : (body.any fun n => !n.isEmptyStatement) = false) :
    (p.items slot body).filter (fun q => !q.node.isEmptyStatement) = [] := by
  rw [List.filter_eq_nil_iff]
  intro q hq
  have := List.any_eq_false.1 h q.node (Path.node_mem_of_mem_items hq)
  simpa using this

/-- A block marks its statements but the empty ones, and what dangles in it. -/
theorem block_marks {body : List Node} (hbody : ∀ n ∈ body, root.Below d n) :
    Marks c F (block print p body)
      (seenAll c ((p.items .body body).filter fun q => !q.node.isEmptyStatement) ∪
        {x | x ∈ c.attachments.inside p.node}) := by
  unfold block
  refine .look _ (fun _ _ => rfl) ?_
  extract_lets rest
  have hrest : ∀ contents, Marks c F (rest contents) {x | x ∈ c.attachments.inside p.node} :=
    fun _ => (indentedDangling_marks p.node).last fun _ => .pure _
  refine .ite (fun h => ?_) fun _ => ?_
  · -- a function without a body has nothing to show
    simp only [Bool.and_eq_true, Bool.not_eq_true'] at h
    refine (Marks.pure _).congr ?_
    rw [items_filter_eq_nil h.1.1, inside_eq_nil h.1.2]
    simp [seenAll]
  · by_cases hcontent : (body.any fun n => !n.isEmptyStatement) = true
    · rw [if_pos hcontent]
      exact (statements_marks hp hbody).bind fun _ => hrest _
    · rw [if_neg hcontent, items_filter_eq_nil (Bool.not_eq_true _ ▸ hcontent)]
      exact (hrest .empty).congr (by simp [seenAll])

/-- So does the body of a class, with its members. -/
theorem classBody_marks {members : List Node} (hmembers : ∀ n ∈ members, root.Below d n) :
    Marks c F (classBody print p members)
      (seenAll c ((p.items .body members).filter fun q => !q.node.isEmptyStatement) ∪
        {x | x ∈ (c.attachments.inside p.node).filter fun _ => members.isEmpty}) := by
  unfold classBody
  refine .look _ (fun _ _ => rfl) ?_
  cases members with
  -- an empty body is printed only when the comments of the class are looked at
  | nil =>
    refine .ite (fun h => ?_) fun _ => ?_
    · have hnone : c.attachments.of p.node = [] := by
        simpa [Attachments.has] using h
      exact (Marks.pure _).congr (by
        simp [seenAll, Path.items, Attachments.inside, Attachments.inRole, hnone])
    · refine ((indentedDangling_marks p.node).last fun _ => .pure _).congr ?_
      simp [seenAll, Path.items]
  | cons first rest =>
    -- a body with members prints them, and the comments of the class go elsewhere
    refine .ite (fun h => by simp at h) fun _ => ?_
    refine ((statements_marks hp hmembers).last fun _ => .pure _).congr ?_
    simp

/-- What is returned marks what is shown at it, in parentheses or not. -/
theorem returned_marks {argument : Node} (hargument : root.Below d argument) :
    Marks c F (returned print p argument) (seen c (p.child .argument argument)) := by
  unfold returned
  refine (child_marks hp hargument).last fun _ => ?_
  refine .look _ (fun _ _ => rfl) (.look _ (fun _ _ => rfl) ?_)
  exact .ite (fun _ => .pure _) fun _ => .ite (fun _ => .pure _) fun _ => .pure _

/-- A return marks its argument, if it has one, and what dangles in it. -/
theorem returnStatement_marks {argument : Option Node}
    (hargument : ∀ n ∈ argument, root.Below d n) :
    Marks c F (returnStatement print p argument)
      (seenAll c (argument.toList.map (p.child .argument)) ∪
        {x | x ∈ c.attachments.inside p.node}) := by
  unfold returnStatement
  extract_lets rest
  -- the comments inside the statement are printed behind its value, with or without one
  have hrest : ∀ value, Marks c F (rest value) {x | x ∈ c.attachments.inside p.node} := by
    intro value
    refine .look _ (fun _ _ => rfl) ?_
    exact (dangling_marks_all p.node).last fun _ => .quiet fun _ _ => ⟨_, _, rfl⟩
  cases argument with
  | none => exact (hrest .empty).congr (by simp [seenAll])
  | some n =>
    refine ((returned_marks hp (hargument n rfl)).bind hrest).congr ?_
    simp [seenAll, seen]

/-- An alternative marks itself, and what dangles in front of its word. -/
theorem elseBranch_marks {consequent alternate : Node} (halternate : root.Below d alternate) :
    Marks c F (elseBranch print p consequent alternate)
      ({x | x ∈ c.attachments.inside p.node} ∪ seen c (p.child .alternate alternate)) := by
  unfold elseBranch
  refine .look _ (fun _ _ => rfl) ?_
  refine (dangling_marks_all p.node).bind fun _ => ?_
  exact (child_marks hp halternate).last fun _ => .pure _

/-- The comments inside a condition are printed with its second branch only. -/
theorem ifStatement_marks {test consequent : Node} {alternate : Option Node}
    (htest : root.Below d test) (hconsequent : root.Below d consequent)
    (halternate : ∀ n ∈ alternate, root.Below d n) :
    Marks c F (ifStatement print p test consequent alternate)
      (seen c (p.child .consequent consequent) ∪ (seen c (p.child .test test) ∪
        ({x | x ∈ (c.attachments.inside p.node).filter fun _ => alternate.isSome} ∪
          seenAll c (alternate.toList.map (p.child .alternate))))) := by
  unfold ifStatement
  -- the branches are printed in the order in which their documents are made
  refine (child_marks hp hconsequent).bind fun _ => (child_marks hp htest).bind fun _ => ?_
  cases alternate with
  | none => exact (Marks.pure _).congr (by simp [seenAll])
  | some n =>
    refine ((elseBranch_marks hp (halternate n rfl)).last fun _ => .pure _).congr ?_
    simp [seenAll, seen]

/-! ### Classes -/

/-- The decorators of a class that it prints itself are marked by it. -/
theorem classDecorators?_marks {decorators : List Node} {name superclass : Option Node} {body : Node}
    {isExpression : Bool}
    (hform : p.node.form = .classDeclaration decorators name superclass body isExpression)
    (hdecorators : ∀ n ∈ decorators, root.Below d n) :
    Marks c F (classDecorators? print p) (seenAll c
      (if p.parent?.any Node.isDecoratedBeforeExport then []
        else p.items .decorators decorators)) := by
  unfold classDecorators?
  rw [hform]
  dsimp only
  -- decorators that stand before an export are printed by the export
  refine .ite (fun h => ?_) fun h => ?_
  · refine (Marks.pure _).congr ?_
    rcases Bool.or_eq_true_iff.1 h with h | h
    · simp [List.isEmpty_iff.1 h, Path.items, seenAll]
    · simp [h, seenAll]
  · simp only [Bool.or_eq_true, not_or, Bool.not_eq_true] at h
    rw [h.2]
    exact (items_marks hp hdecorators).last fun _ => .pure _

omit hp in
/-- What is no class prints no decorators of its own. -/
theorem classDecorators?_quiet (print : PrintNode)
    (h : ∀ decorators name superclass body isExpression,
      p.node.form ≠ .classDeclaration decorators name superclass body isExpression) :
    Marks c F (classDecorators? print p) ∅ := by
  unfold classDecorators?
  split
  next hform => exact absurd hform (h _ _ _ _ _)
  next => exact .pure _

/-- The decorators of a member are marked by it. -/
theorem memberDecorators_marks {decorators : List Node}
    (hdecorators : ∀ n ∈ decorators, root.Below d n) :
    Marks c F (memberDecorators print p decorators)
      (seenAll c (p.items .decorators decorators)) := by
  unfold memberDecorators
  refine .ite (fun h => ?_) fun _ => ?_
  · refine (Marks.pure _).congr ?_
    simp [List.isEmpty_iff.1 h, Path.items, seenAll]
  · refine .look _ (fun _ _ => rfl) ?_
    exact (items_marks hp hdecorators).last fun _ => .pure _

/-- A property of a class marks its decorators, its key and its value. -/
theorem classProperty_marks {decorators : List Node} {propertyKey : Node} {value : Option Node}
    {computed isStatic : Bool} (hdecorators : ∀ n ∈ decorators, root.Below d n)
    (hkey : root.Below d propertyKey) (hvalue : ∀ n ∈ value, root.Below d n) :
    Marks c F (classProperty print p decorators propertyKey value computed isStatic)
      (seenAll c (p.items .decorators decorators) ∪
        ({x | Shown c ⟨p.child .key propertyKey, !computed && propertyKey.unquotedKey?.isSome⟩ x} ∪
          seenAll c (value.toList.map (p.child .value)))) := by
  unfold classProperty
  refine (memberDecorators_marks hp hdecorators).bind fun _ => (key_marks hp hkey).bind fun _ => ?_
  -- only a property with a value prints more than its key
  cases value with
  | none => exact (Marks.quiet fun _ _ => ⟨_, _, rfl⟩).congr (by simp [seenAll])
  | some v =>
    refine ((valueBehind_marks hp (hvalue v rfl)).last fun _ => ?_).congr (by simp [seenAll, seen])
    exact .quiet fun _ _ => ⟨_, _, rfl⟩

/-- The comments of what a class extends are printed by the class. -/
theorem classDeclaration_marks {name superclass : Option Node} {body : Node}
    (hname : ∀ n ∈ name, root.Below d n) (hsuperclass : ∀ n ∈ superclass, root.Below d n)
    (hbody : root.Below d body) :
    Marks c F (classDeclaration print p name superclass body)
      (seenAll c (name.toList.map (p.child .id)) ∪
        (seenAll c (superclass.toList.map (p.child .superclass)) ∪
          {x | x ∈ superclass.toList.flatMap c.attachments.around} ∪
            seen c (p.child .body body))) := by
  unfold classDeclaration
  refine .look _ (fun _ _ => rfl) ?_
  refine named_marks hp hname fun _ => ?_
  extract_lets rest
  -- the body comes last, with or without a superclass
  have hrest : ∀ heritage, Marks c F (rest heritage) (seen c (p.child .body body)) :=
    fun _ => (child_marks hp hbody).last fun _ => .pure _
  cases superclass with
  | none => exact (hrest .empty).congr (by simp [seenAll])
  | some n =>
    -- the comments around the superclass are printed with it, though they are not in it
    refine ((child_marks hp (hsuperclass n rfl)).bind fun _ =>
      (withComments_marks n _).bind fun _ => hrest _).congr ?_
    simp [seenAll, seen, Set.union_assoc]

/-! ### Collections -/

omit hp in
/-- An empty pair of brackets marks what dangles in it. -/
theorem emptyCollection_marks (n : Node) (opening closing : String) :
    Marks c F (emptyCollection n opening closing) {x | x ∈ c.attachments.inside n} := by
  unfold emptyCollection
  refine .look _ (fun _ _ => rfl) (.ite (fun h => ?_) fun _ => ?_)
  · refine (Marks.pure _).congr ?_
    simp [inside_eq_nil (by simpa using h)]
  · exact (indentedDangling_marks n).last fun _ => .pure _

/-- An object marks its members, or what dangles in it if it has none. -/
theorem object_marks {properties : List Node} (hproperties : ∀ n ∈ properties, root.Below d n) :
    Marks c F (object print p properties)
      ({x | x ∈ (c.attachments.inside p.node).filter fun _ => properties.isEmpty} ∪
        seenAll c (p.items .properties properties)) := by
  unfold object
  refine .look _ (fun _ _ => rfl) (.look _ (fun _ _ => rfl) ?_)
  -- an object without properties prints the comments that are inside it
  by_cases hempty : properties.isEmpty = true
  · rw [if_pos hempty]
    refine (emptyCollection_marks p.node _ _).congr ?_
    simp [List.isEmpty_iff.1 hempty, Path.items, seenAll]
  · rw [if_neg hempty]
    refine ((items_marks hp hproperties).last fun _ => ?_).congr (by simp [hempty])
    exact .look _ (fun _ _ => rfl) (.ite (fun _ => .pure _) fun _ => .pure _)

/-- The elements of an array; holes have no path. -/
theorem elements_marks {elements : List (Option Node)}
    (helements : ∀ n, some n ∈ elements → root.Below d n) :
    Marks c F (elements.zipIdx.mapM fun (e, i) =>
      match e with
      | some n => print (p.item .elements i n) {}
      | none => pure .empty) (seenAll c (p.ofField (.holes .elements elements))) := by
  -- one element after the other, holes included: the index is that of the place
  have hall := Marks.mapM (c := c) (F := F) (l := elements.zipIdx)
    (g := fun (e, i) =>
      match e with
      | some n => print (p.item .elements i n) {}
      | none => pure .empty)
    (S := fun (e, i) => seenAll c (e.toList.map (p.item .elements i))) ?_
  · -- the places of the field are those elements that are no holes
    refine hall.congr ?_
    ext x
    simp only [seenAll, Path.ofField, Set.mem_ofPred_eq, Prod.exists, List.mem_map,
      Path.mem_placeAll, List.mem_zipIdx_iff_getElem?, Option.mem_toList]
    constructor
    · rintro ⟨_, i, he, q, ⟨n, rfl, rfl⟩, hx⟩
      exact ⟨_, ⟨_, _, ⟨i, n, he, rfl⟩, by rw [Nat.zero_add]; rfl⟩, hx⟩
    · rintro ⟨q, ⟨_, _, ⟨i, n, he, heq⟩, rfl⟩, hx⟩
      obtain ⟨rfl, rfl⟩ := Prod.mk.inj heq
      rw [Nat.zero_add] at hx
      exact ⟨_, i, he, _, ⟨_, rfl, rfl⟩, hx⟩
  · rintro ⟨e, i⟩ he
    cases e with
    | none => exact (Marks.pure _).congr (by simp [seenAll])
    | some n =>
      have hmem := List.mem_of_getElem? (List.mem_zipIdx_iff_getElem?.1 he)
      exact (hp _ _ (helements n hmem)).congr (by simp [seenAll, seen])

/-- An array marks its elements, and what dangles in it. -/
theorem array_marks {elements : List (Option Node)}
    (helements : ∀ n, some n ∈ elements → root.Below d n) :
    Marks c F (array print p elements)
      (seenAll c (p.ofField (.holes .elements elements)) ∪
        {x | x ∈ c.attachments.inside p.node}) := by
  unfold array
  refine .look _ (fun _ _ => rfl) ?_
  by_cases hempty : elements.isEmpty = true
  · rw [if_pos hempty]
    refine (emptyCollection_marks p.node _ _).congr ?_
    simp [List.isEmpty_iff.1 hempty, Path.ofField, placeAll, seenAll]
  · rw [if_neg hempty]
    refine (elements_marks hp helements).bind fun _ => .look _ (fun _ _ => rfl) ?_
    exact (dangling_marks_all p.node).last fun _ => .pure _

/-! ### Imports and exports -/

omit hp in
/-- Names in braces are printed already. -/
theorem bracedNames_marks (printed : List Doc) : Marks c F (bracedNames printed) ∅ :=
  .quiet fun _ _ => ⟨_, _, rfl⟩

/-- An import marks its names and its source. -/
theorem importDeclaration_marks {specifiers : List Node} {origin : Node}
    (hspecifiers : ∀ n ∈ specifiers, root.Below d n) (horigin : root.Below d origin) :
    Marks c F (importDeclaration print p specifiers origin)
      (seenAll c (p.items .specifiers specifiers) ∪ seen c (p.child .source origin)) := by
  unfold importDeclaration
  refine .look _ (fun _ _ => rfl) (.look _ (fun _ _ => rfl) ?_)
  refine (items_marks hp hspecifiers).bind fun printed => ?_
  extract_lets inBraces pairs named standalone rest
  -- the origin is printed behind the names, however these are put
  have hrest : ∀ names, Marks c F (rest names) (seen c (p.child .source origin)) :=
    fun _ => (child_marks hp horigin).last fun _ => .quiet fun _ _ => ⟨_, _, rfl⟩
  have hbraced : ∀ names, Marks c F (bracedNames names >>= rest) (seen c (p.child .source origin)) :=
    fun names => ((bracedNames_marks names).bind hrest).congr (Set.empty_union _)
  -- the three ways to put the names differ in braces only
  clear_value rest named standalone
  split
  · exact hrest _
  · exact .ite (fun _ => hbraced _) fun _ => hrest _
  · exact hbraced _

/-- A name that is written once is printed once. -/
theorem renamed_marks {slot otherSlot : Slot} {n other : Node} (hn : root.Below d n)
    (hother : n.same other = false → root.Below d other) :
    Marks c F (renamed print p slot n otherSlot other)
      (seen c (p.child slot n) ∪
        {x | n.same other = false ∧ Shown c ⟨p.child otherSlot other, false⟩ x}) := by
  unfold renamed
  refine (child_marks hp hn).bind fun _ => ?_
  -- a name that is renamed to itself is printed once
  cases hsame : n.same other with
  | true => exact (Marks.pure _).congr (by simp)
  | false =>
    refine ((child_marks hp (hother hsame)).last fun _ => .pure _).congr ?_
    simp [seen]

/-- The decorators that stand before an export are printed with it, as are the comments inside. -/
theorem exportHead_marks {isDefault : Bool}
    (hearly : ∀ q ∈ Visit.earlyDecorators p, root.Below d q.node) :
    Marks c F (exportHead print p isDefault)
      (seenAll c (Visit.earlyDecorators p) ∪ {x | x ∈ c.attachments.inside p.node}) := by
  unfold exportHead
  extract_lets rest
  -- the comments inside the export follow its decorators
  have hrest : ∀ decorators, Marks c F (rest decorators) {x | x ∈ c.attachments.inside p.node} := by
    intro decorators
    refine .look _ (fun _ _ => rfl) ?_
    exact (dangling_marks_all p.node).last fun _ => .pure _
  unfold Visit.earlyDecorators at hearly ⊢
  -- only an export of a class that is decorated before it prints decorators here
  cases hexported : p.node.form.exported? with
  | none => exact (hrest .empty).congr (by simp [seenAll])
  | some declaration =>
    simp only [hexported] at hearly ⊢
    by_cases hbefore : p.node.isDecoratedBeforeExport = true
    · rw [if_pos hbefore] at hearly ⊢
      rw [if_pos hbefore]
      exact (mapM_marks hp hearly).bind fun _ => hrest _
    · rw [if_neg hbefore, if_neg hbefore]
      exact (hrest .empty).congr (by simp [seenAll])

/-- An export marks the decorators in front of it and what it exports. -/
theorem exportOf_marks {declaration : Node} {isDefault : Bool}
    (hearly : ∀ q ∈ Visit.earlyDecorators p, root.Below d q.node)
    (hdeclaration : root.Below d declaration) :
    Marks c F (exportOf print p declaration isDefault)
      (seenAll c (Visit.earlyDecorators p) ∪ {x | x ∈ c.attachments.inside p.node} ∪
        seen c (p.child .declaration declaration)) := by
  unfold exportOf
  refine (exportHead_marks hp hearly).bind fun _ => ?_
  exact (child_marks hp hdeclaration).last fun _ => .quiet fun _ _ => ⟨_, _, rfl⟩

/-- An export of names marks them and its source. -/
theorem exportNames_marks {specifiers : List Node} {origin : Option Node}
    (hearly : ∀ q ∈ Visit.earlyDecorators p, root.Below d q.node)
    (hspecifiers : ∀ n ∈ specifiers, root.Below d n) (horigin : ∀ n ∈ origin, root.Below d n) :
    Marks c F (exportNames print p specifiers origin)
      (seenAll c (Visit.earlyDecorators p) ∪ {x | x ∈ c.attachments.inside p.node} ∪
        (seenAll c (p.items .specifiers specifiers) ∪
          seenAll c (origin.toList.map (p.child .source)))) := by
  unfold exportNames
  refine (exportHead_marks hp hearly).bind fun head => .look _ (fun _ _ => rfl) ?_
  refine (items_marks hp hspecifiers).bind fun printed => ?_
  extract_lets rest
  -- the origin is printed behind the names, if there is one
  have hrest : ∀ names, Marks c F (rest names)
      (seenAll c (origin.toList.map (p.child .source))) := by
    intro names
    cases origin with
    | none => exact (Marks.quiet fun _ _ => ⟨_, _, rfl⟩).congr (by simp [seenAll])
    | some n =>
      refine ((child_marks hp (horigin n rfl)).last fun _ => ?_).congr (by simp [seenAll, seen])
      exact .quiet fun _ _ => ⟨_, _, rfl⟩
  -- names in braces print nothing of their own
  have hbraced : Marks c F (do
      let names ← bracedNames printed
      let names ← pure (Doc.cat [" ", names])
      rest names) (seenAll c (origin.toList.map (p.child .source))) :=
    ((bracedNames_marks printed).bind fun _ => hrest _).congr (Set.empty_union _)
  clear_value rest
  split
  · exact hrest _
  · exact .ite (fun _ => hbraced) fun _ => hrest _
  · exact hbraced

/-! ### Operators -/

/-- A sequence marks its expressions. -/
theorem sequence_marks {expressions : List Node} (hexpressions : ∀ n ∈ expressions, root.Below d n) :
    Marks c F (sequence print p expressions) (seenAll c (p.items .expressions expressions)) := by
  unfold sequence
  refine (items_marks hp hexpressions).last fun _ => ?_
  split
  · exact .pure _
  · exact .pure _

/-- A prefix operator marks its operand. -/
theorem unary_marks {operator : String} {argument : Node} (hargument : root.Below d argument) :
    Marks c F (unary print p operator argument) (seen c (p.child .argument argument)) := by
  unfold unary
  refine (child_marks hp hargument).last fun _ => ?_
  exact .quiet fun _ _ => ⟨_, _, rfl⟩

/-- A conditional marks its three parts. -/
theorem conditional_marks {test consequent alternate : Node} (htest : root.Below d test)
    (hconsequent : root.Below d consequent) (halternate : root.Below d alternate) :
    Marks c F (conditional print p test consequent alternate)
      (seen c (p.child .consequent consequent) ∪ (seen c (p.child .alternate alternate) ∪
        seen c (p.child .test test))) := by
  unfold conditional
  refine (child_marks hp hconsequent).bind fun _ => (child_marks hp halternate).bind fun _ => ?_
  refine .look _ (fun _ _ => rfl) ?_
  exact (child_marks hp htest).last fun _ => .pure _

end

end Print

end Reflow
