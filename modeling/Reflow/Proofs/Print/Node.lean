import Reflow.Proofs.Print.Chain
import Reflow.Proofs.Print.Markup
import Reflow.Proofs.Print.Template

/-!
# What printing a tree marks

The printers of all forms, put together: a node that is printed marks what is shown at it, and a tree
is printed with all its comments if all of them are shown at its root.

## Key results

- `byForm_marks`, `whole_marks`: one node, given that its children are printed as they should
- `downTo_prints`: all nodes, by induction on the depth
- `tree_outcome`: which comment a tree is given up on
-/

namespace Reflow

variable {c : PrintContext} {F : FormatFault → Prop} {root : Node} {d : Nat} {p : Path}

/-- What stands in a form that holds no node twice is below it. -/
theorem Node.Below.ofForm {m n : Node} {form : Form Node} (hw : root.WellBuilt)
    (hn : root.Below (d + 1) n) (hform : n.form = form) (hrepeat : form.mayRepeat = false)
    (hm : m ∈ form.children.map (·.2)) : root.Below d m :=
  hn.placed hw (hform ▸ hrepeat) (hform ▸ hm)

/-- The value of a shorthand property. -/
theorem Node.Below.ofShorthand {n key value : Node} {computed : Bool} (hw : root.WellBuilt)
    (hn : root.Below (d + 1) n) (hform : n.form = .objectProperty key value computed true) :
    root.Below d value := by
  refine hn.child ?_
  have hsound := hw.sound_of_reaches hn.reaches
  have hchildren : n.children = Node.dropRepeated none [key, value] := by
    simp [Node.children, Node.placedChildren, hform, Form.children, Form.fields, Field.children]
  rcases hsound.shorthand key value computed hform with rfl | ⟨right, hvalue⟩
  · simp [hchildren, Node.dropRepeated]
  · -- a key with a default is not the same node as the two together
    have hrow : value ∈ n.row := by simp [Node.row, hform]
    have hkey : key ∈ value.row := by
      simp [Node.row, hvalue, Node.children, Node.placedChildren, Form.children, Form.fields,
        Field.children, Node.dropRepeated]
    have hne : key.id ≠ value.id := by
      intro hid
      have hmem := Node.nodes_trans (hw.mem_nodes hn.reaches) (Node.row_subset_nodes hrow)
      have hmem' := Node.nodes_trans hmem (Node.row_subset_nodes hkey)
      have heq := Node.eq_of_id hw.nodup hmem' hmem hid
      have hlt := Node.sizeOf_row_lt hkey
      rw [heq] at hlt
      exact Nat.lt_irrefl _ hlt
    simp [hchildren, Node.dropRepeated, hne]

/-- Two children that may be the same node. -/
theorem Node.Below.ofPair {n a b : Node} (hn : root.Below (d + 1) n)
    (h : n.placedChildren.map (·.2) = [a, b]) :
    root.Below d a ∧ (a.same b = false → root.Below d b) := by
  have hchildren : n.children = Node.dropRepeated none [a, b] := by rw [Node.children, h]
  constructor
  · exact hn.child (by simp [hchildren, Node.dropRepeated])
  · intro hsame
    have hne : a.id ≠ b.id := by simpa [Node.same] using hsame
    exact hn.child (by simp [hchildren, Node.dropRepeated, hne])

/-- Only the members of a class and classes have decorators. -/
theorem mayRepeat_of_decorators {form : Form Node} {m : Node} (h : m ∈ form.decorators) :
    form.mayRepeat = false ∧ m ∈ form.children.map (·.2) := by
  cases form <;> simp_all [Form.decorators, Form.mayRepeat, Form.children, Form.fields]

/-- Decorators in front of an export are not deeper than what is exported. -/
theorem earlyDecorators_below {declaration : Node} (hw : root.WellBuilt)
    (hexported : p.node.form.exported? = some declaration)
    (hdeclaration : root.Below d declaration) :
    ∀ q ∈ Visit.earlyDecorators p, root.Below d q.node := by
  intro q hq
  simp only [Visit.earlyDecorators, hexported] at hq
  split at hq
  next =>
    obtain ⟨hrepeat, hmem⟩ := mayRepeat_of_decorators (Path.node_mem_of_mem_items hq)
    exact hdeclaration.succ.placed hw hrepeat hmem
  next => cases hq

namespace Print

variable {print : PrintNode} {flags : PrintFlags}

/-- The two forms with operands have operands. -/
theorem operands?_isSome {n left right : Node} {operator : String}
    (h : n.form = .binaryExpression operator left right ∨
      n.form = .logicalExpression operator left right) : n.operands?.isSome = true := by
  obtain ⟨id, span, form⟩ := n
  rcases h with h | h <;> (change form = _ at h; subst h; rfl)

section

-- where the printers go is read off the form
attribute [local simp] Visit.inner Visit.goesTo Visit.inlines Visit.showsInside Visit.borrowed
  Visit.earlyDecorators Form.exported? Path.inside_eq Path.ofField Form.fields Path.mem_items seen
  seenAll Form.children Form.mayRepeat

section Parts

-- the parts of the node are below it
variable (hp : Prints c F root d print)
  (hbelow : ∀ m ∈ p.node.form.children.map (·.2), root.Below d m)

include hp hbelow

/-- A program marks what is shown in it. -/
theorem programNode_marks {body : List Node} (hform : p.node.form = .program body) :
    Marks c F (program print p body) (Visit.inner c { path := p }) := by
  refine (program_marks hp fun m hm => hbelow m (by simp [hform, hm])).congr ?_
  ext x
  simp [hform]
  grind

/-- A block marks what is shown in it. -/
theorem blockNode_marks {body : List Node} (hform : p.node.form = .block body) :
    Marks c F (block print p body) (Visit.inner c { path := p }) := by
  refine (block_marks hp fun m hm => hbelow m (by simp [hform, hm])).congr ?_
  ext x
  simp [hform]
  grind

/-- A `return` marks what is shown in it. -/
theorem returnNode_marks {argument : Option Node} (hform : p.node.form = .returnStatement argument) :
    Marks c F (returnStatement print p argument) (Visit.inner c { path := p }) := by
  refine (returnStatement_marks hp fun m hm => hbelow m (by simp [hform, Option.mem_def.1
    hm])).congr ?_
  ext x
  simp [hform]
  grind

/-- An `if` marks what is shown in it. -/
theorem ifNode_marks {test consequent : Node} {alternate : Option Node}
    (hform : p.node.form = .ifStatement test consequent alternate) :
    Marks c F (ifStatement print p test consequent alternate) (Visit.inner c { path := p }) := by
  refine (ifStatement_marks hp (hbelow test (by simp [hform])) (hbelow consequent (by simp
    [hform])) fun m hm => hbelow m (by simp [hform, Option.mem_def.1 hm])).congr ?_
  ext x
  simp [hform]
  grind

/-- A function marks what is shown in it, be it a statement or a value. -/
theorem functionNode_marks {name : Option Node} {params : List Node} {body : Node}
    {isAsync generator : Bool}
    (hform : p.node.form = .functionDeclaration name params body isAsync generator ∨
      p.node.form = .functionExpression name params body isAsync generator) :
    Marks c F (function print p name params body isAsync generator)
      (Visit.inner c { path := p }) := by
  have hparts : p.node.form.children.map (·.2) = name.toList ++ (params ++ [body]) := by
    rcases hform with hform | hform <;> simp [hform]
  rw [hparts] at hbelow
  refine (function_marks hp (fun m hm => hbelow m (by simp [Option.mem_def.1 hm]))
    (fun m hm => hbelow m (by simp [hm])) (hbelow body (by simp))).congr ?_
  ext x
  rcases hform with hform | hform
  all_goals
    simp [hform, betweenParens]
    grind

/-- A method of an object marks what is shown in it. -/
theorem objectMethodNode_marks {params : List Node} {key body : Node} {kind : MethodKind}
    {computed isAsync generator : Bool}
    (hform : p.node.form = .objectMethod key params body kind computed isAsync generator) :
    Marks c F (method print p key params body kind computed isAsync generator)
      (Visit.inner c { path := p }) := by
  refine (method_marks hp (hbelow key (by simp [hform])) (fun m hm => hbelow m (by simp [hform,
    hm])) (hbelow body (by simp [hform]))).congr ?_
  ext x
  simp [hform, betweenParens]
  grind

/-- The body of a class marks what is shown in it. -/
theorem classBodyNode_marks {members : List Node} (hform : p.node.form = .classBody members) :
    Marks c F (classBody print p members) (Visit.inner c { path := p }) := by
  refine (classBody_marks hp fun m hm => hbelow m (by simp [hform, hm])).congr ?_
  ext x
  simp [hform]
  grind

/-- An export of a declaration marks what is shown in it, with the decorators that stand before
it. -/
theorem exportedNode_marks (hw : root.WellBuilt) {declaration : Node} (specifiers : List Node)
    (origin : Option Node) (isDefault : Bool)
    (hform : p.node.form = .exportDefaultDeclaration declaration ∨
      p.node.form = .exportNamedDeclaration (some declaration) specifiers origin) :
    Marks c F (exportOf print p declaration isDefault) (Visit.inner c { path := p }) := by
  have hexported : p.node.form.exported? = some declaration := by
    rcases hform with hform | hform <;> simp [hform]
  have hdeclaration : root.Below d declaration :=
    hbelow declaration (by rcases hform with hform | hform <;> simp [hform])
  have hearly := earlyDecorators_below (p := p) hw hexported hdeclaration
  refine (exportOf_marks hp hearly hdeclaration).congr ?_
  ext x
  rcases hform with hform | hform
  all_goals
    simp [hform]
    grind [Path.slot?_item, Path.slot?_child]

/-- An export of names marks what is shown in it. -/
theorem exportNamesNode_marks {specifiers : List Node} {origin : Option Node}
    (hform : p.node.form = .exportNamedDeclaration none specifiers origin) :
    Marks c F (exportNames print p specifiers origin) (Visit.inner c { path := p }) := by
  have hearly : ∀ q ∈ Visit.earlyDecorators p, root.Below d q.node := by simp [hform]
  refine (exportNames_marks hp hearly (fun m hm => hbelow m (by simp [hform, hm])) fun m hm =>
    hbelow m (by simp [hform, Option.mem_def.1 hm])).congr ?_
  ext x
  simp [hform]
  grind

/-- An array marks what is shown in it. -/
theorem arrayNode_marks {elements : List (Option Node)}
    (hform : p.node.form = .arrayExpression elements) :
    Marks c F (array print p elements) (Visit.inner c { path := p }) := by
  refine (array_marks hp fun m hm => hbelow m (by simp [hform, hm])).congr ?_
  ext x
  simp [hform]
  grind

/-- An arrow function marks what is shown in it. -/
theorem arrowNode_marks {params : List Node} {body : Node} {isAsync : Bool} (flags : PrintFlags)
    (hform : p.node.form = .arrowFunction params body isAsync) :
    Marks c F (arrowFunction print p params body isAsync flags) (Visit.inner c { path := p }) := by
  refine (arrowFunction_marks hp hform (fun m hm => hbelow m (by simp [hform, hm])) (hbelow body
    (by simp [hform]))).congr ?_
  ext x
  simp [hform, betweenParens, beforeArrow]
  grind

/-- A choice marks what is shown in it. -/
theorem conditionalNode_marks {test consequent alternate : Node}
    (hform : p.node.form = .conditionalExpression test consequent alternate) :
    Marks c F (conditional print p test consequent alternate) (Visit.inner c { path := p }) := by
  refine (conditional_marks hp (hbelow test (by simp [hform])) (hbelow consequent (by simp
    [hform])) (hbelow alternate (by simp [hform]))).congr ?_
  ext x
  simp [hform]
  grind

end Parts

/-- Each form marks what is shown in it. -/
theorem byForm_marks (hw : root.WellBuilt) (hp : Prints c F root d print)
    (hn : root.Below (d + 1) p.node)
    (hembeds : ∀ quasis expressions, p.node.form = .templateLiteral quasis expressions →
      Embed.Embeds c F quasis expressions)
    (hclass : ∀ decorators name superclass body isExpression,
      p.node.form ≠ .classDeclaration decorators name superclass body isExpression)
    (hmarkup : p.node.isMarkup = false) :
    Marks c F (byForm print p flags) (Visit.inner c { path := p }) := by
  unfold byForm
  -- the parts of a node are below it, unless one of them is repeated
  have hbelow : ∀ {form : Form Node}, p.node.form = form → form.mayRepeat = false → ∀ m,
      m ∈ form.children.map (·.2) → root.Below d m :=
    fun hform hrepeat m hm => hn.ofForm hw hform hrepeat hm
  have hparts : ∀ {form : Form Node}, p.node.form = form → form.mayRepeat = false → ∀ m,
      m ∈ p.node.form.children.map (·.2) → root.Below d m :=
    fun hform hrepeat => hform ▸ hbelow hform hrepeat
  -- by the kind of the node: each has its own function, and the sets agree by `inner`
  cases hform : p.node.form with
  | program body => exact programNode_marks hp (hparts hform rfl) hform
  | expressionStatement e =>
    refine (expressionStatement_marks hp (hbelow hform rfl e (by simp))).congr ?_
    ext x
    simp [hform]
  | block body => exact blockNode_marks hp (hparts hform rfl) hform
  | returnStatement argument => exact returnNode_marks hp (hparts hform rfl) hform
  | ifStatement test consequent alternate => exact ifNode_marks hp (hparts hform rfl) hform
  | variableDeclarator target init =>
    refine (declarator_marks hp (hbelow hform rfl target (by simp)) fun m hm => hbelow hform rfl m
      (by simp [Option.mem_def.1 hm])).congr ?_
    ext x
    simp [hform]
  | variableDeclaration kind declarations =>
    refine (variableDeclaration_marks hp fun m hm => hbelow hform rfl m (by simp [hm])).congr ?_
    ext x
    simp [hform]
  | functionDeclaration name params body isAsync generator =>
    exact functionNode_marks hp (hparts hform rfl) (.inl hform)
  | functionExpression name params body isAsync generator =>
    exact functionNode_marks hp (hparts hform rfl) (.inr hform)
  | decorator e =>
    refine ((child_marks hp (hbelow hform rfl e (by simp))).last fun _ => .pure _).congr ?_
    ext x
    simp [hform]
  | classProperty decorators key value computed isStatic =>
    refine (classProperty_marks hp (fun m hm => hbelow hform rfl m (by simp [hm])) (hbelow hform
      rfl key (by simp)) fun m hm => hbelow hform rfl m (by simp [Option.mem_def.1 hm])).congr ?_
    ext x
    simp [hform, or_and_right, exists_or]
  | classMethod decorators key params body kind computed isStatic isAsync generator =>
    refine ((memberDecorators_marks hp (fun m hm => hbelow hform rfl m (by simp [hm]))).bind fun _
      => (method_marks hp (hbelow hform rfl key (by simp)) (fun m hm => hbelow hform rfl m (by simp
      [hm])) (hbelow hform rfl body (by simp))).last fun _ => .pure _).congr ?_
    ext x
    simp [hform, betweenParens, or_and_right, exists_or]
    grind
  | classBody members => exact classBodyNode_marks hp (hparts hform rfl) hform
  -- a class prints its decorators apart from itself
  | classDeclaration decorators name superclass body isExpression =>
    exact absurd hform (hclass decorators name superclass body isExpression)
  -- an import under its own name has one node for both
  | importSpecifier imported binding =>
    obtain ⟨himported, hbinding⟩ := hn.ofPair (a := imported) (b := binding)
      (by simp [Node.placedChildren, hform, Field.children])
    refine (renamed_marks hp himported hbinding).congr ?_
    ext x
    simp [hform]
  | importDefaultSpecifier binding =>
    refine (child_marks hp (hbelow hform rfl binding (by simp))).congr ?_
    ext x
    simp [hform]
  | importNamespaceSpecifier binding =>
    refine ((child_marks hp (hbelow hform rfl binding (by simp))).last fun _ => .pure _).congr ?_
    ext x
    simp [hform]
  | importDeclaration specifiers origin =>
    refine (importDeclaration_marks hp (fun m hm => hbelow hform rfl m (by simp [hm])) (hbelow
      hform rfl origin (by simp))).congr ?_
    ext x
    simp [hform]
  | exportSpecifier binding exported =>
    obtain ⟨hbinding, hexported⟩ := hn.ofPair (a := binding) (b := exported)
      (by simp [Node.placedChildren, hform, Field.children])
    refine (renamed_marks hp hbinding hexported).congr ?_
    ext x
    simp [hform]
  -- an export prints the decorators that stand before it
  | exportNamedDeclaration declaration specifiers origin =>
    cases declaration with
    | some declaration =>
      exact exportedNode_marks hp (hparts hform rfl) hw specifiers origin false (.inr hform)
    | none => exact exportNamesNode_marks hp (hparts hform rfl) hform
  | exportDefaultDeclaration declaration =>
    exact exportedNode_marks hp (hparts hform rfl) hw [] none true (.inl hform)
  | templateLiteral quasis expressions =>
    exact template_marks hp hform (hembeds quasis expressions hform) (fun m hm => hbelow hform rfl
      m (by simp [hm])) fun m hm => hbelow hform rfl m (by simp [hm])
  | taggedTemplate tag quasi =>
    refine ((child_marks hp (hbelow hform rfl tag (by simp))).bind fun _ => (child_marks hp (hbelow
      hform rfl quasi (by simp))).last fun _ => .pure _).congr ?_
    ext x
    simp [hform]
  | arrayExpression elements => exact arrayNode_marks hp (hparts hform rfl) hform
  -- a property that is its own key prints it once
  | objectProperty key value computed shorthand =>
    cases shorthand with
    | true =>
      refine (child_marks hp (hn.ofShorthand hw hform)).congr ?_
      ext x
      simp [hform]
    | false =>
      refine ((key_marks hp (hbelow hform rfl key (by simp))).bind fun _ =>
        assignment_marks hp (hbelow hform rfl value (by simp))).congr ?_
      ext x
      simp [hform]
  | objectMethod key params body kind computed isAsync generator =>
    exact objectMethodNode_marks hp (hparts hform rfl) hform
  | objectExpression properties =>
    refine (object_marks hp fun m hm => hbelow hform rfl m (by simp [hm])).congr ?_
    ext x
    simp [hform]
  | spreadElement argument =>
    refine ((child_marks hp (hbelow hform rfl argument (by simp))).last fun _ => .pure _).congr ?_
    ext x
    simp [hform]
  | restElement argument =>
    refine ((child_marks hp (hbelow hform rfl argument (by simp))).last fun _ => .pure _).congr ?_
    ext x
    simp [hform]
  | assignmentPattern left right =>
    refine ((child_marks hp (hbelow hform rfl left (by simp))).bind fun _ => (child_marks hp
      (hbelow hform rfl right (by simp))).last fun _ => .pure _).congr ?_
    ext x
    simp [hform]
  | memberExpression object property computed optional =>
    refine (memberExpression_marks hp (hbelow hform rfl object (by simp)) (hbelow hform rfl
      property (by simp))).congr ?_
    ext x
    simp [hform, or_comm]
  | callExpression callee args optional =>
    exact callExpression_marks hp hw hform (hbelow hform rfl callee (by simp)) fun m hm => hbelow
      hform rfl m (by simp [hm])
  | newExpression callee args =>
    exact newExpression_marks hp hform (hbelow hform rfl callee (by simp)) fun m hm => hbelow hform
      rfl m (by simp [hm])
  | arrowFunction params body isAsync => exact arrowNode_marks hp (hparts hform rfl) flags hform
  | unaryExpression operator argument =>
    refine (unary_marks hp (hbelow hform rfl argument (by simp))).congr ?_
    ext x
    simp [hform]
  | updateExpression operator argument before =>
    refine ((child_marks hp (hbelow hform rfl argument (by simp))).last fun _ => .pure _).congr ?_
    ext x
    simp [hform]
  | binaryExpression operator left right =>
    exact binary_marks hp hw (operands?_isSome (.inl hform)) hn
  | logicalExpression operator left right =>
    exact binary_marks hp hw (operands?_isSome (.inr hform)) hn
  | conditionalExpression test consequent alternate =>
    exact conditionalNode_marks hp (hparts hform rfl) hform
  | assignmentExpression operator left right =>
    refine ((child_marks hp (hbelow hform rfl left (by simp))).bind fun _ => assignment_marks hp
      (hbelow hform rfl right (by simp))).congr ?_
    ext x
    simp [hform]
  | sequenceExpression expressions =>
    refine (sequence_marks hp fun m hm => hbelow hform rfl m (by simp [hm])).congr ?_
    ext x
    simp [hform]
  | awaitExpression argument =>
    refine ((child_marks hp (hbelow hform rfl argument (by simp))).last fun _ => .pure _).congr ?_
    ext x
    simp [hform]
  | jsxNamespacedName space name =>
    refine ((child_marks hp (hbelow hform rfl space (by simp))).bind fun _ => (child_marks hp
      (hbelow hform rfl name (by simp))).last fun _ => .pure _).congr ?_
    ext x
    simp [hform]
  | jsxMemberExpression object property =>
    refine ((child_marks hp (hbelow hform rfl object (by simp))).bind fun _ => (child_marks hp
      (hbelow hform rfl property (by simp))).last fun _ => .pure _).congr ?_
    ext x
    simp [hform]
  | jsxAttribute name value =>
    exact tagAttribute_marks hp hform (hbelow hform rfl name (by simp)) fun m hm => hbelow hform
      rfl m (by simp [Option.mem_def.1 hm])
  | jsxSpreadAttribute argument =>
    refine (spread_marks hp (hbelow hform rfl argument (by simp))).congr ?_
    ext x
    simp [hform, or_comm]
  | jsxOpeningElement name attributes selfClosing =>
    refine (openingElement_marks hp (hbelow hform rfl name (by simp)) fun m hm => hbelow hform rfl
      m (by simp [hm])).congr ?_
    ext x
    simp [hform]
  | jsxClosingElement name =>
    refine ((child_marks hp (hbelow hform rfl name (by simp))).last fun _ => .pure _).congr ?_
    ext x
    simp [hform]
  | jsxOpeningFragment =>
    refine (fragmentEdge_marks).congr ?_
    ext x
    simp [hform]
  | jsxClosingFragment =>
    refine (fragmentEdge_marks).congr ?_
    ext x
    simp [hform]
  | jsxEmptyExpression =>
    refine (emptyExpression_marks).congr ?_
    ext x
    simp [hform]
  | jsxExpressionContainer e =>
    refine (container_marks hp (hbelow hform rfl e (by simp))).congr ?_
    ext x
    simp [hform]
  | jsxSpreadChild e =>
    refine (spread_marks hp (hbelow hform rfl e (by simp))).congr ?_
    ext x
    simp [hform, or_comm]
  -- markup prints the comments around it, too
  | jsxElement opening children closing => simp [Node.isMarkup, hform] at hmarkup
  | jsxFragment opening children closing => simp [Node.isMarkup, hform] at hmarkup
  | markupRoot children =>
    exact markupRoot_marks hp hform fun m hm => hbelow hform rfl m (by simp [hm])
  -- these have no parts and print no comments
  | emptyStatement | identifier | privateName | thisExpression | super | numericLiteral
  | stringLiteral | booleanLiteral | nullLiteral | templateElement | jsxIdentifier | jsxText
  | htmlComment =>
    refine (Marks.quiet fun _ _ => ⟨_, _, rfl⟩).congr ?_
    ext x
    simp [hform]

/-- A class marks what is shown in it, with its decorators. -/
theorem class_marks (flags : PrintFlags) (hw : root.WellBuilt) (hp : Prints c F root d print)
    (hn : root.Below (d + 1) p.node) {decorators : List Node} {name superclass : Option Node}
    {body : Node} {isExpression : Bool}
    (hform : p.node.form = .classDeclaration decorators name superclass body isExpression) :
    ∃ S T, Marks c F (byForm print p flags) S ∧ Marks c F (classDecorators? print p) T ∧
      S ∪ T = Visit.inner c { path := p } := by
  have hbelow : ∀ m ∈ p.node.form.children.map (·.2), root.Below d m :=
    fun m hm => hn.placed hw (by simp [hform]) hm
  simp only [hform] at hbelow
  -- the decorators may be printed by the export, and the body never is
  have hdecorators := classDecorators?_marks hp hform fun m hm => hbelow m (by simp [hm])
  have hname : ∀ m ∈ name, root.Below d m :=
    fun m hm => hbelow m (by simp [Option.mem_def.1 hm])
  have hsuperclass : ∀ m ∈ superclass, root.Below d m :=
    fun m hm => hbelow m (by simp [Option.mem_def.1 hm])
  have hbody := classDeclaration_marks (p := p) hp hname hsuperclass (hbelow body (by simp))
  have heq : byForm print p flags = classDeclaration print p name superclass body := by
    unfold byForm
    rw [hform]
  refine ⟨_, _, heq ▸ hbody, hdecorators, ?_⟩
  ext x
  -- either way each decorator is printed once
  cases hearly : p.parent?.any Node.isDecoratedBeforeExport <;>
  · simp [hform, hearly]
    grind [Path.slot?_item, Path.slot?_child]

/-- Markup prints its own comments. -/
theorem markup_marks (hw : root.WellBuilt) (hp : Prints c F root d print)
    (hn : root.Below (d + 1) p.node) (hmarkup : p.node.isMarkup = true) :
    Marks c F (byForm print p flags)
      (Visit.inner c { path := p } ∪ {x | x ∈ c.attachments.around p.node}) := by
  have hbelow : ∀ {form : Form Node}, p.node.form = form → form.mayRepeat = false → ∀ m,
      m ∈ form.children.map (·.2) → root.Below d m :=
    fun hform hrepeat m hm => hn.ofForm hw hform hrepeat hm
  unfold Node.isMarkup at hmarkup
  unfold byForm
  -- an element or a fragment
  split at hmarkup
  next opening children closing hform =>
    rw [hform]
    exact (elementBody_marks hp hform (hbelow hform rfl opening (by simp))
      (fun m hm => hbelow hform rfl m (by simp [hm]))
      (fun m hm => hbelow hform rfl m (by simp [Option.mem_def.1 hm]))).bind fun _ => wrapped_marks _
  next opening children closing hform =>
    rw [hform]
    exact (fragmentBody_marks hp hform (hbelow hform rfl opening (by simp))
      (fun m hm => hbelow hform rfl m (by simp [hm]))
      (hbelow hform rfl closing (by simp))).bind fun _ => wrapped_marks _
  next => cases hmarkup

end

/-- What is printed inside a node and around it: its decorators, if it is a class, and its comments,
if it is markup. -/
theorem body_marks (flags : PrintFlags) (hw : root.WellBuilt) (hp : Prints c F root d print)
    (hn : root.Below (d + 1) p.node)
    (hembeds : ∀ quasis expressions, p.node.form = .templateLiteral quasis expressions →
      Embed.Embeds c F quasis expressions) :
    ∃ S T, Marks c F (byForm print p flags) S ∧ Marks c F (classDecorators? print p) T ∧
      S ∪ T = Visit.inner c { path := p } ∪
        {x | p.node.isMarkup = true ∧ x ∈ c.attachments.around p.node} := by
  -- only a class has decorators, and only markup prints what is around it
  by_cases hclass : ∃ decorators name superclass body isExpression,
      p.node.form = .classDeclaration decorators name superclass body isExpression
  · obtain ⟨decorators, name, superclass, body, isExpression, hform⟩ := hclass
    obtain ⟨S, T, hS, hT, heq⟩ := class_marks flags hw hp hn hform
    refine ⟨S, T, hS, hT, ?_⟩
    have hmarkup : p.node.isMarkup = false := by simp [Node.isMarkup, hform]
    simp [heq, hmarkup]
  · simp only [not_exists] at hclass
    have hquiet := classDecorators?_quiet (c := c) (F := F) print hclass
    cases hmarkup : p.node.isMarkup with
    | true => exact ⟨_, _, markup_marks hw hp hn hmarkup, hquiet, by simp⟩
    | false => exact ⟨_, _, byForm_marks hw hp hn hembeds hclass hmarkup, hquiet, by simp⟩

/-- A node marks what is shown at it, with the comments around it. -/
theorem whole_marks (hw : root.WellBuilt) (hp : Prints c F root d print)
    (hn : root.Below (d + 1) p.node)
    (hembeds : ∀ quasis expressions, p.node.form = .templateLiteral quasis expressions →
      Embed.Embeds c F quasis expressions) :
    Marks c F (whole print p flags) (seen c p) := by
  unfold whole
  refine .look c.attachments (fun _ _ => rfl) ?_
  dsimp only
  cases hkept : Visit.isKept c { path := p } with
  | true =>
    -- a node that is left as it is brings the comments in its range along
    have hignored : (c.attachments.isIgnored p.node ||
        p.isIgnoredBySibling c.attachments) = true := by
      simpa [Visit.isKept] using hkept
    rw [if_pos hignored]
    refine ((markRange_marks p.node.start p.node.stop).bind
      (T := {x | x ∈ c.attachments.around p.node}) fun _ => ?_).congr ?_
    · refine .look c.source (fun _ _ => rfl) ?_
      exact withComments_marks p.node _
    · ext x
      rw [seen, Set.mem_ofPred_eq, shown_of_kept hkept]
      rfl
  | false =>
    have hignored : (c.attachments.isIgnored p.node ||
        p.isIgnoredBySibling c.attachments) = false := by
      simpa [Visit.isKept] using hkept
    rw [if_neg (by simp [hignored])]
    obtain ⟨S, T, hS, hT, heq⟩ := body_marks flags hw hp hn hembeds
    -- whether the comments around the node are still to be printed
    have hown : ∀ (doc : Doc), Marks c F (if printsOwnComments p = true then pure doc
        else withComments p.node doc)
        {x | printsOwnComments p = false ∧ x ∈ c.attachments.around p.node} := by
      intro doc
      by_cases h : printsOwnComments p = true
      · rw [if_pos h]
        exact (Marks.pure _).congr (by simp [h])
      · rw [if_neg h]
        exact (withComments_marks p.node doc).congr (by simp [h])
    refine (hS.bind (T := T ∪ {x | printsOwnComments p = false ∧
      x ∈ c.attachments.around p.node}) fun _ => ?_).congr ?_
    · exact .look c (fun _ _ => rfl) (hT.bind fun o => hown _)
    · rw [← Set.union_assoc, heq]
      ext x
      rw [seen, Set.mem_ofPred_eq, shown_of_not_kept hkept]
      have hmarkup : p.node.isMarkup = true → printsOwnComments p = true := by
        intro h
        simp [printsOwnComments, h]
      simp only [Set.mem_union, Set.mem_ofPred_eq, Visit.own]
      cases h : printsOwnComments p <;> cases h' : p.node.isMarkup <;>
        simp_all [or_comm]

/-- What the printers of all templates in a tree rely on. -/
def EmbedsAll (c : PrintContext) (F : FormatFault → Prop) (root : Node) : Prop :=
  ∀ n quasis expressions, root.Reaches n → n.form = .templateLiteral quasis expressions →
    Embed.Embeds c F quasis expressions

/-- All nodes are printed with what is shown at them, by induction on how deep they are. -/
theorem downTo_prints (hw : root.WellBuilt) (hembeds : EmbedsAll c F root) (d : Nat) :
    Prints c F root d (downTo d) := by
  induction d with
  | zero =>
    -- no node has the height zero
    intro p flags hn
    have hheight := hn.height
    rw [Node.height] at hheight
    omega
  | succ d ih =>
    intro p flags hn
    exact whole_marks hw ih hn fun quasis expressions hform =>
      hembeds p.node quasis expressions hn.reaches hform

/-- The first comment that is not marked is reported. -/
theorem ensureAllPrinted_apply (s : PrintedComments) (notes : List Note) :
    ensureAllPrinted c s notes = match c.comments.find? fun x => !s.contains x with
      | some x => (.error (.lostComment x), notes)
      | none => (.ok ((), s), notes) := by
  show (match c.comments.find? fun x => !s.contains x with
    | some x => throw (.lostComment x)
    | none => pure () : Print Unit) c s notes = _
  cases c.comments.find? fun x => !s.contains x <;> rfl

/-- All comments are shown if printing succeeds; otherwise it fails with a fault in `F`, or with a
comment that is not shown. -/
def Outcome {α : Type} (F : FormatFault → Prop) (comments : List Comment) (Shows : Comment → Prop) :
    Except FormatFault α → Prop
  | .ok _ => ∀ x ∈ comments, Shows x
  | .error f => F f ∨ ∃ x ∈ comments, f = .lostComment x ∧ ¬Shows x

/-- The result may be changed behind the outcome. -/
theorem Outcome.map {α β : Type} {comments : List Comment} {Shows : Comment → Prop}
    {r : Except FormatFault α} (h : Outcome F comments Shows r) (g : α → β) :
    Outcome F comments Shows (r.map g) := by
  cases r <;> exact h

/-- A tree is printed if all its comments are shown, and given up on for one that is not. -/
theorem tree_outcome (hw : root.WellBuilt) (hembeds : EmbedsAll c F root)
    (hattached : ∀ n, ∀ a ∈ c.attachments.of n, a.comment ∈ c.comments)
    (hstarts : ∀ x ∈ c.comments, ∀ y ∈ c.comments, x.start = y.start → x = y)
    (notes : List Note) :
    Outcome F c.comments (Shown c { path := .ofRoot root }) (tree root c {} notes).1 := by
  have hprints := downTo_prints hw hembeds root.height (.ofRoot root) {} ⟨.here, Nat.le_refl _⟩
  unfold tree
  rw [Marks.bind_apply]
  -- a fault of the printer ends it; otherwise the comments that were not marked are looked for
  rcases h : downTo root.height (.ofRoot root) {} c {} notes with ⟨f | ⟨doc, s⟩, notes'⟩
  · exact .inl (hprints.fault h)
  · -- a comment is marked exactly if it is shown
    have hmarked : ∀ x ∈ c.comments, s.contains x = true ↔ Shown c { path := .ofRoot root } x := by
      intro x hx
      rw [PrintedComments.contains, List.contains_iff_mem, hprints.ok h]
      constructor
      · rintro (hnone | ⟨y, hy, heq⟩)
        · cases hnone
        · exact hstarts y (shown_mem hattached hy) x hx heq ▸ hy
      · intro hshown
        exact .inr ⟨x, hshown, rfl⟩
    simp only
    rw [Marks.bind_apply, ensureAllPrinted_apply]
    -- the first comment that is not marked is the fault
    cases hfind : c.comments.find? fun x => !s.contains x with
    | some x =>
      have hmem := List.mem_of_find?_eq_some hfind
      have hlost := List.find?_some hfind
      refine .inr ⟨x, hmem, rfl, fun hshown => ?_⟩
      simp [(hmarked x hmem).2 hshown] at hlost
    -- all are marked, so all are shown
    | none =>
      intro x hx
      have hkept := List.find?_eq_none.1 hfind x hx
      exact (hmarked x hx).1 (by simpa using hkept)

end Print

end Reflow
