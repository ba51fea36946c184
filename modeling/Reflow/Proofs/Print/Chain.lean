import Reflow.Proofs.Print.Parts

/-!
# What calls, chains and operators mark

The links of a chain of accesses and the operands of a chain of operators are printed as parts of the
expression around them.  Both are followed down to where the chain ends.

## Key results

- `arguments_marks`: the arguments of a call, or the comments between its parentheses
- `chainLinks_marks`, `chainParts_marks`: chains of accesses and of operators
-/

namespace Reflow.Print

variable {c : PrintContext} {F : FormatFault → Prop} {root : Node} {d : Nat} {p : Path}
  {print : PrintNode} (hp : Prints c F root d print)

/-- The comments inside a call without arguments. -/
def betweenCallParens (c : PrintContext) (n : Node) (args : List Node) : Set Comment :=
  {x | x ∈ (c.attachments.inside n).filter fun _ => args.isEmpty}

section

-- where the printers go is read off the form
attribute [local simp] Visit.inner Visit.goesTo Visit.inlines Visit.showsInside Visit.borrowed
  Visit.earlyDecorators Form.exported? Path.inside_eq Path.ofField Form.fields Path.mem_items seen
  seenAll

include hp

/-- Arguments that are printed one by one mark what is shown at them. -/
theorem separateArguments_marks {args : List Node} (hargs : ∀ n ∈ args, root.Below d n) :
    Marks c F (separateArguments print p args) (seenAll c (p.items .arguments args)) := by
  unfold separateArguments
  refine .look _ (fun _ _ => rfl) ?_
  exact (items_marks hp hargs).last fun _ => .quiet fun _ _ => ⟨_, _, rfl⟩

/-- Arguments mark what is shown at them, and what dangles between the parentheses. -/
theorem arguments_marks {callee : Node} {args : List Node} (hargs : ∀ n ∈ args, root.Below d n) :
    Marks c F (arguments print p callee args)
      (betweenCallParens c p.node args ∪ seenAll c (p.items .arguments args)) := by
  unfold arguments
  refine .look _ (fun _ _ => rfl) ?_
  by_cases hempty : args.isEmpty = true
  · rw [if_pos hempty]
    refine ((dangling_marks_all p.node).last fun _ => .pure _).congr ?_
    simp [betweenCallParens, List.isEmpty_iff.1 hempty, Path.items, seenAll]
  · rw [if_neg hempty]
    have hnone : betweenCallParens c p.node args = ∅ := by simp [betweenCallParens, hempty]
    rw [hnone, Set.empty_union]
    refine .ite (fun _ => (items_marks hp hargs).last fun _ => .pure _) fun _ => ?_
    refine (separateArguments_marks hp hargs).again fun separate => ?_
    -- an argument that hugs the parentheses is printed a second time
    have hagain : ∀ {i : Nat} {n : Node} {flags : PrintFlags} {k : Doc → Doc}, args[i]? = some n →
        ∃ T ⊆ seenAll c (p.items .arguments args), Marks c F (do
          let expanded ← print (p.item .arguments i n) flags
          return k expanded) T := by
      intro i n flags k hn
      refine ⟨seen c (p.item .arguments i n), fun x hx => ?_, ?_⟩
      · exact ⟨_, Path.mem_items.2 ⟨i, n, hn, rfl⟩, hx⟩
      · exact (hp _ flags (hargs n (List.mem_of_getElem? hn))).last fun _ => .pure _
    split
    · exact ⟨∅, Set.empty_subset _, .pure _⟩
    · split
      next first hfirst _ => exact hagain (by rwa [← List.head?_eq_getElem?])
      next last _ hlast => exact hagain (by rwa [← List.getLast?_eq_getElem?])
      next => exact ⟨∅, Set.empty_subset _, .pure _⟩

/-! ### Chains of accesses -/

/-- A lookup marks what is shown at its name. -/
theorem memberLookup_marks {property : Node} {computed : Bool} (hproperty : root.Below d property) :
    Marks c F (memberLookup print p property computed) (seen c (p.child .property property)) := by
  unfold memberLookup
  refine (child_marks hp hproperty).last fun _ => ?_
  exact .ite (fun _ => .pure _) fun _ => .ite (fun _ => .pure _) fun _ => .pure _

/-- An access marks what is shown at its object and at its name. -/
theorem memberExpression_marks {object property : Node} {computed : Bool}
    (hobject : root.Below d object) (hproperty : root.Below d property) :
    Marks c F (memberExpression print p object property computed)
      (seen c (p.child .property property) ∪ seen c (p.child .object object)) := by
  unfold memberExpression
  refine (memberLookup_marks hp hproperty).bind fun _ => ?_
  exact (child_marks hp hobject).last fun _ => .pure _

/-- The end of a call marks its arguments, and what dangles between its parentheses. -/
theorem callTail_marks {callee : Node} {args : List Node} (hargs : ∀ n ∈ args, root.Below d n) :
    Marks c F (callTail print p callee args)
      (betweenCallParens c p.node args ∪ seenAll c (p.items .arguments args)) := by
  unfold callTail
  exact (arguments_marks hp hargs).last fun _ => .pure _

omit hp in
/-- A link of a chain hangs on a callee or on an object. -/
theorem chainStep?_eq_some {n inner : Node} {slot : Slot} (h : n.chainStep? = some (slot, inner)) :
    (∃ args optional, n.form = .callExpression inner args optional ∧ slot = .callee ∧
      inner.isNamed ["require", "define"] = false) ∨
    ∃ property computed optional, n.form = .memberExpression inner property computed optional ∧
      slot = .object := by
  unfold Node.chainStep? at h
  split at h
  next callee args optional =>
    split at h
    next hcallee =>
      obtain ⟨rfl, rfl⟩ := Prod.mk.inj (Option.some.inj h)
      refine .inl ⟨args, optional, rfl, rfl, ?_⟩
      -- what is called is an access or a call itself, not a name
      unfold Node.isNamed
      split
      next hname => simp [Node.isMember, Node.isCall, hname] at hcallee
      next => rfl
    next => cases h
  next object property computed optional =>
    obtain ⟨rfl, rfl⟩ := Prod.mk.inj (Option.some.inj h)
    exact .inr ⟨property, computed, optional, rfl, rfl⟩
  next => cases h

/-- The link of a call marks its arguments, and the comments around the call. -/
theorem chainLink_call_marks {callee : Node} {args : List Node} {optional : Bool}
    (hform : p.node.form = .callExpression callee args optional)
    (hargs : ∀ n ∈ args, root.Below d n) :
    Marks c F (chainLink print p)
      (betweenCallParens c p.node args ∪ seenAll c (p.items .arguments args) ∪
        {x | x ∈ c.attachments.around p.node}) := by
  unfold chainLink
  rw [hform]
  refine (callTail_marks hp hargs).bind fun _ => ?_
  exact (withComments_marks p.node _).last fun _ => .quiet fun _ _ => ⟨_, _, rfl⟩

/-- The link of an access marks its name, and the comments around the access. -/
theorem chainLink_member_marks {object property : Node} {computed optional : Bool}
    (hform : p.node.form = .memberExpression object property computed optional)
    (hproperty : root.Below d property) :
    Marks c F (chainLink print p)
      (seen c (p.child .property property) ∪ {x | x ∈ c.attachments.around p.node}) := by
  unfold chainLink
  rw [hform]
  refine (memberLookup_marks hp hproperty).bind fun _ => ?_
  exact (withComments_marks p.node _).last fun _ => .pure _

/-- The links of a chain mark what is shown along the chain. -/
theorem chainLinks_marks (hw : root.WellBuilt) (hn : root.Below d p.node) :
    Marks c F (chainLinks print p) {x | Shown c ⟨p, p.node.chainStep?.isSome⟩ x} := by
  -- by recursion down the chain, from the last link to the first
  fun_induction chainLinks print p with
  | case1 p hstep =>
    rw [hstep]
    -- the node at the bottom is printed as any other
    exact (hp p {} hn).last fun _ => .pure _
  | case2 p slot inner hstep ih =>
    rw [hstep, Option.isSome_some]
    rcases chainStep?_eq_some hstep with
      ⟨args, optional, hform, rfl, hname⟩ | ⟨property, computed, optional, hform, rfl⟩
    · -- a call prints the comments between its parentheses and its arguments
      have hbelow : ∀ m, m = inner ∨ m ∈ args → root.Below d m := fun m hm =>
        hn.succ.placed hw (by rw [hform]; rfl)
          (by simpa [hform, Form.children, Form.fields] using hm)
      have hlink := chainLink_call_marks hp hform fun m hm => hbelow m (.inr hm)
      have hrest := ih (hbelow inner (.inl rfl))
      refine (hlink.bind fun _ => hrest.last fun _ => .pure _).congr ?_
      ext x
      simp [shown_inline, hform, hname, betweenCallParens, or_comm, or_left_comm]
    · -- a member prints its property
      have hbelow : ∀ m, m = inner ∨ m = property → root.Below d m := fun m hm =>
        hn.succ.placed hw (by rw [hform]; rfl)
          (by simpa [hform, Form.children, Form.fields] using hm)
      have hlink := chainLink_member_marks hp hform (hbelow property (.inr rfl))
      have hrest := ih (hbelow inner (.inl rfl))
      refine (hlink.bind fun _ => hrest.last fun _ => .pure _).congr ?_
      ext x
      simp [shown_inline, hform, or_comm, or_left_comm]

/-- A chain marks what is shown at the call that it ends with and along the chain. -/
theorem memberChain_marks (hw : root.WellBuilt) {callee : Node} {args : List Node}
    (hcallee : root.Below d callee) (hargs : ∀ n ∈ args, root.Below d n) :
    Marks c F (memberChain print p callee args)
      (betweenCallParens c p.node args ∪ seenAll c (p.items .arguments args) ∪
        {x | Shown c ⟨p.child .callee callee, callee.chainStep?.isSome⟩ x}) := by
  unfold memberChain
  refine (callTail_marks hp hargs).bind fun _ => ?_
  exact (chainLinks_marks hp hw hcallee).last fun _ => .quiet fun _ _ => ⟨_, _, rfl⟩

omit hp in
/-- A call that stays on its line is no chain, and it has arguments or one of two names. -/
theorem of_staysOnLine {callee : Node} {args : List Node} {optional : Bool}
    (hform : p.node.form = .callExpression callee args optional)
    (h : (callee.isNamed ["require", "define"] || p.node.isTestCall || hangs c.source args) = true) :
    printsAsChain c.source p callee args = false ∧
      (args.isEmpty && !callee.isNamed ["require", "define"]) = false := by
  constructor
  · -- a name is no member, so a call by name is no chain
    by_cases hname : callee.isNamed ["require", "define"] = true
    · have hmember : callee.isMember = false := by
        unfold Node.isNamed at hname
        split at hname
        next hcallee => simp [Node.isMember, hcallee]
        next => cases hname
      simp [printsAsChain, hmember]
    · simp only [hname, Bool.false_or, Bool.or_eq_true] at h
      rcases h with h | h
      · simp [printsAsChain, h]
      · simp [printsAsChain, h]
  · -- without arguments nothing hangs, and no test is called
    cases args with
    | nil => simpa [Node.isTestCall, hform, hangs] using h
    | cons => rfl

/-- A call marks what is shown in it, printed as a chain or not. -/
theorem callExpression_marks (hw : root.WellBuilt) {callee : Node} {args : List Node}
    {optional : Bool} (hform : p.node.form = .callExpression callee args optional)
    (hcallee : root.Below d callee) (hargs : ∀ n ∈ args, root.Below d n) :
    Marks c F (callExpression print p callee args false) (Visit.inner c { path := p }) := by
  unfold callExpression
  refine .look _ (fun _ _ => rfl) ?_
  change Marks c F (if (callee.isNamed ["require", "define"] || p.node.isTestCall ||
    hangs c.source args) = true then _ else _) _
  by_cases hline : (callee.isNamed ["require", "define"] || p.node.isTestCall ||
      hangs c.source args) = true
  · -- on its line the callee and the arguments are printed, and no parentheses are empty
    obtain ⟨hchain, hinside⟩ := of_staysOnLine hform hline
    rw [if_pos hline]
    refine ((child_marks hp hcallee).bind fun _ =>
      (items_marks hp hargs).last fun _ => .pure _).congr ?_
    ext x
    simp [hform, hchain, hinside]
  · rw [if_neg hline]
    simp only [Bool.or_eq_true, not_or, Bool.not_eq_true] at hline
    obtain ⟨⟨hname, htest⟩, hhangs⟩ := hline
    -- a chain prints its links, and the comments of the call with the last one
    by_cases hmember : callee.isMember = true
    · have hchain : printsAsChain c.source p callee args = true := by
        simp [printsAsChain, hmember, htest, hhangs]
      rw [if_pos (by simpa using hmember)]
      refine (memberChain_marks hp hw hcallee hargs).congr ?_
      ext x
      simp [hform, hchain, hname, betweenCallParens, or_comm, or_left_comm]
    · -- any other call prints its callee and its arguments
      have hchain : printsAsChain c.source p callee args = false := by
        simp [printsAsChain, hmember]
      rw [if_neg (by simpa using hmember)]
      refine ((child_marks hp hcallee).bind fun _ =>
        (arguments_marks hp hargs).last fun _ => .pure _).congr ?_
      ext x
      simp [hform, hchain, hname, betweenCallParens, or_left_comm]

/-- So does a construction. -/
theorem newExpression_marks {callee : Node} {args : List Node}
    (hform : p.node.form = .newExpression callee args)
    (hcallee : root.Below d callee) (hargs : ∀ n ∈ args, root.Below d n) :
    Marks c F (callExpression print p callee args true) (Visit.inner c { path := p }) := by
  unfold callExpression
  refine .look _ (fun _ _ => rfl) ?_
  change Marks c F (if hangs c.source args = true then _ else _) _
  by_cases hhangs : hangs c.source args = true
  · -- what hangs is an argument, so there is one
    have hempty : args.isEmpty = false := by
      cases args with
      | nil => simp [hangs] at hhangs
      | cons => rfl
    rw [if_pos hhangs]
    refine ((child_marks hp hcallee).bind fun _ =>
      (items_marks hp hargs).last fun _ => .pure _).congr ?_
    ext x
    simp [hform, hempty]
  · rw [if_neg hhangs]
    refine ((child_marks hp hcallee).bind fun _ =>
      (arguments_marks hp hargs).last fun _ => .pure _).congr ?_
    ext x
    simp [hform, betweenCallParens, or_left_comm]

/-! ### Chains of operators -/

omit hp in
/-- An expression with two operands is one of two forms. -/
theorem operands?_eq_some {n left right : Node} {operator : String}
    (h : n.operands? = some (operator, left, right)) :
    n.form = .binaryExpression operator left right ∨
      n.form = .logicalExpression operator left right := by
  unfold Node.operands? at h
  split at h
  · cases h
    exact .inl rfl
  · cases h
    exact .inr rfl
  · cases h

omit hp in
/-- Where a chain of operators goes on, there is an operator. -/
theorem operands?_of_joinsChain {operator : String} {left : Node}
    (h : left.joinsChain operator = true) : left.operands?.isSome = true := by
  obtain ⟨id, span, form⟩ := left
  cases form <;> simp [Node.joinsChain, Node.binaryOperator?, Node.form, Node.operands?] at h ⊢

omit hp in
/-- What is shown at the two operands. -/
theorem inner_of_operands {left right : Node} {operator : String} {inline : Bool}
    (h : p.node.operands? = some (operator, left, right)) :
    Visit.inner c ⟨p, inline⟩ = {x | Shown c ⟨p.child .left left, left.joinsChain operator⟩ x} ∪
      seen c (p.child .right right) := by
  ext x
  rcases operands?_eq_some h with hform | hform <;> simp [hform]

omit hp in
/-- The comments of an expression that is part of another chain. -/
theorem nestedComments_marks (nested : Bool) (parts : List Doc) :
    Marks c F (if _ : (nested && c.attachments.has p.node) = true then do
        let whole ← withComments p.node (.cat parts)
        pure [whole]
      else pure parts) {x | nested = true ∧ x ∈ c.attachments.around p.node} := by
  split
  next h =>
    refine ((withComments_marks p.node _).last fun _ => .pure _).congr ?_
    simp only [Bool.and_eq_true] at h
    simp [h.1]
  next h =>
    refine (Marks.pure _).congr ?_
    -- without comments there is nothing to bring along
    ext x
    cases nested with
    | false => simp
    | true =>
      have hnone : c.attachments.of p.node = [] := by simpa [Attachments.has] using h
      simp [Attachments.around, hnone]

/-- A chain that is part of another brings its own comments along. -/
theorem chainParts_marks (hw : root.WellBuilt) (insideParens nested : Bool)
    (hoperands : p.node.operands?.isSome = true) (hn : root.Below (d + 1) p.node) :
    Marks c F (chainParts print insideParens nested p)
      (Visit.inner c ⟨p, nested⟩ ∪ {x | nested = true ∧ x ∈ c.attachments.around p.node}) := by
  have hbelow : ∀ {p : Path} {operator : String} {left right : Node},
      p.node.operands? = some (operator, left, right) → root.Below (d + 1) p.node →
      root.Below d left ∧ root.Below d right := by
    intro p operator left right h hn
    rcases operands?_eq_some h with hform | hform <;>
      exact ⟨hn.placed hw (by rw [hform]; rfl) (by simp [hform, Form.children, Form.fields]),
        hn.placed hw (by rw [hform]; rfl) (by simp [hform, Form.children, Form.fields])⟩
  -- by recursion down the operands on the left
  fun_induction chainParts print insideParens nested p with
  | case1 nested p hnone => simp [hnone] at hoperands
  | case2 nested p operator left right hsome rest hjoins ih =>
    obtain ⟨hleft, hright⟩ := hbelow hsome hn
    -- the chain on the left brings its comments along
    have hfirst : Marks c F (chainParts print insideParens true (p.child .left left))
        {x | Shown c ⟨p.child .left left, true⟩ x} := by
      refine (ih (operands?_of_joinsChain hjoins) hleft.succ).congr ?_
      ext x
      rw [Set.mem_ofPred_eq, shown_inline, or_comm]
      simp only [Set.mem_union, Set.mem_ofPred_eq, true_and, Path.node_child]
    -- the operand on the right follows the chain or the operand on the left
    have hrest : ∀ first, Marks c F (rest first) _ := fun _ =>
      (child_marks hp hright).bind fun _ => .look _ (fun _ _ => rfl) (nestedComments_marks _ _)
    refine (hfirst.bind hrest).congr ?_
    rw [inner_of_operands hsome, hjoins, Set.union_assoc]
  -- the operand on the left is printed as any other
  | case3 nested p operator left right hsome rest hjoins =>
    obtain ⟨hleft, hright⟩ := hbelow hsome hn
    have hrest : ∀ first, Marks c F (rest first) _ := fun _ =>
      (child_marks hp hright).bind fun _ => .look _ (fun _ _ => rfl) (nestedComments_marks _ _)
    refine ((child_marks hp hleft).bind fun _ => hrest _).congr ?_
    rw [Bool.not_eq_true] at hjoins
    rw [inner_of_operands hsome, hjoins, Set.union_assoc]
    rfl

/-- An operation marks what is shown in it, flattened or not. -/
theorem binary_marks (hw : root.WellBuilt) {operator : String} {left right : Node}
    (hoperands : p.node.operands?.isSome = true) (hn : root.Below (d + 1) p.node) :
    Marks c F (binary print p operator left right) (Visit.inner c { path := p }) := by
  unfold binary
  refine ((chainParts_marks hp hw p.isCondition false hoperands hn).last fun _ => ?_).congr
    (by simp)
  refine .ite (fun _ => .pure _) fun _ => .ite (fun _ => .pure _) fun _ => ?_
  exact .ite (fun _ => .pure _) fun _ => .ite (fun _ => .pure _) fun _ => .pure _

end

end Reflow.Print
