import Reflow.Proofs.Expression.Written

/-!
# Dressed expressions are readable

The rank of an expression tells how tightly its outermost operator binds.  The grammar demands a rank
at each place of a form, and an expression is readable if it has the demanded rank everywhere.  Where
the printer puts no parentheses, a child has the rank that is demanded there.

## Key results

- `Expression.Readable`: every part binds as tightly as the grammar demands
- `demand_le_level`: a child that gets no parentheses binds as tightly as its place demands
- `Expression.dressed_readable`: with the parentheses that it needs, an expression is readable
- `Expression.shows_of_dressed`: parentheses do not change what an expression shows
-/

namespace Reflow

/-! ## Ranks -/

mutual

/-- How tightly what is assigned to binds: an access behind a call binds as a call does. -/
def Target.rank : Target → Nat
  | .name _ => 19
  | .dotted object _ _ | .computed object _ _ => min 18 object.rank

/-- How tightly the outermost operator of an expression binds.  A sequence binds most loosely;
accesses and calls bind more tightly than all operators, and those without a call most tightly. -/
def Expression.rank : Expression → Nat
  | .target t => t.rank
  | .group _ => 19
  | .unary .. | .await _ => 16
  | .binary operator _ _ => 3 + Operator.precedence operator.text
  | .conditional .. => 2
  | .call .. => 17
  | .construct .. => 18
  | .assign .. => 1
  | .sequence .. => 0

end

/-- The rank that the left operand of an operator must have: it goes on the operator's own tier, but a
power groups from the right. -/
def Operator.leftRank (operator : String) : Nat :=
  if operator = "**" then 16 else 3 + Operator.precedence operator

/-- Would the sign run into a sign that the operand starts with? -/
def Expression.clashes (operator : String) : Expression → Bool
  | .unary inner _ => inner.text == operator && (inner.text == "+" || inner.text == "-")
  | _ => false

/-- Every part of the expression binds as tightly as the grammar demands. -/
inductive Expression.Readable : Expression → Prop where
  | name {x : OrdinaryName} : Readable (.target (.name x))
  | dotted {object : Expression} {property : OrdinaryName} {optional : Bool}
      (ho : Readable object) (hrank : 17 ≤ object.rank) :
      Readable (.target (.dotted object property optional))
  | computed {object property : Expression} {optional : Bool} (ho : Readable object)
      (hrank : 17 ≤ object.rank) (hp : Readable property) :
      Readable (.target (.computed object property optional))
  | group {inner : Expression} (h : Readable inner) : Readable (.group inner)
  | unary {operator : UnaryOperator} {argument : Expression} (ha : Readable argument)
      (hrank : 16 ≤ argument.rank) (hsign : argument.clashes operator.text = false) :
      Readable (.unary operator argument)
  | await {argument : Expression} (ha : Readable argument) (hrank : 16 ≤ argument.rank) :
      Readable (.await argument)
  | binary {operator : BinaryOperator} {left right : Expression} (hl : Readable left)
      (hleft : Operator.leftRank operator.text ≤ left.rank) (hr : Readable right)
      (hright : 4 + Operator.precedence operator.text ≤ right.rank) :
      Readable (.binary operator left right)
  | conditional {test consequent alternate : Expression} (ht : Readable test)
      (htest : 3 ≤ test.rank) (hc : Readable consequent) (hconsequent : 1 ≤ consequent.rank)
      (ha : Readable alternate) (halternate : 1 ≤ alternate.rank) :
      Readable (.conditional test consequent alternate)
  | call {callee : Expression} {arguments : List Expression} {optional : Bool}
      (hc : Readable callee) (hrank : 17 ≤ callee.rank) (has : ∀ e ∈ arguments, Readable e)
      (hranks : ∀ e ∈ arguments, 1 ≤ e.rank) : Readable (.call callee arguments optional)
  | construct {callee : Expression} {arguments : List Expression} (hc : Readable callee)
      (hrank : 18 ≤ callee.rank) (has : ∀ e ∈ arguments, Readable e)
      (hranks : ∀ e ∈ arguments, 1 ≤ e.rank) : Readable (.construct callee arguments)
  | assign {operator : AssignmentOperator} {target : Target} {value : Expression}
      (ht : Readable (.target target)) (hv : Readable value) (hrank : 1 ≤ value.rank) :
      Readable (.assign operator target value)
  | sequence {first second : Expression} {more : List Expression} (hf : Readable first)
      (hfirst : 2 ≤ first.rank) (hs : Readable second) (hsecond : 2 ≤ second.rank)
      (hm : ∀ e ∈ more, Readable e) (hmore : ∀ e ∈ more, 2 ≤ e.rank) :
      Readable (.sequence first second more)

/-- Targets have the greatest rank. -/
theorem Expression.Readable.le_rank_target {t : Target} (h : Readable (.target t)) : 17 ≤ t.rank := by
  cases h with
  | name => exact Nat.le_add_right 17 2
  | dotted _ hrank | computed _ hrank => exact Nat.le_min.2 ⟨Nat.le_succ 17, hrank⟩

/-! ## What the printer leaves bare -/

/-- A bound on the rank of an expression that does not look into it. -/
def Expression.level : Expression → Nat
  | .target (.name _) => 19
  | .target _ => 17
  | .group inner => inner.level
  | .unary .. | .await _ => 16
  | .binary operator _ _ => 3 + Operator.precedence operator.text
  | .conditional .. => 2
  | .call .. => 17
  | .construct .. => 18
  | .assign .. => 1
  | .sequence .. => 0

/-- The rank that the grammar demands at a place of a form. -/
def demand (parent : Form Node) (slot : Slot) : Nat :=
  match parent, slot with
  | .unaryExpression .., _ | .awaitExpression _, _ => 16
  | .binaryExpression operator _ _, .left | .logicalExpression operator _ _, .left =>
    Operator.leftRank operator
  | .binaryExpression operator _ _, .right | .logicalExpression operator _ _, .right =>
    4 + Operator.precedence operator
  | .conditionalExpression .., .test => 3
  | .conditionalExpression .., _ => 1
  | .memberExpression .., .object => 17
  | .callExpression .., .callee | .newExpression .., .callee => 17
  | .callExpression .., .arguments | .newExpression .., .arguments => 1
  | .assignmentExpression .., .right => 1
  | .sequenceExpression _, _ => 2
  | _, _ => 0

/-- There are thirteen tiers of operators. -/
theorem Operator.precedence_le (operator : String) : precedence operator ≤ 12 := by
  unfold precedence precedence?
  cases h : tiers.findIdx? (·.contains operator) with
  | none => exact Nat.zero_le _
  | some tier => exact Nat.le_of_lt_succ (List.findIdx?_eq_some_iff_getElem.1 h).1

/-- The operand on the left need not be more than one of a prefix operator. -/
theorem Operator.leftRank_le (operator : String) : leftRank operator ≤ 16 := by
  have := precedence_le operator
  unfold leftRank
  split <;> omega

/-- The tier of an operator is the least rank of its left operand. -/
theorem Operator.le_leftRank (operator : String) : 3 + precedence operator ≤ leftRank operator := by
  have := precedence_le operator
  unfold leftRank
  split <;> omega

/-- No place demands more than the rank of a target. -/
theorem demand_le (parent : Form Node) (slot : Slot) : demand parent slot ≤ 17 := by
  unfold demand
  split <;> grind [Operator.leftRank_le, Operator.precedence_le]

namespace Parens

/-- Powers are never written flat. -/
theorem not_shouldFlatten_power (inner : String) :
    Operator.shouldFlatten "**" inner = false := by
  unfold Operator.shouldFlatten
  split <;> rfl

/-- An operator that is left bare in front of another one binds as tightly as it has to. -/
theorem le_of_ofOperators_left {outer inner : String}
    (h : ofOperators outer inner (some .left) = false) :
    Operator.leftRank outer ≤ 3 + Operator.precedence inner := by
  unfold ofOperators at h
  extract_lets mixes po pi at h
  have hle : po ≤ pi := by grind
  unfold Operator.leftRank
  split
  · rename_i hpower
    -- powers bind most tightly, so the inner operator would be one of them
    have hpo : po = 12 := by
      show Operator.precedence outer = 12
      rw [hpower]
      decide
    have hpi : pi ≤ 12 := Operator.precedence_le inner
    have hflatten := not_shouldFlatten_power inner
    grind
  · exact Nat.add_le_add_left hle 3

/-- An operator that is left bare behind another one binds more tightly. -/
theorem le_of_ofOperators_right {outer inner : String}
    (h : ofOperators outer inner (some .right) = false) :
    4 + Operator.precedence outer ≤ 3 + Operator.precedence inner := by
  unfold ofOperators at h
  extract_lets mixes po pi at h
  have hlt : po < pi := by grind
  show 4 + po ≤ 3 + pi
  omega

end Parens

section Demand

open Parens

-- what is asked of a child is read off the forms
attribute [local simp] below byForm ofUnary ofAwait ofBinary ofAssignment ofConditional ofSequence
  Node.ofForm Node.form Node.isStatement Expression.tree Expression.level

/-- An operation that gets no parentheses binds as tightly as its place demands: two operations
compare their operators. -/
theorem demand_le_operation {slot : Slot} {parent : Form Node} {operator : BinaryOperator}
    {left right : Expression}
    (h : below (Expression.binary operator left right).tree parent (some slot) = false) :
    demand parent slot ≤ 3 + Operator.precedence operator.text := by
  revert h
  unfold demand Expression.tree Form.operation
  split <;> split <;> simp <;> grind [→ le_of_ofOperators_left, → le_of_ofOperators_right]

/-- A child that gets no parentheses binds as tightly as its place demands. -/
theorem demand_le_level {slot : Slot} {parent : Form Node} : ∀ {e : Expression},
    below e.tree parent (some slot) = false → demand parent slot ≤ e.level
  | .group inner, h => demand_le_level (e := inner) h
  | .target (.name _), _ => Nat.le_trans (demand_le parent slot) (Nat.le_add_right 17 2)
  | .target (.dotted ..), _ | .target (.computed ..), _ | .call .., _ => demand_le parent slot
  | .construct .., _ => Nat.le_succ_of_le (demand_le parent slot)
  -- a unary operation may be the operand of a binary one, but not of a power
  | .unary .., h | .await _, h => by
    revert h
    unfold demand
    split <;> simp <;> grind [Operator.leftRank_le, Operator.precedence_le]
  | .binary .., h => demand_le_operation h
  -- the other forms stand bare only where an assignment may stand
  | .conditional .., h | .assign .., h | .sequence .., h => by
    revert h
    unfold demand
    split <;> simp

/-- Where a sign gets no parentheses, it does not run into the sign before it. -/
theorem clashes_eq_false {operator : String} {argument : Node} (p : Path) : ∀ {e : Expression},
    below e.tree (.unaryExpression operator argument) (some .argument) = false →
      (e.dressed p).clashes operator = false
  | .group inner, h => clashes_eq_false p (e := inner) h
  | .unary .., h => by simpa [Expression.dressed, Expression.clashes] using h
  | .target _, _ | .await _, _ | .binary .., _ | .conditional .., _ | .call .., _
  | .construct .., _ | .assign .., _ | .sequence .., _ => rfl

/-- Where the callee of a new object gets no parentheses, there is no call in it. -/
theorem callFree_of_bare {callee : Node} {arguments : List Node} : ∀ {e : Expression},
    below e.tree (.newExpression callee arguments) (some .callee) = false →
      e.tree.calleeHoldsCall = false
  | .group inner, h => callFree_of_bare (e := inner) h
  | .target (.dotted ..), h | .target (.computed ..), h => by
    simpa [Target.tree, Node.calleeHoldsCall] using h
  | .call .., h => by simp [Node.calleeHoldsCall] at h
  | .binary operator .., _ => by
    unfold Expression.tree Form.operation
    split <;> rfl
  | .target (.name _), _ | .unary .., _ | .await _, _ | .conditional .., _ | .construct .., _
  | .assign .., _ | .sequence .., _ => rfl

end Demand

/-! ## What is dressed -/

namespace Path

variable {p q : Path} {form : Form Node} {place : Place} {c d : Expression} {n : Node}

/-- Below every form but an export by default, a child is judged by the form and its own. -/
theorem needsParens_childAt (place : Place) (hp : p.node.form = form)
    (hform : ∀ m, form ≠ .exportDefaultDeclaration m) :
    (p.childAt place n).needsParens = Parens.below n form (some place.slot) := by
  subst hp
  have hparent : (p.childAt place n).parentForm? = some p.node.form := rfl
  rw [needsParens, hparent]
  dsimp only
  split
  · exact absurd ‹_› (hform _)
  · rfl

/-- What can be read can be read in parentheses. -/
theorem readable_grouped (hd : d.Readable) : (p.grouped d).Readable := by
  unfold grouped
  split
  · exact .group hd
  · exact hd

/-- What stands in parentheses has the highest rank. -/
theorem le_rank_grouped {rank : Nat} (hrank : rank ≤ 19)
    (hd : q.needsParens = false → rank ≤ d.rank) : rank ≤ (q.grouped d).rank := by
  unfold grouped
  split
  · exact hrank
  · exact hd (Bool.eq_false_iff.2 ‹_›)

/-- A child has the rank that its place demands. -/
theorem demand_le_rank (place : Place) (hp : p.node.form = form)
    (hform : ∀ m, form ≠ .exportDefaultDeclaration m) (hd : c.level ≤ d.rank) :
    demand form place.slot ≤ ((p.childAt place c.tree).grouped d).rank := by
  refine le_rank_grouped (Nat.le_trans (demand_le form place.slot) (Nat.le_add_right 17 2)) ?_
  intro h
  rw [needsParens_childAt place hp hform] at h
  exact Nat.le_trans (demand_le_level h) hd

/-- Behind a sign, an operand in its parentheses does not start with the sign. -/
theorem clashes_grouped {operator : String} {argument : Node}
    (hp : p.node.form = .unaryExpression operator argument) :
    ((p.child .argument c.tree).grouped (c.dressed (p.child .argument c.tree))).clashes operator =
      false := by
  unfold grouped
  split
  · rfl
  · have hbare := Bool.eq_false_iff.2 ‹¬_›
    exact clashes_eq_false _ ((needsParens_childAt ⟨.argument, none⟩ hp nofun).symm.trans hbare)

end Path

/-- The operator of an expression is found again. -/
theorem Form.binaryOperator?_operation (operator : String) (left right : Node) :
    (Node.ofForm (.operation operator left right)).binaryOperator? = some operator := by
  unfold Form.operation
  split <;> rfl

namespace Expression

/-- An expression does not bind more loosely when it is dressed. -/
theorem level_le_rank : ∀ {e : Expression} {p : Path}, p.node = e.tree →
    e.level ≤ (e.dressed p).rank
  | .group inner, _, hp => level_le_rank (e := inner) hp
  | .target (.dotted ..), p, hp | .target (.computed ..), p, hp =>
    have hobject := p.demand_le_rank ⟨.object, none⟩ (congrArg Node.form hp) nofun (level_le_rank rfl)
    Nat.le_min.2 ⟨Nat.le_succ 17, hobject⟩
  | .target (.name _), _, _ | .unary .., _, _ | .await _, _, _ | .binary .., _, _
  | .conditional .., _, _ | .call .., _, _ | .construct .., _, _ | .assign .., _, _
  | .sequence .., _, _ => Nat.le_refl _

/-- An access that does not lead through a call binds as tightly as a new object does. -/
theorem le_rank_of_callFree : ∀ {e : Expression} {p : Path}, p.node = e.tree → 17 ≤ e.level →
    e.tree.calleeHoldsCall = false → 18 ≤ (e.dressed p).rank
  | .group inner, _, hp, hlevel, hfree => le_rank_of_callFree (e := inner) hp hlevel hfree
  | .target (.name _), _, _, _, _ => Nat.le_succ 18
  | .construct .., _, _, _, _ => Nat.le_refl 18
  | .call .., _, _, _, hfree => by cases hfree
  -- the object is bare only if it is as high, and then the chain below it holds no call either
  | .target (.dotted object ..), p, hp, _, hfree | .target (.computed object ..), p, hp, _, hfree => by
    refine Nat.le_min.2 ⟨Nat.le_refl 18, Path.le_rank_grouped (by decide) fun hbare => ?_⟩
    have hlevel : 17 ≤ object.level := demand_le_level
      ((p.needsParens_childAt ⟨.object, none⟩ (congrArg Node.form hp) nofun).symm.trans hbare)
    exact le_rank_of_callFree rfl hlevel hfree
  -- an operation is not as high as a call
  | .binary operator .., _, _, hlevel, _ => by
    have := Operator.precedence_le operator.text
    simp only [level] at hlevel
    omega
  | .unary .., _, _, hlevel, _ | .await _, _, _, hlevel, _ | .conditional .., _, _, hlevel, _
  | .assign .., _, _, hlevel, _ | .sequence .., _, _, hlevel, _ => by simp [level] at hlevel

/-- The operands of an operator have the ranks that their sides demand. -/
theorem demand_le_operands {operator : BinaryOperator} {left right : Expression} {p : Path}
    (hp : p.node = (Expression.binary operator left right).tree) :
    let q := p.child .left left.tree
    let r := p.child .right right.tree
    Operator.leftRank operator.text ≤ (q.grouped (left.dressed q)).rank ∧
      4 + Operator.precedence operator.text ≤ (r.grouped (right.dressed r)).rank := by
  -- the operation is logical or binary, and has its operands in the same slots
  have hform : p.node.form = .operation operator.text left.tree right.tree := congrArg Node.form hp
  unfold Form.operation at hform
  split at hform
  · exact ⟨p.demand_le_rank ⟨.left, none⟩ hform nofun (level_le_rank rfl),
      p.demand_le_rank ⟨.right, none⟩ hform nofun (level_le_rank rfl)⟩
  · exact ⟨p.demand_le_rank ⟨.left, none⟩ hform nofun (level_le_rank rfl),
      p.demand_le_rank ⟨.right, none⟩ hform nofun (level_le_rank rfl)⟩

/-- A left operand that goes into the chain of an operator binds as tightly as the operator. -/
theorem leftRank_le_of_joins {operator : String} {p : Path} : ∀ {e : Expression},
    e.tree.joinsChain operator = true → Operator.leftRank operator ≤ (e.dressed p).rank
  | .group inner, h => leftRank_le_of_joins (e := inner) h
  | .binary inner left right, h => by
    have hinner : (Expression.binary inner left right).tree.binaryOperator? = some inner.text :=
      Form.binaryOperator?_operation ..
    -- only operators of one precedence join into a chain
    rw [Node.joinsChain, hinner] at h
    have hprecedence : Operator.precedence? inner.text = Operator.precedence? operator := by
      unfold Operator.shouldFlatten at h
      grind
    -- powers do not join
    have hpower : operator ≠ "**" := by
      rintro rfl
      rw [Option.any_some, Parens.not_shouldFlatten_power] at h
      cases h
    rw [Operator.leftRank, if_neg hpower, Operator.precedence, ← hprecedence]
    exact Nat.le_refl _
  | .target (.name _), h | .target (.dotted ..), h | .target (.computed ..), h | .unary .., h
  | .await _, h | .conditional .., h | .call .., h | .construct .., h | .assign .., h
  | .sequence .., h => by cases h

/-- Expressions in a row have the ranks that their places demand. -/
theorem demand_le_ranks {p : Path} {form : Form Node} (hp : p.node.form = form)
    (hform : ∀ m, form ≠ .exportDefaultDeclaration m) (slot : Slot) (i : Nat)
    (es : List Expression) : ∀ d ∈ dressedAll p slot i es, demand form slot ≤ d.rank := by
  induction es generalizing i with
  | nil => simp [dressedAll]
  | cons e rest ih =>
    rw [dressedAll, List.forall_mem_cons]
    exact ⟨p.demand_le_rank ⟨slot, some i⟩ hp hform (level_le_rank rfl), ih (i + 1)⟩

/-- What a new object is made of binds as tightly as the grammar demands. -/
theorem le_rank_callee {p : Path} {c : Expression} {arguments : List Node} {callee : Node}
    (hp : p.node.form = .newExpression callee arguments) :
    18 ≤ ((p.child .callee c.tree).grouped (c.dressed (p.child .callee c.tree))).rank := by
  refine Path.le_rank_grouped (by decide) fun hbare => ?_
  have hbelow : Parens.below c.tree (.newExpression callee arguments) (some .callee) = false :=
    (p.needsParens_childAt ⟨.callee, none⟩ hp nofun).symm.trans hbare
  exact le_rank_of_callFree rfl (demand_le_level hbelow) (callFree_of_bare hbelow)

end Expression

mutual

/-- With the parentheses that are needed inside, what is assigned to is readable. -/
theorem Target.dressed_readable : ∀ (t : Target) (p : Path), p.node = t.tree →
    Expression.Readable (.target (t.dressed p))
  | .name _, _, _ => .name
  | .dotted object .., p, hp =>
    .dotted (Path.readable_grouped (object.dressed_readable _ rfl))
      (p.demand_le_rank ⟨.object, none⟩ (congrArg Node.form hp) nofun
        (Expression.level_le_rank rfl))
  | .computed object property _, p, hp =>
    .computed (Path.readable_grouped (object.dressed_readable _ rfl))
      (p.demand_le_rank ⟨.object, none⟩ (congrArg Node.form hp) nofun
        (Expression.level_le_rank rfl))
      (Path.readable_grouped (property.dressed_readable _ rfl))

/-- With the parentheses that are needed inside, an expression is readable. -/
theorem Expression.dressed_readable :
    ∀ (e : Expression) (p : Path), p.node = e.tree → (e.dressed p).Readable
  | .target t, p, hp => Target.dressed_readable t p hp
  | .group inner, p, hp => inner.dressed_readable p hp
  | .unary _ argument, p, hp =>
    have hform := congrArg Node.form hp
    .unary (Path.readable_grouped (argument.dressed_readable _ rfl))
      (p.demand_le_rank ⟨.argument, none⟩ hform nofun (Expression.level_le_rank rfl))
      (Path.clashes_grouped hform)
  | .await argument, p, hp =>
    .await (Path.readable_grouped (argument.dressed_readable _ rfl))
      (p.demand_le_rank ⟨.argument, none⟩ (congrArg Node.form hp) nofun (Expression.level_le_rank rfl))
  -- a left side that joins the chain is not set in parentheses
  | .binary _ left right, p, hp => by
    have hleft := left.dressed_readable (p.child .left left.tree) rfl
    have hright := right.dressed_readable (p.child .right right.tree) rfl
    -- the operands are demanded by the operator
    have hranks := Expression.demand_le_operands hp
    rw [Expression.dressed]
    split
    · rename_i hjoins
      exact .binary hleft (Expression.leftRank_le_of_joins hjoins)
        (Path.readable_grouped hright) hranks.2
    · exact .binary (Path.readable_grouped hleft) hranks.1 (Path.readable_grouped hright) hranks.2
  -- each part is in parentheses where its slot demands it
  | .conditional test consequent alternate, p, hp =>
    have hform := congrArg Node.form hp
    .conditional (Path.readable_grouped (test.dressed_readable _ rfl))
      (p.demand_le_rank ⟨.test, none⟩ hform nofun (Expression.level_le_rank rfl))
      (Path.readable_grouped (consequent.dressed_readable _ rfl))
      (p.demand_le_rank ⟨.consequent, none⟩ hform nofun (Expression.level_le_rank rfl))
      (Path.readable_grouped (alternate.dressed_readable _ rfl))
      (p.demand_le_rank ⟨.alternate, none⟩ hform nofun (Expression.level_le_rank rfl))
  | .call callee arguments _, p, hp =>
    have hform := congrArg Node.form hp
    .call (Path.readable_grouped (callee.dressed_readable _ rfl))
      (p.demand_le_rank ⟨.callee, none⟩ hform nofun (Expression.level_le_rank rfl))
      (Expression.dressedAll_readable arguments p .arguments 0)
      (Expression.demand_le_ranks hform nofun .arguments 0 arguments)
  | .construct callee arguments, p, hp =>
    -- the callee of `new` holds no call outside of parentheses
    have hform := congrArg Node.form hp
    .construct (Path.readable_grouped (callee.dressed_readable _ rfl)) (Expression.le_rank_callee hform)
      (Expression.dressedAll_readable arguments p .arguments 0)
      (Expression.demand_le_ranks hform nofun .arguments 0 arguments)
  | .assign _ target value, p, hp =>
    .assign (Target.dressed_readable target _ rfl)
      (Path.readable_grouped (value.dressed_readable _ rfl))
      (p.demand_le_rank ⟨.right, none⟩ (congrArg Node.form hp) nofun (Expression.level_le_rank rfl))
  | .sequence first second more, p, hp =>
    have hform := congrArg Node.form hp
    .sequence (Path.readable_grouped (first.dressed_readable _ rfl))
      (p.demand_le_rank ⟨.expressions, some 0⟩ hform nofun (Expression.level_le_rank rfl))
      (Path.readable_grouped (second.dressed_readable _ rfl))
      (p.demand_le_rank ⟨.expressions, some 1⟩ hform nofun (Expression.level_le_rank rfl))
      (Expression.dressedAll_readable more p .expressions 2)
      (Expression.demand_le_ranks hform nofun .expressions 2 more)

/-- With the parentheses that they need, expressions in a row are readable. -/
theorem Expression.dressedAll_readable : ∀ (es : List Expression) (p : Path) (slot : Slot) (i : Nat),
    ∀ e ∈ Expression.dressedAll p slot i es, e.Readable
  | [], _, _, _ => by simp [Expression.dressedAll]
  | e :: rest, p, slot, i => by
    rw [Expression.dressedAll, List.forall_mem_cons]
    exact ⟨Path.readable_grouped (e.dressed_readable _ rfl),
      Expression.dressedAll_readable rest p slot (i + 1)⟩

end

/-! ## What dressed expressions show -/

/-- Parentheses are not shown. -/
theorem Path.shows_of_grouped {q : Path} {d : Expression} {n : Node} (h : (q.grouped d).Shows n) :
    d.Shows n := by
  unfold grouped at h
  split at h
  · exact h
  · exact h

mutual

/-- What is assigned to shows what it shows dressed. -/
theorem Target.shows_of_dressed : ∀ {t : Target} {p : Path} {n : Node}, (t.dressed p).Shows n →
    t.Shows n
  | .name _, _, _, h => h
  | .dotted .., _, _, ⟨o, x, hn, ho, hx⟩ =>
    ⟨o, x, hn, Expression.shows_of_dressed (Path.shows_of_grouped ho), hx⟩
  | .computed .., _, _, ⟨o, x, hn, ho, hx⟩ =>
    ⟨o, x, hn, Expression.shows_of_dressed (Path.shows_of_grouped ho),
      Expression.shows_of_dressed (Path.shows_of_grouped hx)⟩

/-- An expression shows what it shows dressed. -/
theorem Expression.shows_of_dressed : ∀ {e : Expression} {p : Path} {n : Node},
    (e.dressed p).Shows n → e.Shows n
  | .target t, _, _, h => Target.shows_of_dressed (t := t) h
  | .group inner, _, _, h => Expression.shows_of_dressed (e := inner) h
  | .unary .., _, _, ⟨a, hn, ha⟩ =>
    ⟨a, hn, Expression.shows_of_dressed (Path.shows_of_grouped ha)⟩
  | .await _, _, _, ⟨a, hn, ha⟩ => ⟨a, hn, Expression.shows_of_dressed (Path.shows_of_grouped ha)⟩
  -- the left side may have parentheses around it, or none
  | .binary .., _, _, ⟨l, r, hn, hl, hr⟩ => by
    refine ⟨l, r, hn, ?_, Expression.shows_of_dressed (Path.shows_of_grouped hr)⟩
    split at hl
    · exact Expression.shows_of_dressed hl
    · exact Expression.shows_of_dressed (Path.shows_of_grouped hl)
  | .conditional .., _, _, ⟨t, c, a, hn, ht, hc, ha⟩ =>
    ⟨t, c, a, hn, Expression.shows_of_dressed (Path.shows_of_grouped ht),
      Expression.shows_of_dressed (Path.shows_of_grouped hc),
      Expression.shows_of_dressed (Path.shows_of_grouped ha)⟩
  | .call .., _, _, ⟨c, as, hn, hc, has⟩ =>
    ⟨c, as, hn, Expression.shows_of_dressed (Path.shows_of_grouped hc),
      Expression.allShow_of_dressedAll has⟩
  | .construct .., _, _, ⟨c, as, hn, hc, has⟩ =>
    ⟨c, as, hn, Expression.shows_of_dressed (Path.shows_of_grouped hc),
      Expression.allShow_of_dressedAll has⟩
  | .assign .., _, _, ⟨t, v, hn, ht, hv⟩ =>
    ⟨t, v, hn, Target.shows_of_dressed ht, Expression.shows_of_dressed (Path.shows_of_grouped hv)⟩
  | .sequence .., _, _, ⟨a, b, ns, hn, ha, hb, hns⟩ =>
    ⟨a, b, ns, hn, Expression.shows_of_dressed (Path.shows_of_grouped ha),
      Expression.shows_of_dressed (Path.shows_of_grouped hb), Expression.allShow_of_dressedAll hns⟩

/-- Expressions in a row show what they show dressed. -/
theorem Expression.allShow_of_dressedAll : ∀ {es : List Expression} {p : Path} {slot : Slot}
    {i : Nat} {ns : List Node}, Expression.AllShow (Expression.dressedAll p slot i es) ns →
      Expression.AllShow es ns
  | [], _, _, _, _, h => h
  | _ :: _, _, _, _, _, ⟨m, ms, hns, hm, hms⟩ =>
    ⟨m, ms, hns, Expression.shows_of_dressed (Path.shows_of_grouped hm),
      Expression.allShow_of_dressedAll hms⟩

end

end Reflow
