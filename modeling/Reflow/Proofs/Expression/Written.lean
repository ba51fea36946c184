import Reflow.Grammar.Basic
import Reflow.Print.Operator
import Reflow.Print.Parens
import Reflow.Proofs.Token.Words

/-!
# Expressions and how they are written

Expressions of names and operators: unary operators, `await`, binary operators, conditions, accesses,
calls, new objects, assignments and sequences.  An expression has a syntax tree, and it is written as
a text on one line.  Parentheses that are written are part of an expression, but not of its tree; the
dressed expression has them where the printer puts them, and nowhere else.

## Key results

- `Expression.tree`, `Expression.Shows`: the tree of an expression, and the nodes that show it
- `Expression.items`: how an expression is written
- `Expression.dressed`: the expression with the parentheses that it needs
- `Expression.tree_shows`: the tree of an expression shows it
-/

namespace Reflow

open Grammar (reserved)

/-! ## Expressions -/

/-- Is the text a name that can stand for nothing but a value? -/
def isOrdinary (text : String) : Bool :=
  isNameText text.toList && !reserved.contains text && !(["await", "async", "let"].contains text)

/-- A name of a value or a property. -/
structure OrdinaryName where
  text : String
  ordinary : isOrdinary text = true
  deriving DecidableEq

/-- An operator in front of its operand. -/
structure UnaryOperator where
  text : String
  isUnary : Operator.isUnary text = true
  deriving DecidableEq

/-- An operator between two operands. -/
structure BinaryOperator where
  text : String
  isBinary : (Operator.precedence? text).isSome = true
  deriving DecidableEq

/-- An operator that assigns. -/
structure AssignmentOperator where
  text : String
  isAssignment : Operator.isAssignment text = true
  deriving DecidableEq

mutual

/-- What a value can be assigned to. -/
inductive Target where
  | name (x : OrdinaryName)
  | dotted (object : Expression) (property : OrdinaryName) (optional : Bool)
  | computed (object property : Expression) (optional : Bool)

/-- An expression.  A group is an expression in parentheses, and a sequence has two parts at least. -/
inductive Expression where
  | target (t : Target)
  | group (inner : Expression)
  | unary (operator : UnaryOperator) (argument : Expression)
  | await (argument : Expression)
  | binary (operator : BinaryOperator) (left right : Expression)
  | conditional (test consequent alternate : Expression)
  | call (callee : Expression) (arguments : List Expression) (optional : Bool)
  | construct (callee : Expression) (arguments : List Expression)
  | assign (operator : AssignmentOperator) (target : Target) (value : Expression)
  | sequence (first second : Expression) (more : List Expression)

end

/-! ## Trees -/

/-- The form of an expression with an operator between two operands. -/
def Form.operation {α : Type} (operator : String) (left right : α) : Form α :=
  if Operator.isLogical operator then .logicalExpression operator left right
  else .binaryExpression operator left right

/-- A node that was not read from a source. -/
def Node.ofForm (form : Form Node) : Node := .mk 0 default form

mutual

/-- The tree of what is assigned to. -/
def Target.tree : Target → Node
  | .name x => .ofForm (.identifier x.text)
  | .dotted object property optional =>
    .ofForm (.memberExpression object.tree (.ofForm (.identifier property.text)) false optional)
  | .computed object property optional =>
    .ofForm (.memberExpression object.tree property.tree true optional)

/-- The tree of an expression. -/
def Expression.tree : Expression → Node
  | .target t => t.tree
  | .group inner => inner.tree
  | .unary operator argument => .ofForm (.unaryExpression operator.text argument.tree)
  | .await argument => .ofForm (.awaitExpression argument.tree)
  | .binary operator left right => .ofForm (.operation operator.text left.tree right.tree)
  | .conditional test consequent alternate =>
    .ofForm (.conditionalExpression test.tree consequent.tree alternate.tree)
  | .call callee arguments optional =>
    .ofForm (.callExpression callee.tree (Expression.trees arguments) optional)
  | .construct callee arguments =>
    .ofForm (.newExpression callee.tree (Expression.trees arguments))
  | .assign operator target value =>
    .ofForm (.assignmentExpression operator.text target.tree value.tree)
  | .sequence first second more =>
    .ofForm (.sequenceExpression (first.tree :: second.tree :: Expression.trees more))

/-- The trees of expressions in a row. -/
def Expression.trees : List Expression → List Node
  | [] => []
  | e :: rest => e.tree :: Expression.trees rest

end

mutual

/-- Is the node the tree of what is assigned to, whatever its numbers and spans are? -/
def Target.Shows : Target → Node → Prop
  | .name x, n => n.form = .identifier x.text
  | .dotted object property optional, n => ∃ o p, n.form = .memberExpression o p false optional ∧
      object.Shows o ∧ p.form = .identifier property.text
  | .computed object property optional, n => ∃ o p, n.form = .memberExpression o p true optional ∧
      object.Shows o ∧ property.Shows p

/-- Is the node the tree of the expression, whatever its numbers and spans are? -/
def Expression.Shows : Expression → Node → Prop
  | .target t, n => t.Shows n
  | .group inner, n => inner.Shows n
  | .unary operator argument, n => ∃ a, n.form = .unaryExpression operator.text a ∧ argument.Shows a
  | .await argument, n => ∃ a, n.form = .awaitExpression a ∧ argument.Shows a
  | .binary operator left right, n => ∃ l r, n.form = .operation operator.text l r ∧
      left.Shows l ∧ right.Shows r
  | .conditional test consequent alternate, n => ∃ t c a, n.form = .conditionalExpression t c a ∧
      test.Shows t ∧ consequent.Shows c ∧ alternate.Shows a
  | .call callee arguments optional, n => ∃ c as, n.form = .callExpression c as optional ∧
      callee.Shows c ∧ Expression.AllShow arguments as
  | .construct callee arguments, n => ∃ c as, n.form = .newExpression c as ∧
      callee.Shows c ∧ Expression.AllShow arguments as
  | .assign operator target value, n => ∃ t v, n.form = .assignmentExpression operator.text t v ∧
      target.Shows t ∧ value.Shows v
  | .sequence first second more, n => ∃ a b ns, n.form = .sequenceExpression (a :: b :: ns) ∧
      first.Shows a ∧ second.Shows b ∧ Expression.AllShow more ns

/-- Are the nodes the trees of the expressions, one by one? -/
def Expression.AllShow : List Expression → List Node → Prop
  | [], ns => ns = []
  | e :: rest, ns => ∃ m ms, ns = m :: ms ∧ e.Shows m ∧ Expression.AllShow rest ms

end

mutual

/-- The tree of what is assigned to shows it. -/
theorem Target.tree_shows : ∀ t : Target, t.Shows t.tree
  | .name _ => rfl
  | .dotted object _ _ => ⟨_, _, rfl, object.tree_shows, rfl⟩
  | .computed object property _ => ⟨_, _, rfl, object.tree_shows, property.tree_shows⟩

/-- The tree of an expression shows it. -/
theorem Expression.tree_shows : ∀ e : Expression, e.Shows e.tree
  | .target t => t.tree_shows
  | .group inner => inner.tree_shows
  | .unary _ argument => ⟨_, rfl, argument.tree_shows⟩
  | .await argument => ⟨_, rfl, argument.tree_shows⟩
  | .binary _ left right => ⟨_, _, rfl, left.tree_shows, right.tree_shows⟩
  | .conditional test consequent alternate =>
    ⟨_, _, _, rfl, test.tree_shows, consequent.tree_shows, alternate.tree_shows⟩
  | .call callee arguments _ =>
    ⟨_, _, rfl, callee.tree_shows, Expression.trees_show arguments⟩
  | .construct callee arguments =>
    ⟨_, _, rfl, callee.tree_shows, Expression.trees_show arguments⟩
  | .assign _ target value => ⟨_, _, rfl, target.tree_shows, value.tree_shows⟩
  | .sequence first second more =>
    ⟨_, _, _, rfl, first.tree_shows, second.tree_shows, Expression.trees_show more⟩

/-- The trees of expressions show them. -/
theorem Expression.trees_show : ∀ es : List Expression,
    Expression.AllShow es (Expression.trees es)
  | [] => rfl
  | e :: rest => ⟨_, _, rfl, e.tree_shows, Expression.trees_show rest⟩

end

/-! ## Texts -/

/-- The word of an operator. -/
def Operator.word (operator : String) : Word :=
  if isNameText operator.toList then .name operator else .mark operator

/-- A punctuator in a text. -/
def Item.mark (text : String) : Item := .word (.mark text)

/-- A name in a text. -/
def Item.name (text : String) : Item := .word (.name text)

/-- An operator in a text, with spaces around it. -/
def Item.between (w : Word) : List Item := [.space, .word w, .space]

mutual

/-- How what is assigned to is written. -/
def Target.items : Target → List Item
  | .name x => [.name x.text]
  | .dotted object property optional =>
    object.items ++ [.mark (if optional then "?." else "."), .name property.text]
  | .computed object property optional =>
    object.items ++ (if optional then [.mark "?."] else []) ++ .mark "[" :: property.items
      ++ [.mark "]"]

/-- How an expression is written on one line. -/
def Expression.items : Expression → List Item
  | .target t => t.items
  | .group inner => .mark "(" :: inner.items ++ [.mark ")"]
  | .unary operator argument =>
    .word (Operator.word operator.text)
      :: (if operator.text.toList.getLast?.any Char.isAlpha then [.space] else []) ++ argument.items
  | .await argument => .name "await" :: .space :: argument.items
  | .binary operator left right =>
    left.items ++ Item.between (Operator.word operator.text) ++ right.items
  | .conditional test consequent alternate =>
    test.items ++ Item.between (.mark "?") ++ consequent.items ++ Item.between (.mark ":")
      ++ alternate.items
  | .call callee arguments optional =>
    callee.items ++ (if optional then [.mark "?."] else []) ++ .mark "("
      :: Expression.itemsOf arguments ++ [.mark ")"]
  | .construct callee arguments =>
    .name "new" :: .space :: callee.items ++ .mark "(" :: Expression.itemsOf arguments
      ++ [.mark ")"]
  | .assign operator target value =>
    target.items ++ Item.between (Operator.word operator.text) ++ value.items
  | .sequence first second more =>
    first.items ++ .mark "," :: .space :: second.items ++ Expression.moreItems more

/-- How expressions are written with commas between them. -/
def Expression.itemsOf : List Expression → List Item
  | [] => []
  | e :: rest => e.items ++ Expression.moreItems rest

/-- How expressions are written behind another one. -/
def Expression.moreItems : List Expression → List Item
  | [] => []
  | e :: rest => .mark "," :: .space :: e.items ++ Expression.moreItems rest

end

/-! ## Parentheses -/

/-- The expression at a path, in parentheses if the printer puts it in parentheses there. -/
def Path.grouped (p : Path) (e : Expression) : Expression := if p.needsParens then .group e else e

mutual

/-- What is assigned to, with the parentheses that are needed inside; it stands at the path. -/
def Target.dressed (p : Path) : Target → Target
  | .name x => .name x
  | .dotted object property optional =>
    let q := p.child .object object.tree
    .dotted (q.grouped (object.dressed q)) property optional
  | .computed object property optional =>
    let q := p.child .object object.tree
    let r := p.child .property property.tree
    .computed (q.grouped (object.dressed q)) (r.grouped (property.dressed r)) optional

/-- The expression with exactly the parentheses that are needed inside; it stands at the path.  A left
operand that goes into the chain of the operator gets none. -/
def Expression.dressed (p : Path) : Expression → Expression
  | .target t => .target (t.dressed p)
  | .group inner => inner.dressed p
  | .unary operator argument =>
    let q := p.child .argument argument.tree
    .unary operator (q.grouped (argument.dressed q))
  | .await argument =>
    let q := p.child .argument argument.tree
    .await (q.grouped (argument.dressed q))
  | .binary operator left right =>
    let q := p.child .left left.tree
    let r := p.child .right right.tree
    let bare := left.dressed q
    .binary operator (if left.tree.joinsChain operator.text then bare else q.grouped bare)
      (r.grouped (right.dressed r))
  | .conditional test consequent alternate =>
    let q := p.child .test test.tree
    let r := p.child .consequent consequent.tree
    let s := p.child .alternate alternate.tree
    .conditional (q.grouped (test.dressed q)) (r.grouped (consequent.dressed r))
      (s.grouped (alternate.dressed s))
  | .call callee arguments optional =>
    let q := p.child .callee callee.tree
    .call (q.grouped (callee.dressed q)) (Expression.dressedAll p .arguments 0 arguments) optional
  | .construct callee arguments =>
    let q := p.child .callee callee.tree
    .construct (q.grouped (callee.dressed q)) (Expression.dressedAll p .arguments 0 arguments)
  | .assign operator target value =>
    let q := p.child .left target.tree
    let r := p.child .right value.tree
    .assign operator (target.dressed q) (r.grouped (value.dressed r))
  | .sequence first second more =>
    let q := p.item .expressions 0 first.tree
    let r := p.item .expressions 1 second.tree
    .sequence (q.grouped (first.dressed q)) (r.grouped (second.dressed r))
      (Expression.dressedAll p .expressions 2 more)

/-- Expressions in a row, with the parentheses that they need; the first has the index `i`. -/
def Expression.dressedAll (p : Path) (slot : Slot) (i : Nat) : List Expression → List Expression
  | [] => []
  | e :: rest =>
    let q := p.item slot i e.tree
    q.grouped (e.dressed q) :: Expression.dressedAll p slot (i + 1) rest

end

end Reflow
