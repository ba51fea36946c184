import Reflow.Print.Comments
import Reflow.Tree.Kind

/-! # Conditional expressions

A chain of conditional expressions breaks as a whole.  If one of its operands is markup, the
operands are put in parentheses like the branches of a statement. -/

namespace Reflow

namespace Node

/-- Is one of the operands of a chain of conditional expressions markup? -/
def chainHoldsMarkup : Node → Bool
  | .mk _ _ (.conditionalExpression test consequent alternate) =>
    test.chainHoldsMarkup || consequent.chainHoldsMarkup || alternate.chainHoldsMarkup
  | .mk _ _ (.jsxElement ..) => true
  | .mk _ _ (.jsxFragment ..) => true
  | _ => false

end Node

/-- The outermost conditional expression of the chain that a path's node is part of. -/
def Path.conditionalChain (p : Path) : Node :=
  let chain := (p.above.map (·.node)).takeWhile Node.isConditional
  chain.getLast?.getD p.node

namespace Print

/-- An operand in parentheses, if it breaks. -/
def inBreakingParens (d : Doc) : Doc := .cat [.ifBroken "(", .softBlock d, .ifBroken ")"]

/-- The branches of a conditional expression in a chain with markup. -/
def markupBranches (consequent alternate : Node) (first second : Doc) : Doc :=
  let isNull (n : Node) : Bool := n.form matches .nullLiteral
  .cat [" ? ", if isNull consequent then first else inBreakingParens first, " : ",
    if alternate.isConditional || isNull alternate then second else inBreakingParens second]

/-- The branches of a conditional expression, each on its line. -/
def alignedBranches (consequent alternate : Node) (first second : Doc) : Doc :=
  let nested := consequent.isConditional
  .cat [.space, "? ", .when nested (.ifFlat "("), .align (.columns 2) first,
    .when nested (.ifFlat ")"), .space, ": ",
    if alternate.isConditional then second else .align (.columns 2) second]

/-- Branches moved to where those of an outer conditional expression continue. -/
def nestedBranches (options : Options) (branches : Doc) : Doc :=
  if options.useTabs then .dedent (.indent branches)
  else .align (.columns (max 0 (options.tabWidth - 2))) branches

/-- Prints a conditional expression. -/
def conditional (print : PrintNode) (p : Path) (test consequent alternate : Node) : Print Doc := do
  let markup := p.conditionalChain.chainHoldsMarkup
  let inChain := p.parent?.any Node.isConditional
  let isAlternate := match p.parentForm? with
    | some (.conditionalExpression _ _ outer) => outer.same p.node
    | _ => false
  let first ← child print p .consequent consequent
  let second ← child print p .alternate alternate
  let options ← options
  let body : Doc :=
    if markup then markupBranches consequent alternate first second
    else
      let branches := alignedBranches consequent alternate first second
      if !inChain || isAlternate then branches else nestedBranches options branches
  let breaksClosing := !markup && p.parentForm? matches some (.memberExpression _ _ false _)
  let condition ← child print p .test test
  let whole : Doc := .cat [if isAlternate then .align (.columns 2) condition else condition,
    if inChain || markup then body else .indent body, .when breaksClosing .softline]
  return if inChain then whole else .grouped whole

end Print

end Reflow
