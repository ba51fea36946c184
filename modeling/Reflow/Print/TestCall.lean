import Reflow.Print.Parens
import Reflow.Tree.Kind

/-! # Calls of test frameworks

Calls such as `describe("…", () => …)`, whose arguments stay on the line of the call. -/

namespace Reflow.Node

/-- The names of the functions that state a test. -/
def testNames : List String :=
  ["skip", "it", "describe", "test", "fit", "fdescribe", "ftest", "xit", "xdescribe", "xtest"]

/-- Is it a function whose body is a block? -/
def isFunctionWithBlock (n : Node) : Bool :=
  match n.form with
  | .functionExpression .. => true
  | .arrowFunction _ body _ => body.isBlock
  | _ => false

/-- Is it the name of a test function, or one of its variants that select tests? -/
def isTestCallee (n : Node) : Bool :=
  match n.form with
  | .identifier name => testNames.contains name
  | .memberExpression object property _ _ =>
    object.isNamed testNames && property.isNamed ["only", "skip"]
  | _ => false

/-- Is it the statement of a test: a description, a function and perhaps a time limit? -/
def isTestCall (n : Node) : Bool :=
  let describes (n : Node) : Bool := n.form matches .templateLiteral .. | .stringLiteral ..
  match n.form with
  | .callExpression callee [description, body] _ =>
    callee.isTestCallee && describes description && body.isFunctionOrArrow
  | .callExpression callee [description, body, limit] _ =>
    callee.isTestCallee && describes description && limit.isNumber && body.isFunctionWithBlock
      && (body.form.params?.getD []).length ≤ 1
  | _ => false

end Reflow.Node
