/-! # Operators

The operators of expressions, how tightly they bind, and when a chain of them needs no
parentheses. -/

namespace Reflow.Operator

/-- The binary operators, from the loosest tier to the tightest. -/
def tiers : List (List String) :=
  [["|>"], ["??"], ["||"], ["&&"], ["|"], ["^"], ["&"], ["==", "===", "!=", "!=="],
   ["<", ">", "<=", ">=", "in", "instanceof"], [">>", "<<", ">>>"], ["+", "-"], ["*", "/", "%"],
   ["**"]]

/-- How tightly an operator binds; `none` if it is not a binary operator. -/
def precedence? (operator : String) : Option Nat := tiers.findIdx? (·.contains operator)

/-- How tightly a binary operator binds. -/
def precedence (operator : String) : Nat := (precedence? operator).getD 0

/-- The operators that choose one of their operands. -/
def isLogical (operator : String) : Bool := ["||", "&&", "??"].contains operator

/-- The operators that assign. -/
def isAssignment (operator : String) : Bool :=
  ["=", "+=", "-=", "*=", "/=", "%=", "**=", "<<=", ">>=", ">>>=", "&=", "|=", "^=", "&&=", "||=",
   "??="].contains operator

/-- The operators in front of an operand. -/
def isUnary (operator : String) : Bool :=
  ["!", "~", "+", "-", "typeof", "void", "delete"].contains operator

/-- The operators that test equality. -/
def isEquality (operator : String) : Bool := ["==", "!=", "===", "!=="].contains operator

/-- The operators that multiply or divide. -/
def isMultiplicative (operator : String) : Bool := ["*", "/", "%"].contains operator

/-- The operators that shift bits. -/
def isBitshift (operator : String) : Bool := [">>", ">>>", "<<"].contains operator

/-- The operators on bits. -/
def isBitwise (operator : String) : Bool :=
  isBitshift operator || ["|", "^", "&"].contains operator

/-- Can `a inner b outer c` be printed without parentheses?  The two operators must bind equally
tightly, and chains that a reader may misread keep their parentheses. -/
def shouldFlatten (outer inner : String) : Bool :=
  if precedence? inner != precedence? outer then false
  else if outer == "**" then false
  else if isEquality outer && isEquality inner then false
  else if (inner == "%" && isMultiplicative outer) || (outer == "%" && isMultiplicative inner) then
    false
  else if inner != outer && isMultiplicative inner && isMultiplicative outer then false
  else if isBitshift outer && isBitshift inner then false
  else true

end Reflow.Operator
