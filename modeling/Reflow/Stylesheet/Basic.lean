/-! # Stylesheets

Rules, at-rules, declarations and comments.  Selectors, parameters and values are kept as text. -/

namespace Reflow.Stylesheet

/-- A statement of a stylesheet, and whether a blank line stands before it. -/
inductive Statement where
  /-- A comment with its delimiters. -/
  | comment (text : String) (blankBefore : Bool)
  /-- A property with a value; an interpolation that stands alone has none. -/
  | declaration (property : String) (value : Option String) (important semicolon blankBefore : Bool)
  /-- A rule that starts with an at sign, with or without a block. -/
  | atRule (name params : String) (block : Option (List Statement)) (blankBefore : Bool)
  | rule (selector : String) (block : List Statement) (blankBefore : Bool)
  deriving Repr, Inhabited

/-- Does a blank line stand before the statement? -/
def Statement.blankBefore : Statement → Bool
  | .comment _ b | .declaration _ _ _ _ b | .atRule _ _ _ b | .rule _ _ b => b

mutual
/-- How many levels of statements there are in a statement. -/
def Statement.depth : Statement → Nat
  | .comment .. | .declaration .. => 0
  | .atRule _ _ none _ => 0
  | .atRule _ _ (some block) _ => depthOf block
  | .rule _ block _ => depthOf block

/-- How many levels of statements there are: the statements, those in their blocks, and so on. -/
def depthOf : List Statement → Nat
  | [] => 0
  | s :: rest => max (s.depth + 1) (depthOf rest)
end

/-- How an interpolation is spelled in a stylesheet, up to its number. -/
def placeholderStart : List Char := "@vxfmt-placeholder-".toList

/-- How an interpolation is spelled behind its number. -/
def placeholderEnd : List Char := "-id".toList

end Reflow.Stylesheet
