import Reflow.Grammar.Expression

/-! # Statements

Declarations, conditions, returns, imports, exports and expressions as statements. -/

namespace Reflow.Grammar

/-- Does the text start a binding behind `let`? -/
def startsBinding (text : String) : Bool :=
  text == "[" || text == "\x7b" || (Text.isIdentifier text.toList && !reserved.contains text)

/-- A declaration of variables, without the semicolon behind it. -/
def variableDeclaration (parse : Rule → Parse Node) : Parse Node := do
  let start ← startAhead
  let kind ← take
  let declarator : Parse Node := do
    let start ← startAhead
    let target ← parse .bindingTarget
    let init ← if ← eat "=" then some <$> parse .assignment else pure none
    node start (.variableDeclarator target init)
  let declarations ← collect (pure true) (do
    let d ← declarator
    return (d, ← eat ","))
  node start (.variableDeclaration kind.text declarations)

/-- A condition with one or two branches. -/
def ifStatement (parse : Rule → Parse Node) (start : Position) : Parse Node := do
  skip
  expect "("
  let test ← parse .expression
  expect ")"
  let consequent ← parse .statement
  let alternate ← if ← eat "else" then some <$> parse .statement else pure none
  node start (.ifStatement test consequent alternate)

/-- A return with or without a value. -/
def returnStatement (parse : Rule → Parse Node) (start : Position) : Parse Node := do
  skip
  let token ← ahead
  let bare := isOne token [";", "\x7d"] || token.kind == .endOfInput || token.newlineBefore
  let argument ← if bare then pure none else some <$> parse .expression
  semicolon
  node start (.returnStatement argument)

/-- One name of an import in braces. -/
def importSpecifier : Parse Node := do
  let start ← startAhead
  let imported ← moduleName
  let binding ← if ← eat "as" then identifier else pure imported
  node start (.importSpecifier imported binding)

/-- What an import binds, up to `from`. -/
def importSpecifiers : Parse (List Node) := do
  let defaults ←
    if ← isAtName then do
      let binding ← identifier
      let specifier ← nodeAt binding.span (.importDefaultSpecifier binding)
      discard (eat ",")
      pure [specifier]
    else pure []
  let named ←
    if ← isAt ["*"] then do
      let start ← startAhead
      skip
      expect "as"
      let binding ← identifier
      pure [← node start (.importNamespaceSpecifier binding)]
    else if ← isAt ["\x7b"] then do
      skip
      let specifiers ← separated "\x7d" importSpecifier
      expect "\x7d"
      pure specifiers
    else pure []
  expect "from"
  return defaults ++ named

/-- An import from its first word on. -/
def importDeclaration (start : Position) : Parse Node := do
  skip
  let specifiers ← if ← isAtKind .string then pure [] else importSpecifiers
  let source ← stringLiteral
  semicolon
  node start (.importDeclaration specifiers source)

/-- Is a function ahead? -/
def isAtFunction : Parse Bool := do
  if ← isAt ["function"] then return true
  else if ← isAt ["async"] then return (← secondText) == "function"
  else return false

/-- An export by default, behind that word. -/
def exportDefault (parse : Rule → Parse Node) (start : Position) (before : List Node) :
    Parse Node := do
  let inner ← startAhead
  let decorators ← if ← isAt ["@"] then (before ++ ·) <$> decorators parse else pure before
  let declaration ←
    if ← isAt ["class"] then classDeclaration parse inner decorators true
    else if ← isAtFunction then function parse inner false
    else do
      let value ← parse .assignment
      semicolon
      pure value
  node start (.exportDefaultDeclaration declaration)

/-- One name of an export in braces. -/
def exportSpecifier : Parse Node := do
  let start ← startAhead
  let binding ← moduleName
  let exported ← if ← eat "as" then moduleName else pure binding
  node start (.exportSpecifier binding exported)

/-- An export of names in braces. -/
def exportNames (start : Position) : Parse Node := do
  expect "\x7b"
  let specifiers ← separated "\x7d" exportSpecifier
  expect "\x7d"
  let source ← if ← eat "from" then some <$> stringLiteral else pure none
  semicolon
  node start (.exportNamedDeclaration none specifiers source)

/-- An export from its first word on, with the decorators before it. -/
def exportDeclaration (parse : Rule → Parse Node) (start : Position) (before : List Node) :
    Parse Node := do
  expect "export"
  if ← eat "default" then exportDefault parse start before
  else
    let decorators ← if ← isAt ["@"] then (before ++ ·) <$> decorators parse else pure before
    let inner ← startAhead
    if ← isAt ["class"] then
      let inner := (decorators.head?.map (·.span.start)).getD inner
      let declaration ← classDeclaration parse inner decorators false
      node start (.exportNamedDeclaration (some declaration) [] none)
    else if ← isAt ["var", "let", "const"] then
      let declaration ← variableDeclaration parse
      semicolon
      node start (.exportNamedDeclaration (some declaration) [] none)
    else if ← isAt ["function", "async"] then
      let declaration ← function parse inner true
      node start (.exportNamedDeclaration (some declaration) [] none)
    else exportNames start

/-- A class or an export behind decorators. -/
def decorated (parse : Rule → Parse Node) (start : Position) : Parse Node := do
  let decorators ← decorators parse
  if ← isAt ["export"] then exportDeclaration parse start decorators
  else if ← isAt ["class"] then classDeclaration parse start decorators false
  else want .classAfterDecorators

/-- An expression as a statement. -/
def expressionStatement (parse : Rule → Parse Node) (start : Position) : Parse Node := do
  let expression ← parse .expression
  semicolon
  node start (.expressionStatement expression)

/-- A declaration of variables as a statement; its span takes in the semicolon. -/
def variableStatement (parse : Rule → Parse Node) (start : Position) : Parse Node := do
  let declaration ← variableDeclaration parse
  semicolon
  return declaration.withSpan ⟨start, (← get).lastEnd⟩

/-- The words of statements that are not part of the language. -/
def unsupportedWords : List String :=
  ["for", "while", "do", "switch", "try", "throw", "break", "continue", "debugger", "with"]

/-- A statement that starts with a word. -/
def wordStatement (parse : Rule → Parse Node) (start : Position) (token : Token) : Parse Node := do
  match token.text with
  | "var" | "const" => variableStatement parse start
  | "let" =>
    if startsBinding (← secondText) then variableStatement parse start
    else expressionStatement parse start
  | "function" => function parse start true
  | "async" =>
    if (← secondText) == "function" then function parse start true
    else expressionStatement parse start
  | "class" => classDeclaration parse start [] false
  | "return" => returnStatement parse start
  | "if" => ifStatement parse start
  | "import" =>
    if ["(", "."].contains (← secondText) then expressionStatement parse start
    else importDeclaration start
  | "export" => exportDeclaration parse start []
  | word =>
    if unsupportedWords.contains word then fail (.unsupportedStatement word) token.span
    else expressionStatement parse start

/-- A statement. -/
def statement (parse : Rule → Parse Node) : Parse Node := nested do
  let start ← startAhead
  let token ← ahead
  if isOne token ["\x7b"] then block parse
  else if isOne token [";"] then
    skip
    node start .emptyStatement
  else if isOne token ["@"] then decorated parse start
  else if token.kind = .name then wordStatement parse start token
  else expressionStatement parse start

end Reflow.Grammar
