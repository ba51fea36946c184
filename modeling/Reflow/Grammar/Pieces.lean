import Reflow.Grammar.Basic
import Reflow.Literal.Quote

/-! # Pieces of statements and expressions

Parts of the grammar that stand in many places: blocks, parameters, arguments, property keys,
functions, classes, arrays, objects and templates.  Each takes the parser of the rules that refer to
each other. -/

namespace Reflow.Grammar

/-- Statements in braces. -/
def block (parse : Rule → Parse Node) : Parse Node := do
  let start ← startAhead
  expect "\x7b"
  let body ← collect (return !(← isAt ["\x7d"])) do
    if ← isAtEnd then want (.symbol "\x7d")
    return (← parse .statement, true)
  skip
  node start (.block body)

/-- A string literal. -/
def stringLiteral : Parse Node := do
  if !(← isAtKind .string) then want .string
  let start ← startAhead
  let token ← take
  node start (.stringLiteral (Literal.cook token.text) token.text)

/-- An assigned value, or three dots and one. -/
def spreadable (parse : Rule → Parse Node) : Parse Node := do
  let start ← startAhead
  if ← eat "..." then node start (.spreadElement (← parse .assignment)) else parse .assignment

/-- Arguments in parentheses. -/
def arguments (parse : Rule → Parse Node) : Parse (List Node) := do
  expect "("
  let arguments ← separated ")" (spreadable parse)
  expect ")"
  return arguments

/-- A parameter: a target, maybe with a default, or the rest. -/
def param (parse : Rule → Parse Node) : Parse Node := do
  let start ← startAhead
  if ← eat "..." then node start (.restElement (← parse .bindingTarget))
  else
    let target ← parse .bindingTarget
    if ← eat "=" then node start (.assignmentPattern target (← parse .assignment)) else return target

/-- Parameters in parentheses. -/
def params (parse : Rule → Parse Node) : Parse (List Node) := do
  expect "("
  let params ← separated ")" (param parse)
  expect ")"
  return params

/-- The key of a property, and whether it is computed. -/
def propertyKey (parse : Rule → Parse Node) : Parse (Node × Bool) := do
  let start ← startAhead
  let token ← ahead
  if ← isAt ["["] then
    skip
    let key ← parse .assignment
    expect "]"
    return (key, true)
  else if token.kind = .string then return (← stringLiteral, false)
  else if token.kind = .number then
    skip
    return (← node start (.numericLiteral token.text), false)
  else return (← propertyName, false)

/-- A decorator from its at sign on. -/
def decorator (parse : Rule → Parse Node) : Parse Node := do
  let start ← startAhead
  skip
  if ← isAt ["("] then
    skip
    let expression ← parse .expression
    expect ")"
    node start (.decorator expression)
  else
    let inner ← startAhead
    let name ← identifier
    let access ← extend (fun object => do
      if ← isAt ["."] then
        skip
        let property ← propertyName
        return some (← node inner (.memberExpression object property false false))
      else return none) name
    let expression ←
      if ← isAt ["("] then do
        let arguments ← arguments parse
        node inner (.callExpression access arguments false)
      else pure access
    node start (.decorator expression)

/-- Decorators, each behind an at sign. -/
def decorators (parse : Rule → Parse Node) : Parse (List Node) :=
  collect (isAt ["@"]) (return (← decorator parse, true))

/-- A function from its first word on. -/
def function (parse : Rule → Parse Node) (start : Position) (declaration : Bool) : Parse Node := do
  let isAsync ← eat "async"
  expect "function"
  let generator ← eat "*"
  let token ← ahead
  let name ←
    if isName token then some <$> identifier
    else if declaration then want .functionName
    else pure none
  let params ← params parse
  let body ← block parse
  node start (if declaration then .functionDeclaration name params body isAsync generator
    else .functionExpression name params body isAsync generator)

/-- Is one of the words ahead as a modifier?  Before one of `enders` a word is a name of its own. -/
def isModifier (words enders : List String) : Parse Bool := do
  if ← isAt words then return !enders.contains (← secondText) else return false

/-- A method or property of a class. -/
def classMember (parse : Rule → Parse Node) : Parse Node := do
  let start ← startAhead
  let decorators ← if ← isAt ["@"] then decorators parse else pure []
  let enders := ["(", "=", ";", "\x7d"]
  let isStatic ← isModifier ["static"] enders
  if isStatic then skip
  let isAsync ←
    if ← isModifier ["async"] enders then pure !(← second).newlineBefore else pure false
  if isAsync then skip
  let generator ← eat "*"
  let kind ←
    if ← isModifier ["get", "set"] enders then do
      let word ← take
      pure (if word.text == "get" then MethodKind.getter else .setter)
    else pure .method
  let (key, computed) ← propertyKey parse
  if ← isAt ["("] then
    let kind := match key.form with
      | .identifier "constructor" => if computed then kind else .constructor
      | _ => kind
    let params ← params parse
    let body ← block parse
    node start (.classMethod decorators key params body kind computed isStatic isAsync generator)
  else
    let value ← if ← eat "=" then some <$> parse .assignment else pure none
    semicolon
    node start (.classProperty decorators key value computed isStatic)

/-- The members of a class up to the closing brace; semicolons between them are dropped. -/
def classMembers (parse : Rule → Parse Node) : Parse (List Node) := do
  let members ← collect (return !(← isAt ["\x7d"])) do
    if ← isAtEnd then want (.symbol "\x7d")
    if ← eat ";" then return (none, true) else return (some (← classMember parse), true)
  return members.filterMap id

/-- A class from its first word on. -/
def classDeclaration (parse : Rule → Parse Node) (start : Position) (decorators : List Node)
    (isExpression : Bool) : Parse Node := do
  expect "class"
  let name ←
    if ← isAtName then some <$> identifier
    else if isExpression then pure none
    else want .className
  let superclass ← if ← eat "extends" then some <$> parse (.callMember true) else pure none
  let bodyStart ← startAhead
  expect "\x7b"
  let members ← classMembers parse
  skip
  let body ← node bodyStart (.classBody members)
  node start (.classDeclaration decorators name superclass body isExpression)

/-- Elements in brackets; a comma without an element before it leaves a hole. -/
def array (parse : Rule → Parse Node) : Parse Node := do
  let start ← startAhead
  expect "["
  let elements ← collect (return !(← isAt ["]"])) do
    if ← eat "," then return (none, true)
    else
      let element ← spreadable parse
      return (some element, ← eat ",")
  expect "]"
  node start (.arrayExpression elements)

/-- A property or method of an object. -/
def objectMember (parse : Rule → Parse Node) : Parse Node := do
  let start ← startAhead
  if ← eat "..." then node start (.spreadElement (← parse .assignment))
  else
    let enders := [",", ":", "(", "\x7d", "="]
    let isAsync ← isModifier ["async"] enders
    if isAsync then skip
    let generator ← eat "*"
    let kind ←
      if ← isModifier ["get", "set"] enders then do
        let word ← take
        pure (if word.text == "get" then MethodKind.getter else .setter)
      else pure .method
    let (key, computed) ← propertyKey parse
    if ← isAt ["("] then
      let params ← params parse
      let body ← block parse
      node start (.objectMethod key params body kind computed isAsync generator)
    else if ← eat ":" then
      let value ← parse .assignment
      node start (.objectProperty key value computed false)
    else match key.form, computed with
      | .identifier _, false =>
        if ← eat "=" then
          let value ← parse .assignment
          let pattern ← node start (.assignmentPattern key value)
          node start (.objectProperty key pattern false true)
        else node start (.objectProperty key key false true)
      | _, _ => want (.symbol ":")

/-- Members in braces. -/
def object (parse : Rule → Parse Node) : Parse Node := do
  let start ← startAhead
  expect "\x7b"
  let properties ← separated "\x7d" (objectMember parse)
  expect "\x7d"
  node start (.objectExpression properties)

/-- What a declaration or parameter binds: an object, an array or a name. -/
def bindingTarget (parse : Rule → Parse Node) : Parse Node := do
  if ← isAt ["\x7b"] then object parse
  else if ← isAt ["["] then array parse
  else if ← isAtName then identifier
  else want .bindingName

/-- The texts and expressions of a template, from behind its opening quote or a closing brace on. -/
def templateParts (parse : Rule → Parse Node) : Nat → Parse (List Node × List Node)
  | 0 => exhausted
  | n + 1 => do
    let before ← takenUpTo
    let chunk ← scan Scan.templateChunk
    let quasi ← nodeAt chunk.span (.templateElement chunk.raw chunk.tail)
    let s ← get
    set { s with lastEnd := s.scanner.position }
    let next ← scan (Scan.next .script)
    modify fun s => { s with token := next }
    if chunk.tail then return ([quasi], [])
    else
      let expression ← parse .expression
      if !(← isAt ["\x7d"]) then want .templateBrace
      onward before
      let (quasis, expressions) ← templateParts parse n
      return (quasi :: quasis, expression :: expressions)

/-- A template literal; the scanner stands behind its opening quote. -/
def template (parse : Rule → Parse Node) : Parse Node := do
  let start ← startAhead
  if !(← isAt ["`"]) then want .templateLiteral
  modify fun s => { s with lastEnd := s.token.span.stop }
  let (quasis, expressions) ← templateParts parse (← rounds)
  node start (.templateLiteral quasis expressions)

end Reflow.Grammar
