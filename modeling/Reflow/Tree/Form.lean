/-! # Forms of syntax

The forms that a node of a syntax tree can have, over the type of its children.  `Form.fields` lists
what a form holds in the order in which outlines show it; all that walks over trees in general is
built on it. -/

namespace Reflow

/-- The part that a child plays in its parent. -/
inductive Slot where
  | body
  | expression
  | argument
  | test
  | consequent
  | alternate
  | id
  | init
  | declarations
  | params
  | decorators
  | key
  | value
  | superclass
  | imported
  | localName
  | specifiers
  | source
  | exported
  | declaration
  | quasis
  | expressions
  | tag
  | quasi
  | elements
  | properties
  | left
  | right
  | object
  | property
  | callee
  | arguments
  | namespaceName
  | name
  | attributes
  | openingElement
  | children
  | closingElement
  | openingFragment
  | closingFragment
  deriving Repr, DecidableEq, Inhabited

/-- The name of a slot in outlines. -/
def Slot.label : Slot → String
  | .body => "body"
  | .expression => "expression"
  | .argument => "argument"
  | .test => "test"
  | .consequent => "consequent"
  | .alternate => "alternate"
  | .id => "id"
  | .init => "init"
  | .declarations => "declarations"
  | .params => "params"
  | .decorators => "decorators"
  | .key => "key"
  | .value => "value"
  | .superclass => "superclass"
  | .imported => "imported"
  | .localName => "local"
  | .specifiers => "specifiers"
  | .source => "source"
  | .exported => "exported"
  | .declaration => "declaration"
  | .quasis => "quasis"
  | .expressions => "expressions"
  | .tag => "tag"
  | .quasi => "quasi"
  | .elements => "elements"
  | .properties => "properties"
  | .left => "left"
  | .right => "right"
  | .object => "object"
  | .property => "property"
  | .callee => "callee"
  | .arguments => "arguments"
  | .namespaceName => "namespace"
  | .name => "name"
  | .attributes => "attributes"
  | .openingElement => "opening_element"
  | .children => "children"
  | .closingElement => "closing_element"
  | .openingFragment => "opening_fragment"
  | .closingFragment => "closing_fragment"

/-- What a method is. -/
inductive MethodKind where
  | method
  | getter
  | setter
  | constructor
  deriving Repr, DecidableEq, Inhabited

/-- The word of a method kind. -/
def MethodKind.word : MethodKind → String
  | .method => "method"
  | .getter => "get"
  | .setter => "set"
  | .constructor => "constructor"

/-- The form of a node, with children of type `α`. -/
inductive Form (α : Type) where
  | program (body : List α)
  | expressionStatement (expression : α)
  | emptyStatement
  | block (body : List α)
  | returnStatement (argument : Option α)
  | ifStatement (test consequent : α) (alternate : Option α)
  | variableDeclarator (target : α) (init : Option α)
  | variableDeclaration (kind : String) (declarations : List α)
  | functionDeclaration (name : Option α) (params : List α) (body : α) (isAsync generator : Bool)
  | decorator (expression : α)
  | classProperty (decorators : List α) (key : α) (value : Option α) (computed isStatic : Bool)
  | classMethod (decorators : List α) (key : α) (params : List α) (body : α) (kind : MethodKind)
      (computed isStatic isAsync generator : Bool)
  | classBody (members : List α)
  | classDeclaration (decorators : List α) (name superclass : Option α) (body : α)
      (isExpression : Bool)
  | importSpecifier (imported binding : α)
  | importDefaultSpecifier (binding : α)
  | importNamespaceSpecifier (binding : α)
  | importDeclaration (specifiers : List α) (source : α)
  | exportSpecifier (binding exported : α)
  | exportNamedDeclaration (declaration : Option α) (specifiers : List α) (source : Option α)
  | exportDefaultDeclaration (declaration : α)
  | identifier (name : String)
  | privateName (name : String)
  | thisExpression
  | super
  | numericLiteral (raw : String)
  /-- `value` is the text that is meant, `raw` the text that is written. -/
  | stringLiteral (value raw : String)
  | booleanLiteral (value : Bool)
  | nullLiteral
  | templateElement (raw : String) (tail : Bool)
  | templateLiteral (quasis expressions : List α)
  | taggedTemplate (tag quasi : α)
  /-- A hole is an element that is left out. -/
  | arrayExpression (elements : List (Option α))
  | objectProperty (key value : α) (computed shorthand : Bool)
  | objectMethod (key : α) (params : List α) (body : α) (kind : MethodKind)
      (computed isAsync generator : Bool)
  | objectExpression (properties : List α)
  | spreadElement (argument : α)
  | restElement (argument : α)
  | assignmentPattern (left right : α)
  | memberExpression (object property : α) (computed optional : Bool)
  | callExpression (callee : α) (arguments : List α) (optional : Bool)
  | newExpression (callee : α) (arguments : List α)
  | arrowFunction (params : List α) (body : α) (isAsync : Bool)
  | functionExpression (name : Option α) (params : List α) (body : α) (isAsync generator : Bool)
  | unaryExpression (operator : String) (argument : α)
  | updateExpression (operator : String) (argument : α) (before : Bool)
  | binaryExpression (operator : String) (left right : α)
  | logicalExpression (operator : String) (left right : α)
  | conditionalExpression (test consequent alternate : α)
  | assignmentExpression (operator : String) (left right : α)
  | sequenceExpression (expressions : List α)
  | awaitExpression (argument : α)
  | jsxIdentifier (name : String)
  | jsxNamespacedName (space name : α)
  | jsxMemberExpression (object property : α)
  | jsxAttribute (name : α) (value : Option α)
  | jsxSpreadAttribute (argument : α)
  | jsxOpeningElement (name : α) (attributes : List α) (selfClosing : Bool)
  | jsxClosingElement (name : α)
  | jsxOpeningFragment
  | jsxClosingFragment
  | jsxText (raw : String)
  | jsxEmptyExpression
  | jsxExpressionContainer (expression : α)
  | jsxSpreadChild (expression : α)
  | jsxElement (opening : α) (children : List α) (closing : Option α)
  | jsxFragment (opening : α) (children : List α) (closing : α)
  | htmlComment (value : String)
  | markupRoot (children : List α)
  deriving Repr, Inhabited

namespace Form

/-- The name of a form in outlines. -/
def typeName {α : Type} : Form α → String
  | program .. => "Program"
  | expressionStatement .. => "ExpressionStatement"
  | emptyStatement => "EmptyStatement"
  | block .. => "BlockStatement"
  | returnStatement .. => "ReturnStatement"
  | ifStatement .. => "IfStatement"
  | variableDeclarator .. => "VariableDeclarator"
  | variableDeclaration .. => "VariableDeclaration"
  | functionDeclaration .. => "FunctionDeclaration"
  | decorator .. => "Decorator"
  | classProperty .. => "ClassProperty"
  | classMethod .. => "ClassMethod"
  | classBody .. => "ClassBody"
  | classDeclaration .. => "ClassDeclaration"
  | importSpecifier .. => "ImportSpecifier"
  | importDefaultSpecifier .. => "ImportDefaultSpecifier"
  | importNamespaceSpecifier .. => "ImportNamespaceSpecifier"
  | importDeclaration .. => "ImportDeclaration"
  | exportSpecifier .. => "ExportSpecifier"
  | exportNamedDeclaration .. => "ExportNamedDeclaration"
  | exportDefaultDeclaration .. => "ExportDefaultDeclaration"
  | identifier .. => "Identifier"
  | privateName .. => "PrivateName"
  | thisExpression => "ThisExpression"
  | super => "Super"
  | numericLiteral .. => "NumericLiteral"
  | stringLiteral .. => "StringLiteral"
  | booleanLiteral .. => "BooleanLiteral"
  | nullLiteral => "NullLiteral"
  | templateElement .. => "TemplateElement"
  | templateLiteral .. => "TemplateLiteral"
  | taggedTemplate .. => "TaggedTemplateExpression"
  | arrayExpression .. => "ArrayExpression"
  | objectProperty .. => "ObjectProperty"
  | objectMethod .. => "ObjectMethod"
  | objectExpression .. => "ObjectExpression"
  | spreadElement .. => "SpreadElement"
  | restElement .. => "RestElement"
  | assignmentPattern .. => "AssignmentPattern"
  | memberExpression .. => "MemberExpression"
  | callExpression .. => "CallExpression"
  | newExpression .. => "NewExpression"
  | arrowFunction .. => "ArrowFunctionExpression"
  | functionExpression .. => "FunctionExpression"
  | unaryExpression .. => "UnaryExpression"
  | updateExpression .. => "UpdateExpression"
  | binaryExpression .. => "BinaryExpression"
  | logicalExpression .. => "LogicalExpression"
  | conditionalExpression .. => "ConditionalExpression"
  | assignmentExpression .. => "AssignmentExpression"
  | sequenceExpression .. => "SequenceExpression"
  | awaitExpression .. => "AwaitExpression"
  | jsxIdentifier .. => "JSXIdentifier"
  | jsxNamespacedName .. => "JSXNamespacedName"
  | jsxMemberExpression .. => "JSXMemberExpression"
  | jsxAttribute .. => "JSXAttribute"
  | jsxSpreadAttribute .. => "JSXSpreadAttribute"
  | jsxOpeningElement .. => "JSXOpeningElement"
  | jsxClosingElement .. => "JSXClosingElement"
  | jsxOpeningFragment => "JSXOpeningFragment"
  | jsxClosingFragment => "JSXClosingFragment"
  | jsxText .. => "JSXText"
  | jsxEmptyExpression => "JSXEmptyExpression"
  | jsxExpressionContainer .. => "JSXExpressionContainer"
  | jsxSpreadChild .. => "JSXSpreadChild"
  | jsxElement .. => "JSXElement"
  | jsxFragment .. => "JSXFragment"
  | htmlComment .. => "HTMLComment"
  | markupRoot .. => "MarkupRoot"

end Form

/-- Something that a form holds. -/
inductive Field (α : Type) where
  | one (slot : Slot) (child : α)
  | maybe (slot : Slot) (child : Option α)
  | many (slot : Slot) (children : List α)
  | holes (slot : Slot) (children : List (Option α))
  | text (label : String) (value : String)
  | flag (label : String) (value : Bool)
  deriving Repr

/-- What a form holds, in order. -/
def Form.fields {α : Type} : Form α → List (Field α)
  | program body => [.many .body body]
  | expressionStatement e => [.one .expression e]
  | emptyStatement => []
  | block body => [.many .body body]
  | returnStatement argument => [.maybe .argument argument]
  | ifStatement test consequent alternate =>
    [.one .test test, .one .consequent consequent, .maybe .alternate alternate]
  | variableDeclarator target init => [.one .id target, .maybe .init init]
  | variableDeclaration kind declarations => [.text "kind" kind, .many .declarations declarations]
  | functionDeclaration name params body isAsync generator =>
    [.maybe .id name, .many .params params, .one .body body, .flag "is_async" isAsync,
      .flag "generator" generator]
  | decorator e => [.one .expression e]
  | classProperty decorators key value computed isStatic =>
    [.many .decorators decorators, .one .key key, .maybe .value value, .flag "computed" computed,
      .flag "static" isStatic]
  | classMethod decorators key params body kind computed isStatic isAsync generator =>
    [.many .decorators decorators, .one .key key, .many .params params, .one .body body,
      .text "kind" kind.word, .flag "computed" computed, .flag "static" isStatic,
      .flag "is_async" isAsync, .flag "generator" generator]
  | classBody members => [.many .body members]
  | classDeclaration decorators name superclass body isExpression =>
    [.many .decorators decorators, .maybe .id name, .maybe .superclass superclass, .one .body body,
      .flag "is_expression" isExpression]
  | importSpecifier imported binding => [.one .imported imported, .one .localName binding]
  | importDefaultSpecifier binding => [.one .localName binding]
  | importNamespaceSpecifier binding => [.one .localName binding]
  | importDeclaration specifiers source => [.many .specifiers specifiers, .one .source source]
  | exportSpecifier binding exported => [.one .localName binding, .one .exported exported]
  | exportNamedDeclaration declaration specifiers source =>
    [.maybe .declaration declaration, .many .specifiers specifiers, .maybe .source source]
  | exportDefaultDeclaration declaration => [.one .declaration declaration]
  | identifier name => [.text "name" name]
  | privateName name => [.text "name" name]
  | thisExpression => []
  | super => []
  | numericLiteral raw => [.text "raw" raw]
  | stringLiteral value raw => [.text "value" value, .text "raw" raw]
  | booleanLiteral value => [.flag "value" value]
  | nullLiteral => []
  | templateElement raw tail => [.text "raw" raw, .flag "tail" tail]
  | templateLiteral quasis expressions => [.many .quasis quasis, .many .expressions expressions]
  | taggedTemplate tag quasi => [.one .tag tag, .one .quasi quasi]
  | arrayExpression elements => [.holes .elements elements]
  | objectProperty key value computed shorthand =>
    [.one .key key, .one .value value, .flag "computed" computed, .flag "shorthand" shorthand]
  | objectMethod key params body kind computed isAsync generator =>
    [.one .key key, .many .params params, .one .body body, .text "kind" kind.word,
      .flag "computed" computed, .flag "is_async" isAsync, .flag "generator" generator]
  | objectExpression properties => [.many .properties properties]
  | spreadElement argument => [.one .argument argument]
  | restElement argument => [.one .argument argument]
  | assignmentPattern left right => [.one .left left, .one .right right]
  | memberExpression object property computed optional =>
    [.one .object object, .one .property property, .flag "computed" computed,
      .flag "optional" optional]
  | callExpression callee arguments optional =>
    [.one .callee callee, .many .arguments arguments, .flag "optional" optional]
  | newExpression callee arguments => [.one .callee callee, .many .arguments arguments]
  | arrowFunction params body isAsync =>
    [.many .params params, .one .body body, .flag "is_async" isAsync]
  | functionExpression name params body isAsync generator =>
    [.maybe .id name, .many .params params, .one .body body, .flag "is_async" isAsync,
      .flag "generator" generator]
  | unaryExpression operator argument => [.text "operator" operator, .one .argument argument]
  | updateExpression operator argument before =>
    [.text "operator" operator, .one .argument argument, .flag "prefix" before]
  | binaryExpression operator left right =>
    [.text "operator" operator, .one .left left, .one .right right]
  | logicalExpression operator left right =>
    [.text "operator" operator, .one .left left, .one .right right]
  | conditionalExpression test consequent alternate =>
    [.one .test test, .one .consequent consequent, .one .alternate alternate]
  | assignmentExpression operator left right =>
    [.text "operator" operator, .one .left left, .one .right right]
  | sequenceExpression expressions => [.many .expressions expressions]
  | awaitExpression argument => [.one .argument argument]
  | jsxIdentifier name => [.text "name" name]
  | jsxNamespacedName space name => [.one .namespaceName space, .one .name name]
  | jsxMemberExpression object property => [.one .object object, .one .property property]
  | jsxAttribute name value => [.one .name name, .maybe .value value]
  | jsxSpreadAttribute argument => [.one .argument argument]
  | jsxOpeningElement name attributes selfClosing =>
    [.one .name name, .many .attributes attributes, .flag "self_closing" selfClosing]
  | jsxClosingElement name => [.one .name name]
  | jsxOpeningFragment => []
  | jsxClosingFragment => []
  | jsxText raw => [.text "raw" raw]
  | jsxEmptyExpression => []
  | jsxExpressionContainer e => [.one .expression e]
  | jsxSpreadChild e => [.one .expression e]
  | jsxElement opening children closing =>
    [.one .openingElement opening, .many .children children, .maybe .closingElement closing]
  | jsxFragment opening children closing =>
    [.one .openingFragment opening, .many .children children, .one .closingFragment closing]
  | htmlComment value => [.text "value" value]
  | markupRoot children => [.many .children children]

/-- The place of a child in its parent: its slot, and its index if the slot holds a list. -/
structure Place where
  slot : Slot
  index : Option Nat := none
  deriving Repr, DecidableEq, Inhabited

/-- How a place is written. -/
def Place.label (p : Place) : String :=
  match p.index with
  | some i => p.slot.label ++ "[" ++ toString i ++ "]"
  | none => p.slot.label

/-- The children of a list, with their indices from `i` on. -/
def placeAll {α : Type} (slot : Slot) (i : Nat) : List (Option α) → List (Place × α)
  | [] => []
  | none :: rest => placeAll slot (i + 1) rest
  | some a :: rest => (⟨slot, some i⟩, a) :: placeAll slot (i + 1) rest

/-- The children in a field, with their places. -/
def Field.children {α : Type} : Field α → List (Place × α)
  | one slot a => [(⟨slot, none⟩, a)]
  | maybe slot (some a) => [(⟨slot, none⟩, a)]
  | maybe _ none => []
  | many slot as => placeAll slot 0 (as.map some)
  | holes slot as => placeAll slot 0 as
  | text .. | flag .. => []

/-- All children of a form, with their places, in order. -/
def Form.children {α : Type} (f : Form α) : List (Place × α) := f.fields.flatMap Field.children

/-- What is given a place stood in the list. -/
theorem mem_of_mem_placeAll {α : Type} {slot : Slot} {p : Place × α} {as : List (Option α)} {i : Nat}
    (h : p ∈ placeAll slot i as) : some p.2 ∈ as := by
  induction as generalizing i with
  | nil => cases h
  | cons a as ih =>
    cases a with
    | none => exact List.mem_cons_of_mem _ (ih h)
    | some a =>
      simp only [placeAll, List.mem_cons] at h
      rcases h with h | h
      · subst h; exact List.mem_cons_self
      · exact List.mem_cons_of_mem _ (ih h)

end Reflow
