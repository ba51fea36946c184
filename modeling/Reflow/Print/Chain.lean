import Reflow.Print.Arguments
import Reflow.Print.Template

/-! # Calls and member chains

A chain such as `a.b(x).c(y).d(z)` is taken apart into links.  They are cut into a head and groups,
each a run of accesses and the calls behind them, and printed on one line or with one group on each
line. -/

namespace Reflow

namespace Node

/-- The part of a chain that a link hangs on, and its slot. -/
def chainStep? : Node → Option (Slot × Node)
  | .mk _ _ (.callExpression callee _ _) =>
    if callee.isMember || callee.isCall then some (.callee, callee) else none
  | .mk _ _ (.memberExpression object _ _ _) => some (.object, object)
  | _ => none

/-- A step down a chain leads to a smaller node. -/
theorem sizeOf_chainStep_lt {n : Node} {x : Slot × Node} (h : n.chainStep? = some x) :
    sizeOf x.2 < sizeOf n := by
  unfold chainStep? at h
  split at h
  · split at h <;> simp at h
    subst h; simp; omega
  · simp at h; subst h; simp; omega
  · simp at h

/-- The mark of an optional access or call. -/
def optionalMark (n : Node) : String :=
  match n.form with
  | .callExpression _ _ true => "?."
  | .memberExpression _ _ true true => "?."
  | .memberExpression _ _ false true => "?"
  | _ => ""

/-- Is it an access in brackets? -/
def isComputedAccess (n : Node) : Bool :=
  match n.form with
  | .memberExpression _ _ computed _ => computed
  | _ => false

/-- The name of the member that is accessed, if it is an identifier. -/
def accessedName? (n : Node) : Option String :=
  match n.form with
  | .memberExpression _ (.mk _ _ (.identifier name)) _ _ => some name
  | _ => none

/-- The arguments of a call. -/
def callArguments (n : Node) : List Node :=
  match n.form with
  | .callExpression _ arguments _ => arguments
  | _ => []

end Node

/-- Is a name short for a factory: does it start with a capital letter, or consist of marks? -/
def isFactoryName (name : String) : Bool :=
  match name.toList with
  | [] => false
  | c :: rest => ('A' ≤ c && c ≤ 'Z') || (c :: rest).all fun d => d == '_' || d == '$'

/-- Is there a blank line behind a link?  A closing parenthesis around it is passed over. -/
def Source.isBlankAfterLink (source : Source) (n : Node) : Bool :=
  match source.nextCharacterIndex n.stop with
  | some i =>
    if i < source.size && source.charAt? i == some ')' then source.isNextLineEmpty (i + 1)
    else source.isNextLineEmpty n.stop
  | none => source.isNextLineEmpty n.stop

/-- A link of a chain: its node, and what is printed for it alone. -/
structure ChainLink where
  node : Node
  printed : Doc
  needsParens : Bool := false

/-! ## Cutting a chain -/

namespace Chain

/-- The accesses at the start that have an access behind them, and the rest. -/
def takeAccesses : List ChainLink → List ChainLink × List ChainLink
  | first :: second :: rest =>
    if first.node.isMember && second.node.isMember then
      let (accesses, rest) := takeAccesses (second :: rest)
      (first :: accesses, rest)
    else ([], first :: second :: rest)
  | links => ([], links)

/-- The head and the rest: the first link with the calls and numeric accesses behind it and, unless
it is a call, the accesses but the last. -/
def takeHead : List ChainLink → List ChainLink × List ChainLink
  | [] => ([], [])
  | first :: rest =>
    let direct (l : ChainLink) : Bool := l.node.isCall || l.node.isNumericAccess
    let calls := rest.takeWhile direct
    let rest := rest.dropWhile direct
    if first.node.isCall then (first :: calls, rest)
    else
      let (accesses, rest) := takeAccesses rest
      (first :: calls ++ accesses, rest)

/-- Cuts the links behind the head into groups; `current` is the group being read, and `seenCall`
whether it holds a call already. -/
def cut (a : Attachments) (current : List ChainLink) (seenCall : Bool) :
    List ChainLink → List (List ChainLink)
  | [] => if current.isEmpty then [] else [current]
  | link :: rest =>
    if seenCall && link.node.isNumericAccess then cut a (current ++ [link]) seenCall rest
    else if seenCall && link.node.isMember then
      if a.hasTrailing link.node then current :: [link] :: cut a [] false rest
      else current :: cut a [link] false rest
    else if a.hasTrailing link.node then (current ++ [link]) :: cut a [] false rest
    else cut a (current ++ [link]) (seenCall || link.node.isCall) rest

/-- The head of a chain and the groups behind it. -/
def groups (a : Attachments) (links : List ChainLink) : List ChainLink × List (List ChainLink) :=
  let (head, rest) := takeHead links
  (head, cut a [] false rest)

/-- The links of a group one behind the other. -/
def printGroup (group : List ChainLink) : Doc :=
  let printed := group.map (·.printed)
  if group.getLast?.any (·.needsParens) then .enclosed "(" printed ")" else .cat printed

/-- Groups on lines of their own. -/
def printIndented (groups : List (List ChainLink)) : Doc :=
  if groups.isEmpty then .empty
  else .indent (.grouped (.cat [.hardline, .join .hardline (groups.map printGroup)]))

/-- Does the first group stay on the line of the head? -/
def mergesFirst (options : Options) (a : Attachments) (isStatement : Bool) (head : List ChainLink)
    (groups : List (List ChainLink)) : Bool :=
  match groups with
  | (first :: _) :: _ =>
    let computed := first.node.isComputedAccess
    let short (name : String) : Bool := isStatement && (name.length : Int) ≤ options.tabWidth
    let merges := match head with
      | [only] =>
        match only.node.form with
        | .thisExpression => true
        | .identifier name => isFactoryName name || short name || computed
        | _ => false
      | _ =>
        (head.getLast?.bind fun l => l.node.accessedName?).any fun name =>
          isFactoryName name || computed
    !a.has first.node && merges
  | _ => false

/-- Does a comment stand between the links that would share a line? -/
def holdsComment (a : Attachments) (together : List ChainLink) (others : List (List ChainLink)) :
    Bool :=
  (together.drop 1).dropLast.any (fun l => a.hasLeading l.node)
    || together.dropLast.any (fun l => a.hasTrailing l.node)
    || match others with
      | (next :: _) :: _ => a.hasLeading next.node
      | _ => false

/-- The document of a chain.  `isStatement` if it is a statement of its own. -/
def print (options : Options) (a : Attachments) (source : Source) (isStatement : Bool)
    (links : List ChainLink) : Doc :=
  let (head, groups) := groups a links
  let merges := mergesFirst options a isStatement head groups
  let kept := groups.take (if merges then 1 else 0)
  let broken := groups.drop kept.length
  let printedGroups := (head :: groups).map printGroup
  let oneLine : Doc := .cat printedGroups
  -- The head and one more group fit on a line without a choice.
  let together := groups.take (kept.length + 1)
  let others := groups.drop (kept.length + 1)
  let commented := holdsComment a (head ++ together.flatten) others
  if others.isEmpty && !commented then .grouped oneLine
  else
    let lastKept := (head ++ kept.flatten).getLast?.map (·.node)
    let blank := lastKept.any fun n => !n.isCall && source.isBlankAfterLink n
    let expanded : Doc := .cat [printGroup head, .cat (kept.map printGroup), .when blank .hardline,
      printIndented broken]
    let calls := (links.map (·.node)).filter Node.isCall
    let lastBreaks := links.getLast?.any (·.node.isCall)
      && printedGroups.getLast?.any Doc.willBreak
    let takesFunctions := calls.dropLast.any fun n => n.callArguments.any Node.isFunctionOrArrow
    if commented || (3 ≤ calls.length && !merges) || Doc.anyWillBreak printedGroups.dropLast
        || (lastBreaks && takesFunctions) then
      .grouped expanded
    else
      .cat [.when (oneLine.willBreak || blank) .breakParent,
        .alternatives oneLine [expanded] false]

end Chain

/-! ## Printing -/

namespace Print

/-- Prints the access of a member, without the object. -/
def memberLookup (print : PrintNode) (p : Path) (property : Node) (computed : Bool) : Print Doc := do
  let printed ← child print p .property property
  let mark : Doc := .text p.node.optionalMark
  if !computed then return .cat [mark, ".", printed]
  if property.isNumber then return .cat [mark, "[", printed, "]"]
  return .grouped (.cat [mark, "[", .indent (.cat [.softline, printed]), .softline, "]"])

/-- Prints a member access. -/
def memberExpression (print : PrintNode) (p : Path) (object property : Node) (computed : Bool) :
    Print Doc := do
  let context := (p.above.map (·.node)).find? fun n => !n.isMember
  let inline := computed
    || (match context.map Node.form with
      | some (.newExpression ..) => true
      | some (.variableDeclarator target _) => !target.isIdentifier
      | some (.assignmentExpression _ left _) => !left.isIdentifier
      | _ => false)
    || (object.isIdentifier && property.isIdentifier && !p.parent?.any Node.isMember)
  let lookup ← memberLookup print p property computed
  let printed ← child print p .object object
  return .cat [printed, if inline then lookup else .grouped (.indent (.cat [.softline, lookup]))]

/-- The arguments of a call with the mark before them. -/
def callTail (print : PrintNode) (p : Path) (callee : Node) (args : List Node) : Print Doc := do
  return .cat [.text p.node.optionalMark, ← arguments print p callee args]

/-- One link of a chain. -/
def chainLink (print : PrintNode) (p : Path) : Print ChainLink := do
  match p.node.form with
  | .callExpression callee args _ =>
    let printed ← withComments p.node (← callTail print p callee args)
    let blank := (← source).isBlankAfterLink p.node
    return { node := p.node, printed := .cat [printed, .when blank .hardline] }
  | .memberExpression _ property computed _ =>
    let printed ← withComments p.node (← memberLookup print p property computed)
    return { node := p.node, printed, needsParens := p.needsParens }
  | _ => return { node := p.node, printed := ← print p {} }

/-- The links of a chain, from its head on.  The outer links are printed first. -/
def chainLinks (print : PrintNode) (p : Path) : Print (List ChainLink) :=
  match h : p.node.chainStep? with
  | none => do return [{ node := p.node, printed := ← print p {} }]
  | some (slot, inner) => do
    let link ← chainLink print p
    return (← chainLinks print (p.child slot inner)) ++ [link]
termination_by sizeOf p.node
decreasing_by exact Node.sizeOf_chainStep_lt h

/-- Prints a call of a member as a chain.  The comments of the call itself are printed around it. -/
def memberChain (print : PrintNode) (p : Path) (callee : Node) (args : List Node) : Print Doc := do
  let last : ChainLink := { node := p.node, printed := ← callTail print p callee args }
  let links ← chainLinks print (p.child .callee callee)
  let isStatement := p.parentForm? matches some (.expressionStatement _)
  return Chain.print (← options) (← attachments) (← source) isStatement (links ++ [last])

/-- Prints a call, or a `new` expression. -/
def callExpression (print : PrintNode) (p : Path) (callee : Node) (args : List Node) (isNew : Bool) :
    Print Doc := do
  let source ← source
  let hanging := match args with
    | [only] => only.isHangingTemplate source
    | _ => false
  let start : Doc := .when isNew "new "
  let mark : Doc := .text p.node.optionalMark
  if (!isNew && (callee.isNamed ["require", "define"] || p.node.isTestCall)) || hanging then
    let printed ← child print p .callee callee
    return .cat [start, printed, mark, "(", .join ", " (← items print p .arguments args), ")"]
  if !isNew && callee.isMember then
    return ← memberChain print p callee args
  let printed ← child print p .callee callee
  return .cat [start, printed, mark, ← arguments print p callee args]

end Print

end Reflow
