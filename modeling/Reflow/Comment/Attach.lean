import Reflow.Comment.Attachment
import Reflow.Comment.Location
import Reflow.Source.Gap
import Reflow.Tree.Kind

/-! # Attaching comments

Each comment is first offered to the rules for its placement; the first rule that takes it decides.
Otherwise it goes to a neighbour, or to the node around it.  Comments between two nodes on one line
wait until it is known which of them belong to the first and which to the second. -/

namespace Reflow

/-- The node that a comment goes to, and its role there. -/
structure CommentTarget where
  node : Node
  role : CommentRole

/-- A rule: where a comment at a place goes, if the rule takes it. -/
abbrev AttachRule := Source → Comment → CommentLocation → Option CommentTarget

namespace Attach

/-- Before a node. -/
def leading (n : Node) : Option CommentTarget := some ⟨n, .leading⟩

/-- Behind a node. -/
def trailing (n : Node) : Option CommentTarget := some ⟨n, .trailing⟩

/-- Inside a node. -/
def dangling (n : Node) : Option CommentTarget := some ⟨n, .dangling⟩

/-- The first member of a node that holds members. -/
def firstMember? (n : Node) : Option Node :=
  match n.form with
  | .block body | .classBody body | .program body => body.find? fun n => !n.isEmptyStatement
  | .objectExpression properties => properties.head?
  | .arrayExpression elements => elements.findSome? id
  | _ => none

/-- Before the first member of a node, or inside the node if it has none. -/
def firstInBlock (n : Node) : Option CommentTarget :=
  match firstMember? n with
  | some m => leading m
  | none => dangling n

/-- The next character behind a comment. -/
def charAfter (source : Source) (c : Comment) : Option Char := source.nextCharacter? c.stop

/-- A comment in braces without an expression stays in them. -/
def emptyContainer : AttachRule := fun _ _ l =>
  match l.enclosing.map Node.form with
  | some (.jsxExpressionContainer e) =>
    match e.form with
    | .jsxEmptyExpression => dangling e
    | _ => none
  | _ => none

/-- Around the branches of a condition. -/
def ifBranches : AttachRule := fun source c l =>
  match l.enclosing, l.following with
  | some enclosing, some following =>
    match enclosing.form with
    | .ifStatement _ consequent alternate =>
      if charAfter source c = some ')' then l.preceding.bind trailing
      else if l.preceding.any (·.same consequent) && alternate.any (·.same following) then
        if consequent.isBlock then trailing consequent else dangling enclosing
      else match following.form with
        | .block .. => firstInBlock following
        | .ifStatement _ inner _ => if inner.isBlock then firstInBlock inner else leading inner
        | _ => if consequent.same following then leading following else none
    | _ => none
  | _, _ => none

/-- Before the property of a member access. -/
def memberProperty : AttachRule := fun _ _ l =>
  match l.enclosing, l.following.map Node.form with
  | some enclosing, some (.identifier _) | some enclosing, some (.privateName _) =>
    match enclosing.form with
    | .memberExpression .. => leading enclosing
    | _ => none
  | _, _ => none

/-- Before a branch of a conditional expression, on another line than what precedes it. -/
def conditionalBranch : AttachRule := fun source c l =>
  let sameLine := l.preceding.any fun p => !source.hasNewlineInRange p.stop c.start
  match l.enclosing.map Node.form, l.following with
  | some (.conditionalExpression ..), some following => if sameLine then none else leading following
  | _, _ => none

/-- Between a callee and its arguments. -/
def firstArgument : AttachRule := fun _ _ l =>
  match l.enclosing.map Node.form with
  | some (.callExpression callee (first :: _) _) =>
    if l.preceding.any (·.same callee) then leading first else none
  | _ => none

/-- Inside a property that is written out. -/
def insideProperty : AttachRule := fun _ _ l =>
  match l.enclosing with
  | some enclosing =>
    match enclosing.form with
    | .objectProperty _ _ _ false => leading enclosing
    | _ => none
  | none => none

/-- Before an object, array or template that is assigned. -/
def assignedValue : AttachRule := fun _ _ l =>
  match l.enclosing.map Node.form, l.following with
  | some (.variableDeclarator ..), some following
  | some (.assignmentExpression ..), some following =>
    match following.form with
    | .objectExpression .. | .arrayExpression .. | .templateLiteral .. | .taggedTemplate .. =>
      firstInBlock following
    | _ => none
  | _, _ => none

/-- Behind the last parameter of a function. -/
def lastParameter : AttachRule := fun source c l =>
  match l.enclosing, l.preceding with
  | some enclosing, some preceding =>
    match preceding.form with
    | .identifier _ | .assignmentPattern .. =>
      if enclosing.form.params?.isSome && charAfter source c = some ')' then trailing preceding
      else none
    | _ => none
  | _, _ => none

/-- Where the search for the closing parenthesis of a declared function starts. -/
def parameterAnchor? (source : Source) (name : Option Node) (params : List Node) : Option Int :=
  match params.getLast?, name with
  | some last, _ => some last.stop
  | none, some name => some ((source.nextCharacterIndex name.stop).getD 0 + 1)
  | none, none => none

/-- Between the parameters of a declared function and its body. -/
def beforeFunctionBody : AttachRule := fun source c l =>
  match l.enclosing.map Node.form, l.following with
  | some (.functionDeclaration name params _ _ _), some following =>
    if following.isBlock then
      match (parameterAnchor? source name params).bind source.nextCharacterIndex with
      | some close => if close < c.start then firstInBlock following else none
      | none => none
    else none
  | _, _ => none

/-- Between empty parentheses. -/
def emptyParentheses : AttachRule := fun source c l =>
  match l.enclosing with
  | some enclosing =>
    if charAfter source c = some ')' then
      if enclosing.form.params?.any (·.isEmpty) then dangling enclosing
      else match enclosing.form with
        | .callExpression _ [] _ | .newExpression _ [] => dangling enclosing
        | _ => none
    else none
  | none => none

/-- Before the arrow of a function. -/
def beforeArrow : AttachRule := fun source c l =>
  match l.enclosing with
  | some enclosing =>
    match enclosing.form with
    | .arrowFunction .. =>
      match source.nextCharacterIndex c.stop with
      | some i => if Text.startsWith (source.charsFrom i) ['=', '>'] then dangling enclosing else none
      | none => none
    | _ => none
  | none => none

/-- Behind the decorators of a class. -/
def behindClassDecorators : AttachRule := fun _ _ l =>
  match l.enclosing.map Node.form with
  | some (.classDeclaration decorators _ _ _ _) =>
    if l.following.any Node.isDecorator then none else decorators.getLast?.bind trailing
  | _ => none

/-- Behind the decorators of a member. -/
def behindMemberDecorators : AttachRule := fun _ _ l =>
  match l.enclosing.map Node.form, l.preceding with
  | some (.classMethod ..), some preceding | some (.classProperty ..), some preceding =>
    if preceding.isDecorator then trailing preceding else none
  | _, _ => none

/-- Inside a name of an import or export. -/
def insideSpecifier : AttachRule := fun _ _ l =>
  match l.enclosing with
  | some enclosing =>
    match enclosing.form with
    | .importSpecifier .. | .exportSpecifier .. => leading enclosing
    | _ => none
  | none => none

/-- Behind a name of an import, at the end of a line. -/
def behindSpecifier : AttachRule := fun source c l =>
  match l.enclosing.map Node.form, l.preceding with
  | some (.importDeclaration ..), some preceding =>
    match preceding.form with
    | .importSpecifier .. => if source.hasNewline c.stop false then trailing preceding else none
    | _ => none
  | _, _ => none

/-- Inside a target with a default. -/
def insideDefault : AttachRule := fun _ _ l =>
  match l.enclosing with
  | some enclosing =>
    match enclosing.form with
    | .assignmentPattern .. => leading enclosing
    | _ => none
  | none => none

/-- The rules for a comment that is first on its line. -/
def ownLineRules : List AttachRule :=
  [emptyContainer, lastParameter, beforeFunctionBody, memberProperty, ifBranches,
   behindClassDecorators, insideSpecifier, behindSpecifier, insideDefault, behindMemberDecorators]

/-- The rules for a comment that is last on its line. -/
def endOfLineRules : List AttachRule :=
  [emptyContainer, lastParameter, beforeFunctionBody, conditionalBranch, insideSpecifier, ifBranches,
   behindClassDecorators, firstArgument, insideProperty, assignedValue]

/-- The rules for a comment with code on both sides. -/
def remainingRules : List AttachRule :=
  [emptyContainer, ifBranches, emptyParentheses, behindMemberDecorators, beforeArrow]

/-- Where the first rule that takes a comment puts it. -/
def byRules (rules : List AttachRule) (source : Source) (c : Comment) (l : CommentLocation) :
    Option CommentTarget :=
  rules.findSome? fun rule => rule source c l

/-- Where a comment stands on its line. -/
def placementOf (source : Source) (c : Comment) : CommentPlacement :=
  if source.hasNewline c.start true then .ownLine
  else if source.hasNewline c.stop false then .endOfLine
  else .remaining

/-- A comment between two nodes on one line. -/
structure Tie where
  comment : Comment
  preceding : Node
  following : Node

/-- The comments attached so far, and those that wait. -/
structure State where
  attached : Attachments := {}
  ties : List Tie := []

/-- Attaches a comment. -/
def State.add (s : State) (c : Comment) (t : CommentTarget) (placement : CommentPlacement) : State :=
  { s with attached := s.attached.add ⟨t.node.id, c, t.role, placement⟩ }

/-- How many comments at the end of a list, given from the last to the first, reach up to the
offset: only blanks may separate them from it and from each other. -/
def countReaching (source : Source) : Nat → List Tie → Nat
  | _, [] => 0
  | stop, t :: rest =>
    if (source.slice t.comment.stop stop).all Text.isBlank then
      countReaching source t.comment.start rest + 1
    else 0

/-- Attaches the waiting comments: those that reach up to the second node go before it, the others
behind the first. -/
def State.breakTies (source : Source) (s : State) : State :=
  match s.ties with
  | [] => s
  | t :: rest =>
    let ties := t :: rest
    let behind := ties.length - countReaching source t.following.start ties.reverse
    let s := (ties.take behind).foldl
      (fun s x => s.add x.comment ⟨t.preceding, .trailing⟩ .remaining) s
    let s := (ties.drop behind).foldl
      (fun s x => s.add x.comment ⟨t.following, .leading⟩ .remaining) s
    { s with ties := [] }

/-- Where a comment goes that no rule takes: to one of the given neighbours, the first if there is
one, and else inside the node around it. -/
def fallback (root : Node) (l : CommentLocation) (first second : Option CommentTarget) :
    CommentTarget :=
  (first.or second).getD ⟨l.enclosing.getD root, .dangling⟩

/-- Attaches one comment, or lets it wait. -/
def State.attach (root : Node) (source : Source) (s : State) (c : Comment) : State :=
  let l := locate root c
  let before := l.following.bind leading
  let behind := l.preceding.bind trailing
  match placementOf source c with
  | .ownLine =>
    let target := (byRules ownLineRules source c l).getD (fallback root l before behind)
    (s.breakTies source).add c target .ownLine
  | .endOfLine =>
    let target := (byRules endOfLineRules source c l).getD (fallback root l behind before)
    (s.breakTies source).add c target .endOfLine
  | .remaining =>
    match byRules remainingRules source c l, l.preceding, l.following with
    | some target, _, _ => (s.add c target .remaining).breakTies source
    | none, some preceding, some following =>
      let waits := s.ties.getLast?.all (·.following.same following)
      let s := if waits then s else s.breakTies source
      { s with ties := s.ties ++ [⟨c, preceding, following⟩] }
    | none, _, _ => (s.breakTies source).add c (fallback root l behind before) .remaining

end Attach

/-- Attaches comments to the nodes of a tree. -/
def attachComments (root : Node) (comments : List Comment) (source : Source) : Attachments :=
  ((comments.foldl (Attach.State.attach root source) {}).breakTies source).attached

end Reflow
