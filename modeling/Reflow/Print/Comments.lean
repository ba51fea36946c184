import Reflow.Print.Basic
import Reflow.Source.Gap
import Reflow.Text.Trim

/-! # Printing comments

A comment is printed with the node that it is attached to, and marked when it is. -/

namespace Reflow

namespace Comment

/-- The comment that asks to leave the following node as it is. -/
def isIgnoreDirective (c : Comment) : Bool := Text.trim c.value == "vxfmt-ignore"

/-- Can the lines of a block comment be indented?  Only if there are several and each of them starts
with a star. -/
def isIndentable (c : Comment) : Bool :=
  let lines := Text.splitAt '\n' ('*' :: c.value.toList ++ ['*'])
  1 < lines.length && lines.all fun line => (Text.trimChars line).head? == some '*'

/-- The lines of a block comment behind its first one, each one blank further in. -/
def indentedLines : List String → List String
  | [] => []
  | [last] => [" " ++ Text.trimStart last]
  | line :: rest => (" " ++ Text.trim line) :: indentedLines rest

/-- A block comment whose lines take the indentation around it. -/
def indentedBlock (c : Comment) : Doc :=
  match Text.linesOf c.value with
  | [] => .cat ["/*", "*/"]
  | first :: rest =>
    .cat ["/*",
      .join .hardline ((Text.trimEnd first :: indentedLines rest).map Doc.text), "*/"]

end Comment

namespace Attachments

/-- Is the node to be left as it is? -/
def isIgnored (a : Attachments) (n : Node) : Bool :=
  (a.inRole .leading n).any (·.comment.isIgnoreDirective)

/-- Does a comment on a line of its own, or at the end of one, lead the node?  Of markup only one
that asks to leave it as it is counts. -/
def hasLeadingOwnLine (a : Attachments) (source : Source) (n : Node) : Bool :=
  if n.form matches .jsxElement .. | .jsxFragment .. then a.isIgnored n
  else (a.inRole .leading n).any fun x => source.hasNewline x.comment.stop false

end Attachments

namespace Print

/-- Is the first non-blank thing before a comment a line end? -/
def startsLine (c : Comment) : Print Bool := return (← source).hasNewline c.start true

/-- Prints a comment and marks it. -/
def comment (a : Attachment) : Print Doc := do
  let c := a.comment
  mark c
  if c.isBlock then
    if c.isIndentable then
      if a.role == .trailing && !(← startsLine c) then
        return .cat [.hardline, c.indentedBlock]
      return c.indentedBlock
    return .text c.text
  return .text ("//" ++ Text.trimEnd c.value)

/-- Prints a comment before its node. -/
def leadingComment (a : Attachment) : Print Doc := do
  let contents ← comment a
  let source ← source
  let c := a.comment
  let broken := !c.isBlock || source.hasNewline c.stop false
  let separator : Doc := if broken then .hardline else " "
  -- A blank line behind the comment is kept.
  let blank := match source.skipNewline (source.skipSpaces (some c.stop) false) false with
    | some i => source.hasNewline i false
    | none => false
  return .cat [.cat [contents, separator], .when blank .hardline]

/-- Prints a comment behind its node. -/
def trailingComment (a : Attachment) : Print Doc := do
  let contents ← comment a
  let c := a.comment
  if ← startsLine c then
    let blank := (← source).isPreviousLineEmpty c.start
    return .lineSuffix (.cat [.hardline, .when blank .hardline, contents])
  if c.isBlock then
    return .cat [" ", contents]
  return .cat [.lineSuffix (.cat [" ", contents]), .breakParent]

/-- Puts the comments of a node before and behind what is printed for it. -/
def withComments (n : Node) (printed : Doc) : Print Doc := do
  let attached := ((← attachments).of n).filter (·.role != .dangling)
  if attached.isEmpty then return printed
  let docs ← attached.mapM fun a =>
    if a.role == .leading then leadingComment a else trailingComment a
  let sorted := attached.zip docs
  let inRole (role : CommentRole) := (sorted.filter (·.1.role == role)).map (·.2)
  return .cat (inRole .leading ++ [printed] ++ inRole .trailing)

/-- Prints the comments inside a node that satisfy a condition, each on a line. -/
def danglingWhere (keep : Comment → Bool) (n : Node) : Print (List Doc) := do
  (((← attachments).inRole .dangling n).filter fun a => keep a.comment).mapM comment

/-- Prints the comments inside a node in its own indentation. -/
def dangling (n : Node) (keep : Comment → Bool := fun _ => true) : Print Doc := do
  let docs ← danglingWhere keep n
  return if docs.isEmpty then .empty else .join .hardline docs

/-- Prints the comments inside a node on lines of their own, indented. -/
def indentedDangling (n : Node) : Print Doc := do
  let docs ← danglingWhere (fun _ => true) n
  return if docs.isEmpty then .empty else .indent (.cat [.hardline, .join .hardline docs])

end Print

end Reflow
