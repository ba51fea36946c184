import Reflow.Doc.Basic
import Reflow.Text.Quoted
import Reflow.Text.Trim

/-! # Outlines of documents

A document as indented text with one command a line.  Sequences have no line of their own. -/

namespace Reflow.Doc

/-- A line of an outline. -/
def outlineLine (depth : Nat) (s : String) : String := Text.repeated depth "  " ++ s ++ "\n"

/-- How an alignment is written. -/
def alignmentText : Alignment → String
  | .columns n => toString n
  | .text s => Text.quoted s

/-- The name of a line break. -/
def lineName : LineKind → String
  | .space => "line"
  | .soft => "softline"
  | .hard => "hardline"
  | .literal => "literalline"

/-- The mark of a broken group. -/
def brokenMark (broken : Bool) : String := if broken then " break" else ""

mutual
/-- The outline of a document at a depth. -/
def outlineAt (depth : Nat) : Doc → String
  | .text s => outlineLine depth (Text.quoted s)
  | .line kind => outlineLine depth (lineName kind)
  | .breakParent => outlineLine depth "break_parent"
  | .suffixBoundary => outlineLine depth "line_suffix_boundary"
  | .cursor => outlineLine depth "cursor"
  | .concat parts => outlineAll depth parts
  | .indent body => outlineLine depth "indent" ++ outlineAt (depth + 1) body
  | .align amount body =>
    outlineLine depth ("align(" ++ alignmentText amount ++ ")") ++ outlineAt (depth + 1) body
  | .group body broken =>
    outlineLine depth ("group" ++ brokenMark broken) ++ outlineAt (depth + 1) body
  | .alternatives first others broken =>
    outlineLine depth ("conditional_group" ++ brokenMark broken)
      ++ outlineLine (depth + 1) "state 0" ++ outlineAt (depth + 2) first
      ++ outlineStates depth 1 others
  | .fill parts => outlineLine depth "fill" ++ outlineAll (depth + 1) parts
  | .ifBreak broken flat =>
    outlineLine depth "if_break" ++ outlineAt (depth + 1) broken
      ++ outlineLine depth "else" ++ outlineAt (depth + 1) flat
  | .lineSuffix body => outlineLine depth "line_suffix" ++ outlineAt (depth + 1) body

/-- The outlines of a sequence. -/
def outlineAll (depth : Nat) : List Doc → String
  | [] => ""
  | d :: rest => outlineAt depth d ++ outlineAll depth rest

/-- The outlines of numbered shapes. -/
def outlineStates (depth index : Nat) : List Doc → String
  | [] => ""
  | d :: rest =>
    outlineLine (depth + 1) ("state " ++ toString index) ++ outlineAt (depth + 2) d
      ++ outlineStates depth (index + 1) rest
end

/-- The outline of a document. -/
def outline (d : Doc) : String := outlineAt 0 d

end Reflow.Doc
