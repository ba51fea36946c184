import Reflow.Format.FileOptions
import Reflow.Format.Text

/-! # Documents in an editor

What an editor shows for a document: the place of a fault in it, and the edit that formats it.  Lines
and characters are counted from zero. -/

namespace Reflow.Editor

/-- A place in a document. -/
structure Place where
  line : Nat
  character : Nat
  deriving Repr, DecidableEq

/-- A range of a document. -/
structure Range where
  start : Place
  stop : Place
  deriving Repr, DecidableEq

/-- A fault shown in a document. -/
structure Diagnostic where
  range : Range
  message : String
  deriving Repr, DecidableEq

/-- A replacement of a range by a text. -/
structure Edit where
  range : Range
  text : String
  deriving Repr, DecidableEq

/-- Why a document is not formatted. -/
inductive Fault where
  | option (fault : OptionFault)
  | format (fault : FormatFault)

/-- The limit that was passed, if that is the reason. -/
def Fault.limit? : Fault → Option Limit
  | .format (.limit passed) => some passed
  | .format .tooDeep => some .memory
  | .format _ => none
  | .option fault => match fault.report with
    | .error limit => some limit
    | .ok _ => none

/-- The name of the file that an address ends with. -/
def fileNameOf (uri : String) : FileName :=
  .ofString (String.ofList ((Text.splitAt '/' uri.toList).getLast?.getD []))

/-- The place of a position. -/
def Place.ofPosition (p : Position) : Place := ⟨p.line - 1, p.column - 1⟩

/-- The range of a span; an empty one is shown one character wide. -/
def Range.ofSpan (s : Span) : Range :=
  let stop := Place.ofPosition s.stop
  let isEmpty := s.stop.line = s.start.line && s.stop.column = s.start.column
  ⟨.ofPosition s.start, if isEmpty then { stop with character := stop.character + 1 } else stop⟩

/-- Formats a document. -/
def formatted (uri text : String) (entries : Options.Entries) : Except Fault String := do
  let file ← (FileOptions.resolve (fileNameOf uri) entries).mapError .option
  let result := (Format.formatSource file.options file.fragment none text).result
  return (← result.mapError .format).text

/-- The faults of a document: the first place where it cannot be read. -/
def diagnose (uri text : String) : Except Limit (List Diagnostic) :=
  match formatted uri text [] with
  | .error (.format (.unreadable fault _)) => .ok [⟨.ofSpan fault.span, fault.message⟩]
  | .error fault => match fault.limit? with
    | some limit => .error limit
    | none => .ok []
  | .ok _ => .ok []

/-- The place behind the last character of a text. -/
def endOf (text : String) : Place :=
  let lines := Text.splitAt '\n' text.toList
  ⟨lines.length - 1, (lines.getLast?.getD []).length⟩

/-- The edits that format a document: none if it is formatted already. -/
def edits (uri text : String) (tabSize : Int) (insertSpaces : Bool) : Except Fault (List Edit) := do
  let result ← formatted uri text [("tab_width", .int tabSize), ("use_tabs", .bool !insertSpaces)]
  if result == text then return []
  return [⟨⟨⟨0, 0⟩, endOf text⟩, result⟩]

end Reflow.Editor
