import Reflow.Options

/-! # Notes of a run

What a format call notes on its way, in order, for those who want to look over its shoulder. -/

namespace Reflow

/-- Something that happened during a format call. -/
inductive Note where
  /-- A stylesheet of so many characters is read. -/
  | readingStylesheet (size : Nat)
  /-- A source of so many characters is read. -/
  | readingSource (language : Language) (size : Nat)
  /-- A source with so many comments was read. -/
  | foundComments (count : Nat)
  /-- So many comments got their nodes. -/
  | attachedComments (count : Nat)
  /-- A template with so many expressions is formatted in its own language. -/
  | embedding (language : Language) (placeholders : Nat)
  /-- A template is printed as it is, because it cannot be read. -/
  | notEmbedded (reason : String)
  /-- A text of so many characters was laid out. -/
  | laidOut (size : Nat) (width : Int)
  /-- A file was overwritten. -/
  | rewrote (name : String)
  deriving Repr, DecidableEq

/-- The part of the program that a note comes from. -/
def Note.topic : Note → String
  | .readingStylesheet .. | .readingSource .. | .foundComments .. | .laidOut .. => "core"
  | .attachedComments .. => "comments"
  | .embedding .. | .notEmbedded .. => "embed"
  | .rewrote .. => "cli"

/-- The wording of a note. -/
def Note.message : Note → String
  | .readingStylesheet size => "parsing stylesheet (" ++ toString size ++ " chars)"
  | .readingSource language size =>
    "parsing " ++ language.name ++ " source (" ++ toString size ++ " chars)"
  | .foundComments count => "parsed " ++ toString count ++ " comment(s)"
  | .attachedComments count => "attached " ++ toString count ++ " comment(s)"
  | .embedding language placeholders =>
    "embedding " ++ (if language = .css then "stylesheet" else language.name) ++ " with "
      ++ toString placeholders ++ " placeholder(s)"
  | .notEmbedded reason => "embedded payload not formatted: " ++ reason
  | .laidOut size width => "rendered " ++ toString size ++ " chars at width " ++ toString width
  | .rewrote name => "rewrote " ++ name

/-- The line that reports a note. -/
def Note.line (n : Note) : String := "vxfmt." ++ n.topic ++ ": " ++ n.message

end Reflow
