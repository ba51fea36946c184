import Reflow.Embed.Splice
import Reflow.Source.Fault
import Reflow.Text.Quoted
import Reflow.Token.Basic

/-! # Faults of formatting

Why a format call gives no text. -/

namespace Reflow

/-- A reason to give up. -/
inductive FormatFault where
  /-- The source cannot be read. -/
  | unreadable (fault : SourceFault) (source : Source)
  /-- The expressions of a template do not match its placeholders. -/
  | substitution (fault : Embed.Mismatch)
  /-- A comment is missing in the output. -/
  | lostComment (comment : Comment)
  /-- There is no outcome: more calls wait for one another than the stack holds, or a loop goes round
  for ever. -/
  | tooDeep
  /-- A number or a text is too large to be worked out. -/
  | limit (passed : Limit)
  deriving Repr, DecidableEq

/-- The wording of a fault; `fileName` is what the source is called. -/
def FormatFault.message (fileName : String) : FormatFault → String
  | .unreadable fault source => fault.describe source fileName
  | .substitution fault => fault.message
  | .lostComment c =>
    "comment " ++ Text.quoted c.text ++ " at " ++ toString c.span.start.line ++ ":"
      ++ toString c.span.start.column ++ " was not printed"
  | .tooDeep => "input nested too deeply"
  | .limit passed => passed.message

end Reflow
