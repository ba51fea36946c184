import Reflow.Files.Name
import Reflow.Options

/-! # Options of a file

The language of a file is told by the ending of its name, unless it is set. -/

namespace Reflow

/-- The options of a file, and whether it is a fragment. -/
structure FileOptions where
  options : Options
  fragment : Bool := false
  deriving Repr, DecidableEq

/-- The language of a file by the ending of its name, and whether it is a fragment. -/
def Language.ofSuffix (suffix : String) : Language × Bool :=
  match Text.lower suffix with
  | ".vx" | ".vsx" => (.visionx, true)
  | ".css" => (.css, false)
  | ".html" => (.html, false)
  | _ => (.script, false)

/-- The options that entries set for a file; a text that is not in a file is a script. -/
def FileOptions.resolve (name : Option FileName) (entries : Options.Entries) :
    Except OptionFault FileOptions := do
  let options ← Options.resolve entries
  if entries.any (·.1 == "parser") then return { options }
  let (parser, fragment) := Language.ofSuffix ((name.map FileName.suffix).getD "")
  return { options := { options with parser }, fragment }

end Reflow
