import Reflow.Text.Letters
import Reflow.Text.Trim

/-! # Names of files

A name is a list of parts below the working directory or below a root.  Empty parts and single dots
are dropped; double dots are kept, because where they lead depends on the files. -/

namespace Reflow

/-- The name of a file or directory. -/
structure FileName where
  /-- Slashes in front, if the name does not start at the working directory. -/
  root : String := ""
  parts : List String := []
  deriving Repr, DecidableEq, Inhabited

namespace FileName

/-- The slashes in front of a name.  Two are kept; any other number counts as one. -/
def rootOf (cs : List Char) : String :=
  match (cs.takeWhile (· == '/')).length with
  | 0 => ""
  | 2 => "//"
  | _ => "/"

/-- Reads a name. -/
def ofString (s : String) : FileName :=
  let parts := (Text.splitAt '/' s.toList).filter fun part => part != [] && part != ['.']
  { root := rootOf s.toList, parts := parts.map String.ofList }

/-- Writes a name. -/
def text (f : FileName) : String :=
  if f.root == "" && f.parts.isEmpty then "." else f.root ++ "/".intercalate f.parts

/-- The directory that the name is in. -/
def parent (f : FileName) : FileName := { f with parts := f.parts.dropLast }

/-- A name in a directory. -/
def child (f : FileName) (name : String) : FileName := { f with parts := f.parts ++ [name] }

/-- The last part of the name. -/
def last (f : FileName) : String := f.parts.getLast?.getD ""

/-- The ending of the last part with its dot; a dot at the start or at the end makes none. -/
def suffix (f : FileName) : String :=
  let name := f.last.toList
  let ending := (name.reverse.takeWhile (· != '.')).reverse
  let start := name.length - ending.length
  if 1 < start && !ending.isEmpty then String.ofList ('.' :: ending) else ""

end FileName

end Reflow
