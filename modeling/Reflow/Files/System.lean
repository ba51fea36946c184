import Reflow.Files.Name
import Reflow.Text.Quoted

/-! # Access to files

What a program can do with files and standard input, in any monad. -/

namespace Reflow

/-- Why a file cannot be read or written. -/
inductive FileFault where
  | notFound (name : String)
  | notDirectory (name : String)
  | isDirectory (name : String)
  | nameTooLong (name : String)
  /-- No file can have the name, because it holds a zero character. -/
  | unusableName
  /-- Any other reason, with its number and wording. -/
  | other (number : Nat) (reason name : String)
  deriving Repr, DecidableEq

/-- The wording of a fault, with its customary number. -/
def FileFault.message : FileFault → String
  | .notFound name => "[Errno 2] No such file or directory: " ++ Text.quoted name
  | .notDirectory name => "[Errno 20] Not a directory: " ++ Text.quoted name
  | .isDirectory name => "[Errno 21] Is a directory: " ++ Text.quoted name
  | .nameTooLong name => "[Errno 36] File name too long: " ++ Text.quoted name
  | .unusableName => "embedded null byte"
  | .other number reason name =>
    "[Errno " ++ toString number ++ "] " ++ reason ++ ": " ++ Text.quoted name

/-- Does the fault mean that there is no such file? -/
def FileFault.isAbsence : FileFault → Bool
  | .notFound _ | .notDirectory _ | .isDirectory _ | .unusableName => true
  | .nameTooLong _ | .other .. => false

/-- Access to files and to standard input. -/
structure FileAccess (m : Type → Type) where
  /-- The contents of a file. -/
  read : FileName → m (Except FileFault String)
  /-- Replaces the contents of a file, or makes a new one. -/
  write : FileName → String → m (Except FileFault Unit)
  /-- All that is left of standard input. -/
  readInput : m String

end Reflow
