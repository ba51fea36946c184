import Reflow.Files.System

/-! # Files in memory

A working directory as a value: its files with their contents.  A directory is there as long as a
file is in it. -/

namespace Reflow

/-- The files below a working directory, by their parts, and standard input. -/
structure Workspace where
  files : List (List String × String) := []
  input : String := ""
  deriving Repr, DecidableEq, Inhabited

namespace Workspace

/-- What is at a place. -/
inductive Entry where
  | file (place : List String) (text : String)
  | directory
  /-- Nothing yet, but a file can be made there. -/
  | free (place : List String)
  | fault (cause : String → FileFault)

/-- Is there a directory at a place? -/
def isDirectory (w : Workspace) (place : List String) : Bool :=
  place.isEmpty || w.files.any fun f => place.isPrefixOf f.1 && place.length < f.1.length

/-- The greatest number of bytes in one part of a name. -/
def maxPartBytes : Nat := 255

/-- The greatest number of bytes in a name. -/
def maxNameBytes : Nat := 4095

/-- Follows the parts of a name from a directory; `none` stands for a directory above the working
directory, of which no contents are known. -/
def follow (w : Workspace) : Option (List String) → List String → Entry
  | _, [] => .directory
  | none, ".." :: rest => w.follow none rest
  | none, name :: _ => .fault (if maxPartBytes < name.utf8ByteSize then .nameTooLong else .notFound)
  | some place, ".." :: rest =>
    w.follow (if place.isEmpty then none else some place.dropLast) rest
  | some place, name :: rest =>
    let place := place ++ [name]
    if maxPartBytes < name.utf8ByteSize then .fault .nameTooLong
    else if w.isDirectory place then w.follow (some place) rest
    else match w.files.lookup place, rest with
      | some text, [] => .file place text
      | some _, _ :: _ => .fault .notDirectory
      | none, [] => .free place
      | none, _ :: _ => .fault .notFound

/-- What a name stands for. -/
def find (w : Workspace) (name : FileName) : Entry :=
  if name.text.toList.contains '\x00' then .fault fun _ => .unusableName
  else if maxNameBytes < name.text.utf8ByteSize then .fault .nameTooLong
  else w.follow (if name.root == "" then some [] else none) name.parts

/-- The contents of a file. -/
def read (w : Workspace) (name : FileName) : Except FileFault String :=
  match w.find name with
  | .file _ text => .ok text
  | .directory => .error (.isDirectory name.text)
  | .free _ => .error (.notFound name.text)
  | .fault cause => .error (cause name.text)

/-- Gives the file at a place new contents. -/
def put (w : Workspace) (place : List String) (text : String) : Workspace :=
  let others := w.files.filter fun f => f.1 != place
  { w with files := others ++ [(place, text)] }

/-- Replaces the contents of a file, or makes a new one. -/
def write (w : Workspace) (name : FileName) (text : String) : Except FileFault Workspace :=
  match w.find name with
  | .file place _ | .free place => .ok (w.put place text)
  | .directory => .error (.isDirectory name.text)
  | .fault cause => .error (cause name.text)

/-- Access to the files in memory. -/
def access : FileAccess (StateM Workspace) where
  read name := return (← get).read name
  write name text := do
    match (← get).write name text with
    | .ok w => set w; return .ok ()
    | .error fault => return .error fault
  readInput := do
    let w ← get
    set { w with input := "" }
    return w.input

end Workspace

end Reflow
