import Reflow.Options

/-! # Tables

Nested tables under construction, and the marks that keep what is finished from being changed. -/

namespace Reflow.Toml

/-- A table. -/
abbrev Table := Options.Entries

/-- Why the table at a key may not be opened or changed. -/
inductive Mark where
  /-- It was written as a value. -/
  | frozen
  /-- It was opened already. -/
  | opened
  deriving Repr, DecidableEq

/-- A mark on a key, and perhaps on all keys below it. -/
structure Marked where
  key : List String
  mark : Mark
  below : Bool := false
  deriving Repr, DecidableEq

/-- The marks of a document. -/
abbrev Marks := List Marked

/-- Does a key have a mark? -/
def Marks.holds (marks : Marks) (key : List String) (mark : Mark) : Bool :=
  marks.any fun m =>
    m.mark = mark && (m.key == key || (m.below && m.key.isPrefixOf key))

/-- Takes all marks from a key and from those below it. -/
def Marks.clear (marks : Marks) (key : List String) : Marks :=
  marks.filter fun m => !key.isPrefixOf m.key

/-- Changes the table at a key; tables on the way are made if they are missing.  `lists` if the last
table of a list stands for the list. -/
def updateAt (lists : Bool) (change : Table → Option Table) : List String → Table → Option Table
  | [], t => change t
  | k :: rest, t =>
    match t.lookup k with
    | none => (updateAt lists change rest []).map fun inner => t.put k (.table inner)
    | some (.table inner) => (updateAt lists change rest inner).map fun x => t.put k (.table x)
    | some (.list items) =>
      match lists, items.getLast? with
      | true, some (.table inner) =>
        (updateAt lists change rest inner).map fun x => t.put k (.list (items.dropLast ++ [.table x]))
      | _, _ => none
    | some _ => none

/-- Adds a value under a name that is not taken. -/
def addNew (name : String) (v : OptionValue) (t : Table) : Option Table :=
  if (t.lookup name).isSome then none else some (t.put name v)

/-- Adds an empty table to the list under a name. -/
def addToList (name : String) (t : Table) : Option Table :=
  match t.lookup name with
  | none => some (t.put name (.list [.table []]))
  | some (.list items) => some (t.put name (.list (items ++ [.table []])))
  | some _ => none

/-- Adds a value under a key of one or more parts. -/
def addAt (lists : Bool) (key : List String) (v : OptionValue) (t : Table) : Option Table :=
  match key.getLast? with
  | some name => updateAt lists (addNew name v) key.dropLast t
  | none => none

end Reflow.Toml
