import Reflow.Toml.Scalar
import Reflow.Toml.Table

/-! # Configuration files

Values in brackets and braces, and the statements of a document: entries, and the headings of tables
and of lists of tables. -/

namespace Reflow.Toml

/-- Drops white space, line ends and comments. -/
def skipGaps (inComment : Bool) : List Char → Option (List Char)
  | [] => some []
  | c :: rest =>
    if inComment then
      if c = '\n' then skipGaps false rest
      else if isForbidden c then none
      else skipGaps true rest
    else if Text.isBlank c || c = '\n' then skipGaps false rest
    else if c = '#' then skipGaps true rest
    else some (c :: rest)

/-- Drops a comment up to the end of its line. -/
def skipComment (cs : List Char) : Option (List Char) :=
  match cs with
  | '#' :: rest =>
    if (rest.takeWhile (· != '\n')).any isForbidden then none
    else some (rest.dropWhile (· != '\n'))
  | _ => some cs

/-- The items of a list up to its closing bracket. -/
def listItems (item : ValueReader OptionValue) : Nat → ValueReader (List OptionValue)
  | 0, _ => .error .malformed
  | fuel + 1, cs => do
    let (v, rest) ← item cs
    match ← required (skipGaps false rest) with
    | ']' :: left => return ([v], left)
    | ',' :: rest =>
      match ← required (skipGaps false rest) with
      | ']' :: left => return ([v], left)
      | rest =>
        let (vs, left) ← listItems item fuel rest
        return (v :: vs, left)
    | _ => throw .malformed

/-- A key, an equals sign and a value. -/
def entry (item : ValueReader OptionValue) : ValueReader (List String × OptionValue) := fun cs => do
  let (k, rest) ← required (key (cs.length + 1) cs)
  let (v, left) ← item (skipBlanks (← required (symbol '=' rest)))
  return ((k, v), left)

/-- Is a value one that holds others? -/
def holdsValues : OptionValue → Bool
  | .table _ | .list _ => true
  | _ => false

/-- The entries of a table in braces up to the closing one. -/
def tableEntries (item : ValueReader OptionValue) : Nat → Table → Marks → ValueReader Table
  | 0, _, _, _ => .error .malformed
  | fuel + 1, t, marks, cs => do
    let ((k, v), rest) ← entry item cs
    if marks.holds k .frozen then throw .malformed
    let t ← required (addAt false k v t)
    match skipBlanks rest with
    | '\x7d' :: left => return (t, left)
    | ',' :: rest =>
      let marks := if holdsValues v then ⟨k, .frozen, true⟩ :: marks else marks
      tableEntries item fuel t marks (skipBlanks rest)
    | _ => throw .malformed

/-- A value; `depth` bounds how deep values are nested. -/
def value : Nat → ValueReader OptionValue
  | 0, _ => .error .malformed
  | depth + 1, cs =>
    match cs with
    | '[' :: rest => do
      match ← required (skipGaps false rest) with
      | ']' :: left => return (.list [], left)
      | rest =>
        let (items, left) ← listItems (value depth) (rest.length + 1) rest
        return (.list items, left)
    | '\x7b' :: rest =>
      match skipBlanks rest with
      | '\x7d' :: left => .ok (.table [], left)
      | rest => do
        let (t, left) ← tableEntries (value depth) (rest.length + 1) [] [] rest
        return (.table t, left)
    | c :: _ =>
      if c = '"' || c = '\'' then do
        let (s, left) ← required (string cs)
        return (.string (String.ofList s), left)
      else scalar cs
    | [] => .error .malformed

/-- A document as far as it was read. -/
structure Document where
  table : Table := []
  marks : Marks := []
  /-- Keys that are marked as opened by the next heading. -/
  pending : List (List String) := []
  /-- The key of the last heading. -/
  heading : List String := []

namespace Document

/-- The keys of the tables that the parts of a key pass through. -/
def passed (heading key : List String) : List (List String) :=
  (List.range key.length).tail.map fun i => heading ++ key.take i

/-- Adds an entry below the last heading. -/
def addEntry (d : Document) (key : List String) (v : OptionValue) : Option Document := do
  let keys := passed d.heading key
  if keys.any (d.marks.holds · .opened) then none
  let full := d.heading ++ key
  if d.marks.holds full.dropLast .frozen then none
  let table ← addAt true full v d.table
  let marks := if holdsValues v then ⟨full, .frozen, true⟩ :: d.marks else d.marks
  return { d with table, marks, pending := keys ++ d.pending }

/-- Marks what the entries below the last heading opened. -/
def settle (d : Document) : Document :=
  { d with marks := d.pending.map (⟨·, .opened, false⟩) ++ d.marks, pending := [] }

/-- Opens the table at a key. -/
def openTable (d : Document) (key : List String) : Option Document := do
  if d.marks.holds key .opened || d.marks.holds key .frozen then none
  let table ← updateAt true some key d.table
  return { d with table, marks := ⟨key, .opened, false⟩ :: d.marks, heading := key }

/-- Adds a table to the list at a key, and opens it. -/
def openListItem (d : Document) (key : List String) : Option Document := do
  if d.marks.holds key .frozen then none
  let name ← key.getLast?
  let table ← updateAt true (addToList name) key.dropLast d.table
  return { d with table, marks := ⟨key, .opened, false⟩ :: d.marks.clear key, heading := key }

/-- Reads a heading, from behind its first bracket on. -/
def readHeading (d : Document) : Reader Document
  | '[' :: rest => do
    let (k, rest) ← key (rest.length + 1) (skipBlanks rest)
    let left ← Text.dropLeading? [']', ']'] rest
    return (← d.settle.openListItem k, left)
  | rest => do
    let (k, rest) ← key (rest.length + 1) (skipBlanks rest)
    return (← d.settle.openTable k, ← symbol ']' rest)

/-- Reads one statement. -/
def readStatement (d : Document) : ValueReader Document
  | '[' :: rest => required (d.readHeading rest)
  | '#' :: rest => .ok (d, '#' :: rest)
  | cs => do
    let ((k, v), left) ← entry (value (cs.length + 1)) cs
    return (← required (d.addEntry k v), left)

/-- Reads statements up to the end of the text. -/
def readAll : Nat → Document → List Char → Except Fault Document
  | 0, _, _ => .error .malformed
  | fuel + 1, d, cs =>
    match skipBlanks cs with
    | [] => .ok d
    | '\n' :: rest => readAll fuel d rest
    | cs => do
      let (d, rest) ← d.readStatement cs
      match ← required (skipComment (skipBlanks rest)) with
      | [] => return d
      | '\n' :: rest => readAll fuel d rest
      | _ => throw .malformed

end Document

/-- Drops the carriage return of a line end. -/
def dropReturns : List Char → List Char
  | '\r' :: '\n' :: rest => '\n' :: dropReturns rest
  | c :: rest => c :: dropReturns rest
  | [] => []

/-- The table of a whole configuration. -/
def read (text : String) : Except Fault Table :=
  let cs := dropReturns text.toList
  (Document.readAll (cs.length + 1) {} cs).map (·.table)

end Reflow.Toml
