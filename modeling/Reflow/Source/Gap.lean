import Reflow.Source.Position
import Reflow.Text.Trim

/-! # Looking around in a source

Small steps over the blanks, commas, comments and line ends next to an index.  An index may stand
one before the first character; a step that starts off the text gives `none`.  Where characters are
looked up, a negative index counts from the end. -/

namespace Reflow.Source

/-- An index into a source that may have run off it. -/
abbrev Index := Option Int

/-- The characters that end a line in a gap. -/
def isGapNewline (c : Char) : Bool := ['\n', '\r', '\u2028', '\u2029'].contains c

/-- The character at an index; a negative index counts from the end. -/
def charAt? (s : Source) (i : Int) : Option Char :=
  if 0 ≤ i then s.at? i.toNat
  else if 0 ≤ i + s.size then s.at? (i + s.size).toNat else none

/-- The offset of an index; a negative index counts from the end, up to the start. -/
def offsetOf (s : Source) (i : Int) : Nat := if 0 ≤ i then i.toNat else (i + s.size).toNat

/-- The characters from an index on. -/
def charsFrom (s : Source) (i : Int) : List Char := s.suffix (s.offsetOf i)

/-- Moves an index past every character of a class, forwards or backwards. -/
def skipWhile (s : Source) (p : Char → Bool) (backwards : Bool) : Index → Index
  | none => none
  | some i =>
    if i < -1 || (s.size : Int) < i then none
    else if backwards then
      if i = s.size then some i
      else some (i - ((s.before (i + 1).toNat).takeWhile p).length)
    else if i < 0 then some i
    else some (i + ((s.suffix i.toNat).takeWhile p).length)

/-- Moves past spaces and tabs. -/
def skipSpaces (s : Source) (i : Index) (backwards : Bool) : Index :=
  s.skipWhile Text.isBlank backwards i

/-- Moves past spaces, tabs, carriage returns and line feeds. -/
def skipWhitespace (s : Source) (i : Index) (backwards : Bool) : Index :=
  s.skipWhile (fun c => Text.isBlank c || c == '\r' || c == '\n') backwards i

/-- Moves past commas, semicolons, spaces and tabs. -/
def skipToLineEnd (s : Source) (i : Index) (backwards : Bool) : Index :=
  s.skipWhile (fun c => Text.isBlank c || c == ',' || c == ';') backwards i

/-- The characters up to and with the first end of a block comment. -/
def blockCommentEnd? : List Char → Option Nat
  | [] => none
  | '*' :: '/' :: _ => some 2
  | _ :: rest => (blockCommentEnd? rest).map (· + 1)

/-- Moves past a block comment that starts at the index. -/
def skipInlineComment (s : Source) : Index → Index
  | none => none
  | some i =>
    if Text.startsWith (s.charsFrom i) ['/', '*'] then
      match blockCommentEnd? (s.charsFrom (i + 2)) with
      | some n => some ((s.offsetOf (i + 2) + n : Nat) : Int)
      | none => some i
    else some i

/-- The characters that are passed from an index on; those of the whole text follow the ones that a
negative index counts from the end. -/
def charsAlong (s : Source) (i : Int) : List Char :=
  if 0 ≤ i then s.charsFrom i else s.charsFrom i ++ s.chars

/-- Moves past a line comment that starts at the index, up to the end of the line. -/
def skipTrailingComment (s : Source) : Index → Index
  | none => none
  | some i =>
    if Text.startsWith (s.charsFrom i) ['/', '/'] then
      some (i + ((s.charsAlong i).takeWhile fun c => !isGapNewline c).length)
    else some i

/-- Moves past one line end at the index. -/
def skipNewline (s : Source) (i : Index) (backwards : Bool) : Index :=
  match i with
  | none => none
  | some i =>
    if backwards then
      if s.slice (s.offsetOf (i - 1)) (s.offsetOf (i + 1)) == ['\r', '\n'] then some (i - 2)
      else if 0 ≤ i && (s.charAt? i).any isGapNewline then some (i - 1)
      else some i
    else if Text.startsWith (s.charsFrom i) ['\r', '\n'] then some (i + 2)
    else if (s.charAt? i).any isGapNewline then some (i + 1)
    else some i

/-- Is an index so far before the start that it counts to no character from the end? -/
def isOffStart (s : Source) (i : Int) : Bool := i + s.size < 0

/-- Is there no character at the index that could be a line end? -/
def missesNewline (s : Source) (i : Index) : Bool :=
  i.any fun i => s.isOffStart i && !Text.startsWith (s.charsFrom i) ['\r', '\n']

/-- Is there a line comment at the index, but no character to start from? -/
def missesTrailingComment (s : Source) (i : Index) : Bool :=
  i.any fun i => s.isOffStart i && Text.startsWith (s.charsFrom i) ['/', '/']

/-- Do only blanks separate the index from a line end?  Backwards, the characters before the index
are looked at. -/
def hasNewline (s : Source) (i : Int) (backwards : Bool) : Bool :=
  let blank := s.skipSpaces (some (if backwards then i - 1 else i)) backwards
  blank != s.skipNewline blank backwards

/-- Is there a line feed between two indices?  Negative ones count from the end. -/
def hasNewlineInRange (s : Source) (start stop : Int) : Bool :=
  (s.slice (s.offsetOf start) (s.offsetOf stop)).contains '\n'

/-- Is the line before the one of the index blank? -/
def isPreviousLineEmpty (s : Source) (start : Int) : Bool :=
  let i := s.skipSpaces (some (start - 1)) true
  let i := s.skipNewline i true
  let i := s.skipSpaces i true
  i != s.skipNewline i true

/-- Repeats a step until it changes nothing, at most a number of times. -/
def settle (step : Index → Index) : Nat → Index → Index
  | 0, i => i
  | n + 1, i => if step i = i then i else settle step n (step i)

/-- Is the line after the one on which a part ends blank?  Commas, semicolons and comments behind
the part do not count. -/
def isNextLineEmpty (s : Source) (stop : Int) : Bool :=
  let step (i : Index) : Index :=
    s.skipSpaces (s.skipInlineComment (s.skipToLineEnd i false)) false
  let i := settle step (s.size + 2) (some stop)
  match s.skipNewline (s.skipTrailingComment i) false with
  | some i => s.hasNewline i false
  | none => false

/-- The index of the next character that is neither blank nor part of a comment. -/
def nextCharacterIndex (s : Source) (i : Int) : Index :=
  let step (i : Index) : Index :=
    s.skipNewline (s.skipTrailingComment (s.skipInlineComment (s.skipSpaces i false))) false
  settle step (s.size + 2) (some i)

/-- The next character that is neither blank nor part of a comment. -/
def nextCharacter? (s : Source) (i : Int) : Option Char :=
  match s.nextCharacterIndex i with
  | some i => if i < s.size then s.charAt? i else none
  | none => none

/-- The columns of the indentation of the last line of a text; zero if it has one line only. -/
def indentColumns (value : List Char) (tabWidth : Int) : Int :=
  if value.contains '\n' then
    let line := (value.reverse.takeWhile (· != '\n')).reverse
    (line.takeWhile Text.isBlank).foldl (fun n c => n + if c = '\t' then tabWidth else 1) 0
  else 0

end Reflow.Source
