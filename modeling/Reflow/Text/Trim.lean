import Reflow.Text.CharClass

/-! # Trimming and cutting

Removal of characters at the ends of a text, and the cuts of a text into lines. -/

namespace Reflow.Text

/-- Drops the longest tail whose characters all satisfy `p`. -/
def dropEndWhile (p : Char → Bool) (s : List Char) : List Char := (s.reverse.dropWhile p).reverse

/-- Drops matching characters from both ends. -/
def trimBy (p : Char → Bool) (s : List Char) : List Char := dropEndWhile p (s.dropWhile p)

/-- Drops white space from both ends. -/
def trimChars (s : List Char) : List Char := trimBy isSpace s

/-- Drops white space from both ends. -/
def trim (s : String) : String := String.ofList (trimChars s.toList)

/-- Drops white space from the start. -/
def trimStart (s : String) : String := String.ofList (s.toList.dropWhile isSpace)

/-- Drops white space from the end. -/
def trimEnd (s : String) : String := String.ofList (dropEndWhile isSpace s.toList)

/-- A space or a tab. -/
def isBlank (c : Char) : Bool := c == ' ' || c == '\t'

/-- Cuts a list of characters at every separator; the pieces hold none and there is always one. -/
def splitAt (separator : Char) : List Char → List (List Char)
  | [] => [[]]
  | c :: rest =>
    if c = separator then [] :: splitAt separator rest
    else match splitAt separator rest with
      | [] => [[c]]
      | piece :: pieces => (c :: piece) :: pieces

/-- The line-feed separated lines of a text. -/
def linesOf (s : String) : List String := (splitAt '\n' s.toList).map String.ofList

/-- Does the text start with the given characters?  Gives what follows them. -/
def dropLeading? : List Char → List Char → Option (List Char)
  | [], s => some s
  | _ :: _, [] => none
  | p :: ps, c :: cs => if p = c then dropLeading? ps cs else none

/-- Does the text start with the given characters? -/
def startsWith (s start : List Char) : Bool := (dropLeading? start s).isSome

/-- Replaces every occurrence of a non-empty pattern, from the left and without overlaps.  `skip`
counts the characters of an occurrence that are still to be passed over. -/
def replaceFrom (pattern image : List Char) : Nat → List Char → List Char
  | _, [] => []
  | skip + 1, _ :: rest => replaceFrom pattern image skip rest
  | 0, c :: rest =>
    if startsWith (c :: rest) pattern then image ++ replaceFrom pattern image (pattern.length - 1) rest
    else c :: replaceFrom pattern image 0 rest

/-- Replaces every occurrence of a non-empty pattern, from the left and without overlaps. -/
def replaceAll (s pattern image : String) : String :=
  String.ofList (replaceFrom pattern.toList image.toList 0 s.toList)

/-- The text repeated. -/
def repeated (n : Nat) (s : String) : String := String.join (List.replicate n s)

end Reflow.Text
