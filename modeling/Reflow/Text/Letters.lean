import Reflow.Text.CharClass

/-! # Letter case

Upper and lower case of whole texts.  A character may become several, and a capital sigma at the end
of a word becomes the final form `ς`. -/

namespace Reflow.Text

/-- The code points that a code point is mapped to: by the mappings to several, else by the mappings
to one, else to itself. -/
def mapCase (many : List (Nat × List Nat)) (one : List CaseRun) (c : Char) : List Char :=
  match many.lookup c.toNat with
  | some cs => cs.map Char.ofNat
  | none => [((CaseRun.map? one c.toNat).map Char.ofNat).getD c]

/-- The whole text in upper case. -/
def upperChars (s : List Char) : List Char := s.flatMap (mapCase Tables.toUpperMany Tables.toUpper)

/-- Is the nearest character that is not passed over a cased one? -/
def nextToCased (neighbours : List Char) : Bool :=
  match neighbours.dropWhile (fun c => Tables.caseIgnorable.contains c.toNat) with
  | [] => false
  | c :: _ => Tables.cased.contains c.toNat

/-- Lower case of the rest of a text, given what precedes it in reverse order. -/
def lowerFrom : List Char → List Char → List Char
  | _, [] => []
  | before, c :: rest =>
    let image :=
      if c = 'Σ' then [if nextToCased before && !nextToCased rest then 'ς' else 'σ']
      else mapCase Tables.toLowerMany Tables.toLower c
    image ++ lowerFrom (c :: before) rest

/-- The whole text in lower case. -/
def lowerChars (s : List Char) : List Char := lowerFrom [] s

/-- The whole text in upper case. -/
def upper (s : String) : String := String.ofList (upperChars s.toList)

/-- The whole text in lower case. -/
def lower (s : String) : String := String.ofList (lowerChars s.toList)

end Reflow.Text
