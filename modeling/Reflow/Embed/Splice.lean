import Reflow.Decimal.Whole
import Reflow.Doc.Basic
import Reflow.Options
import Reflow.Stylesheet.Basic
import Reflow.Text.Trim

/-! # Splicing expressions into a document

An embedded text is formatted with a placeholder for every expression.  The placeholders in the
texts of the resulting document are then replaced by the printed expressions, and each expression
must be used once. -/

namespace Reflow.Embed

/-- How placeholders are spelled: a number between two texts. -/
structure Marker where
  opening : List Char
  closing : List Char
  deriving Repr, DecidableEq

/-- Placeholders in stylesheets. -/
def Marker.css : Marker := ⟨Stylesheet.placeholderStart, Stylesheet.placeholderEnd⟩

/-- Placeholders in HTML. -/
def Marker.html : Marker := ⟨"VXFMT_HTML_PLACEHOLDER_".toList, "_IN_JS".toList⟩

/-- The placeholder of a number. -/
def Marker.write (m : Marker) (n : Nat) : String :=
  String.ofList (m.opening ++ (toString n).toList ++ m.closing)

/-- The digits of a placeholder at the start of a text. -/
def Marker.read? (m : Marker) (cs : List Char) : Option (List Char) := do
  let rest ← Text.dropLeading? m.opening cs
  let digits := rest.takeWhile Text.isDecimal
  let _ ← Text.dropLeading? m.closing (rest.drop digits.length)
  if digits.isEmpty then none else some digits

/-- The length of a placeholder with the given digits. -/
def Marker.length (m : Marker) (digits : List Char) : Nat :=
  m.opening.length + digits.length + m.closing.length

/-- The text before the first placeholder, and the digits of each placeholder with the text behind
it.  `skip` counts the characters of a placeholder that are still to be passed over. -/
def Marker.cut (m : Marker) : Nat → List Char → List Char × List (List Char × List Char)
  | _, [] => ([], [])
  | skip + 1, _ :: rest => m.cut skip rest
  | 0, c :: rest =>
    match m.read? (c :: rest) with
    | some digits =>
      let (text, more) := m.cut (m.length digits - 1) rest
      ([], (digits, text) :: more)
    | none =>
      let (text, more) := m.cut 0 rest
      (c :: text, more)

/-- The digits of the placeholders in a text. -/
def Marker.placeholders (m : Marker) (s : String) : List (List Char) :=
  (m.cut 0 s.toList).2.map (·.1)

/-- A text with its placeholders replaced by expressions in braces behind a dollar sign. -/
def Marker.replace (m : Marker) (expression : Nat → Doc) (s : String) : Doc :=
  let (first, more) := m.cut 0 s.toList
  let hole (digits : List Char) : Doc :=
    .cat ["$\x7b", expression (Text.decimalNumber digits), "\x7d"]
  if more.isEmpty then .text s
  else .cat (.text (String.ofList first)
    :: more.flatMap fun (digits, text) => [hole digits, .text (String.ofList text)])

/-- Which shapes of a group are counted: all of them, or one because all hold the same texts. -/
inductive Shapes where
  | all
  | first
  deriving Repr, DecidableEq

mutual
/-- The texts of a document in order. -/
def textsOf (shapes : Shapes) : Doc → List String
  | .text s => [s]
  | .line _ | .breakParent | .suffixBoundary | .cursor => []
  | .concat parts | .fill parts => textsOfAll shapes parts
  | .indent body | .align _ body | .group body _ | .lineSuffix body => textsOf shapes body
  | .alternatives first others _ =>
    textsOf shapes first ++ if shapes = .all then textsOfAll shapes others else []
  | .ifBreak broken flat => textsOf shapes broken ++ textsOf shapes flat

/-- The texts of a sequence in order. -/
def textsOfAll (shapes : Shapes) : List Doc → List String
  | [] => []
  | d :: rest => textsOf shapes d ++ textsOfAll shapes rest
end

/-- Placeholders that do not match the expressions. -/
structure Mismatch where
  language : Language
  expected : Nat
  actual : Nat
  deriving Repr, DecidableEq

/-- The wording of a mismatch. -/
def Mismatch.message (f : Mismatch) : String :=
  "embedded " ++ f.language.name ++ ": expected " ++ toString f.expected
    ++ " substitution(s), found " ++ toString f.actual ++ " placeholder(s) in formatted output"

/-- Why the expressions cannot be put in their places. -/
inductive SpliceFault where
  | mismatch (found : Mismatch)
  /-- The number of a placeholder cannot be read, or not be reported. -/
  | limit (passed : Limit)
  deriving Repr, DecidableEq

/-- The digits of all placeholders of a document, from its last text to its first. -/
def placeholdersOf (m : Marker) (shapes : Shapes) (d : Doc) : List (List Char) :=
  (textsOf shapes d).reverse.flatMap m.placeholders

/-- The number of a placeholder, which must be below the number of expressions. -/
def placeholderNumber (language : Language) (count : Nat) (digits : List Char) :
    Except SpliceFault Nat := do
  let n ← (Decimal.whole digits).mapError .limit
  if n < count then return n
  if Decimal.isWritable (n + 1) then throw (.mismatch ⟨language, count, n + 1⟩)
  throw (.limit .digits)

/-- Are the numbers the first `n` ones, each once? -/
def isPermutationOfRange (numbers : List Nat) (n : Nat) : Bool :=
  numbers.mergeSort (· ≤ ·) == List.range n

/-- Replaces the placeholders of a document by expressions, each of which must be used once. -/
def splice (m : Marker) (language : Language) (shapes : Shapes) (wrap : Doc → Doc)
    (expressions : List Doc) (d : Doc) : Except SpliceFault Doc := do
  let count := expressions.length
  let numbers ← (placeholdersOf m shapes d).mapM (placeholderNumber language count)
  if isPermutationOfRange numbers count then
    return d.mapTexts (m.replace fun n => wrap (expressions.getD n .empty))
  throw (.mismatch ⟨language, count, numbers.length⟩)

end Reflow.Embed
