import Reflow.Doc.Basic
import Reflow.Text.Trim

/-! # Children of markup

The children of an element are packed into contents and separators in turn.  Text is cut into words;
white space that shows is kept, and the rest only says where lines may break. -/

namespace Reflow

/-- White space between tags. -/
def isMarkupSpace (c : Char) : Bool := c == ' ' || c == '\n' || c == '\r' || c == '\t'

/-- Does a text between tags show?  It does not if it is white space over several lines. -/
def isMeaningfulText (text : List Char) : Bool :=
  text.any (fun c => !isMarkupSpace c) || !text.contains '\n'

/-- The words of a text between tags. -/
def markupWords (text : List Char) : List (List Char) :=
  (Text.splitAt ' ' (text.map fun c => if isMarkupSpace c then ' ' else c)).filter (!·.isEmpty)

/-- A child of an element: text, or anything else as it is printed.  `unclosed` if it is an element
without a closing tag. -/
inductive MarkupChild where
  | text (raw : List Char)
  | item (doc : Doc) (unclosed : Bool)

namespace MarkupChild

/-- Is it text that shows? -/
def isMeaningful : MarkupChild → Bool
  | .text raw => isMeaningfulText raw
  | .item .. => false

/-- Is it an element without a closing tag? -/
def isUnclosed : MarkupChild → Bool
  | .text _ => false
  | .item _ unclosed => unclosed

end MarkupChild

/-- A content or a separator. -/
inductive ChildPart where
  | empty
  | word (text : List Char)
  | item (doc : Doc)
  /-- White space between two words. -/
  | gap
  | softline
  | hardline
  /-- White space next to a tag. -/
  | whitespace
  deriving Inhabited

namespace ChildPart

/-- A printed child. -/
def ofDoc : Doc → ChildPart
  | .text s => if s == "" then .empty else .item (.text s)
  | d => .item d

/-- The document of a part; `space` is that of white space next to a tag. -/
def doc (space : Doc) : ChildPart → Doc
  | .empty => .empty
  | .word text => .text (String.ofList text)
  | .item d => d
  | .gap => .space
  | .softline => .softline
  | .hardline => .hardline
  | .whitespace => space

/-- Is it the empty part? -/
def isEmpty (x : ChildPart) : Bool := x matches .empty

/-- Is it a forced line break? -/
def isHardline (x : ChildPart) : Bool := x matches .hardline

/-- Is it white space next to a tag? -/
def isWhitespace (x : ChildPart) : Bool := x matches .whitespace

/-- Is it a line break? -/
def isBreak (x : ChildPart) : Bool := x matches .softline | .hardline

/-- Is it nothing, or does it start with a line break? -/
def isTrimmed (space : Doc) (x : ChildPart) : Bool :=
  (x.doc space).isLineNext || (x.doc space).isEmpty

end ChildPart

namespace Children

/-- What a separator depends on besides the white space in its place. -/
structure Surroundings where
  /-- The element translates its text, so that no white space may be added to it. -/
  translated : Bool
  /-- One of the neighbours is an element without a closing tag. -/
  unclosed : Bool

/-- The separator where there is no white space. -/
def tight (s : Surroundings) (word : List Char) : ChildPart :=
  if s.translated then .empty
  else if s.unclosed && word.length != 1 then .hardline
  else .softline

/-- The separator for white space with a line break. -/
def loose (s : Surroundings) (word : List Char) : ChildPart :=
  if !s.translated && !s.unclosed && word.length = 1 then .softline else .hardline

/-- The separator for white space at an end of a text. -/
def atEdge (s : Surroundings) (space word : List Char) : ChildPart :=
  if space.contains '\n' then loose s word else .whitespace

/-- The parts of a text that shows. -/
def ofText (s : Surroundings) (raw : List Char) : List ChildPart :=
  let before := raw.takeWhile isMarkupSpace
  let behind := (raw.reverse.takeWhile isMarkupSpace).reverse
  let words := markupWords raw
  let leading : List ChildPart :=
    if before.isEmpty then [] else [.empty, atEdge s before (words.head?.getD [])]
  match words.getLast? with
  | none => leading
  | some last =>
    let trailing := if behind.isEmpty then tight s last else atEdge s behind last
    leading ++ (words.map ChildPart.word).intersperse .gap ++ [trailing]

/-- The separator behind a child that is not text. -/
def behindItem (translated : Bool) (item : MarkupChild) (next : Option MarkupChild) : ChildPart :=
  match next with
  | some (.text raw) =>
    if isMeaningfulText raw then
      tight ⟨translated, item.isUnclosed⟩ ((markupWords (Text.trimChars raw)).head?.getD [])
    else .hardline
  | _ => .hardline

/-- The contents and separators of all children. -/
def pack (translated : Bool) : List MarkupChild → List ChildPart
  | [] => []
  | .text raw :: rest =>
    let parts :=
      if isMeaningfulText raw then ofText ⟨translated, rest.head?.any (·.isUnclosed)⟩ raw
      else if 1 < raw.count '\n' then [.empty, .hardline]
      else []
    parts ++ pack translated rest
  | .item d unclosed :: rest =>
    [.ofDoc d, behindItem translated (.item d unclosed) rest.head?] ++ pack translated rest

/-- Is the separator `a`, with nothing between it and `c`, superfluous?  `hasText` if there is text
among the children. -/
def isSuperfluous (hasText : Bool) (a c : ChildPart) : Bool :=
  (a.isHardline && c.isHardline && hasText) || (a.isBreak && c.isWhitespace)
    || (a.isWhitespace && c.isWhitespace)
    || (a.isBreak && c.isBreak && a.isHardline != c.isHardline)

/-- Puts a part before cleaned ones.  Two empty parts, or a superfluous separator with the empty
part behind it, are dropped; white space swallows the line break behind it. -/
def cleanBefore (hasText : Bool) (a : ChildPart) : List ChildPart → List ChildPart
  | [] => [a]
  | b :: rest =>
    if !b.isEmpty then a :: b :: rest
    else if a.isEmpty then rest
    else match rest with
      | [] => a :: b :: rest
      | c :: more =>
        if isSuperfluous hasText a c then c :: more
        else if a.isWhitespace && c.isBreak then a :: more
        else a :: b :: c :: more

/-- Drops separators that add nothing to their neighbours. -/
def clean (hasText : Bool) (parts : List ChildPart) : List ChildPart :=
  parts.foldr (cleanBefore hasText) []

/-- Drops pairs of parts from the start as long as neither shows. -/
def trimStart (space : Doc) : List ChildPart → List ChildPart
  | a :: b :: rest =>
    if a.isTrimmed space && b.isTrimmed space then trimStart space rest else a :: b :: rest
  | parts => parts

/-- Drops the parts at the ends that do not show. -/
def trim (space : Doc) (parts : List ChildPart) : List ChildPart :=
  trimStart space (parts.reverse.dropWhile (·.isTrimmed space)).reverse

/-- White space next to a tag, on one line and in a broken element. -/
structure Whitespace where
  /-- Its document where the line decides. -/
  doc : Doc
  /-- Its text where a line break is next to it. -/
  raw : String

/-- The document of the part at an index when the element is broken: white space next to a line
break is written out. -/
def brokenPart (w : Whitespace) (parts : List ChildPart) (i : Nat) (part : ChildPart) : Doc :=
  let isEmptyAt (j : Nat) : Bool := parts[j]?.any (·.isEmpty)
  if !part.isWhitespace then part.doc w.doc
  else if i = 1 && isEmptyAt 0 then
    if parts.length = 2 then .text w.raw else .cat [.text w.raw, .hardline]
  else if i + 1 = parts.length then .text w.raw
  else if 2 ≤ i && isEmptyAt (i - 1) && parts[i - 2]?.any (·.isHardline) then .text w.raw
  else w.doc

/-- The documents of all parts when the element is broken. -/
def broken (w : Whitespace) (parts : List ChildPart) : List Doc :=
  parts.zipIdx.map fun (part, i) => brokenPart w parts i part

/-- Does a part that is not white space written out force a break? -/
def willBreak (parts : List ChildPart) : Bool :=
  parts.any fun
    | .item d => d.willBreak
    | .hardline => true
    | _ => false

end Children

end Reflow
