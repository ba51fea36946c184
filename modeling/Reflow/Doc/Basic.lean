/-! # Documents

A `Doc` says which texts to print and where lines may break.  The printers build documents bottom-up
and the layout engine (`Reflow.Layout`) turns them into text within a width. -/

namespace Reflow

/-- What a line break prints when its group stays on one line. -/
inductive LineKind where
  /-- A space. -/
  | space
  /-- Nothing. -/
  | soft
  /-- It always breaks. -/
  | hard
  /-- It always breaks, and the next line starts at the margin. -/
  | literal
  deriving Repr, DecidableEq

/-- The lines that always break. -/
def LineKind.isHard : LineKind → Bool
  | .hard | .literal => true
  | .space | .soft => false

/-- How far an aligned part is moved: by columns (a negative number takes one step back) or by a
text that is put in front of each line. -/
inductive Alignment where
  | columns (n : Int)
  | text (s : String)
  deriving Repr, DecidableEq

/-- A document. -/
inductive Doc where
  /-- A text printed as it is. -/
  | text (s : String)
  /-- A place where the line may or must break. -/
  | line (kind : LineKind)
  /-- Breaks every group around it. -/
  | breakParent
  /-- A line break if there are deferred parts to be printed. -/
  | suffixBoundary
  /-- A mark whose position in the output is reported. -/
  | cursor
  | concat (parts : List Doc)
  | indent (body : Doc)
  | align (amount : Alignment) (body : Doc)
  /-- Its lines break all together or not at all. -/
  | group (body : Doc) (broken : Bool)
  /-- A group with several shapes, from the flattest to the most expanded; the first that fits is
  printed. -/
  | alternatives (first : Doc) (others : List Doc) (broken : Bool)
  /-- Contents and separators in turn; as many as fit are put on a line. -/
  | fill (parts : List Doc)
  /-- One of two documents, by whether the group around it is broken. -/
  | ifBreak (broken flat : Doc)
  /-- A part deferred until just before the next line break. -/
  | lineSuffix (body : Doc)
  deriving Repr, Inhabited

namespace Doc

/-- The document that prints nothing. -/
def empty : Doc := .text ""

instance : EmptyCollection Doc := ⟨empty⟩

instance : Coe String Doc := ⟨.text⟩

/-- An empty text or an empty sequence. -/
def isEmpty : Doc → Bool
  | .text s => s == ""
  | .concat [] => true
  | _ => false

/-- A sequence without its empty parts. -/
def cat (parts : List Doc) : Doc := .concat (parts.filter fun d => !d.isEmpty)

/-- A space, or a line break in a broken group. -/
def space : Doc := .line .space

/-- Nothing, or a line break in a broken group. -/
def softline : Doc := .line .soft

/-- A line break that also breaks the groups around it. -/
def hardline : Doc := .concat [.line .hard, .breakParent]

/-- A line break to the margin that also breaks the groups around it. -/
def literalline : Doc := .concat [.line .literal, .breakParent]

/-- A group that is broken only if it has to be. -/
def grouped (body : Doc) : Doc := .group body false

/-- A part moved one step back. -/
def dedent (body : Doc) : Doc := .align (.columns (-1)) body

/-- The parts with a separator between any two. -/
def join (separator : Doc) (parts : List Doc) : Doc := cat (parts.intersperse separator)

mutual
/-- Does the document hold a hard line, a break mark or a broken group?  Of several shapes only the
first is looked at. -/
def willBreak : Doc → Bool
  | .text _ | .suffixBoundary | .cursor => false
  | .line kind => kind.isHard
  | .breakParent => true
  | .concat parts | .fill parts => anyWillBreak parts
  | .indent body | .align _ body | .lineSuffix body => body.willBreak
  | .group body broken => broken || body.willBreak
  | .alternatives first _ broken => broken || first.willBreak
  | .ifBreak broken flat => broken.willBreak || flat.willBreak

/-- Does one of the documents hold a forced break? -/
def anyWillBreak : List Doc → Bool
  | [] => false
  | d :: rest => d.willBreak || anyWillBreak rest
end

mutual
/-- Whether the first leaf that is not an empty text is a line break; `none` if there is no leaf. -/
def firstLeafIsLine? : Doc → Option Bool
  | .text s => if s == "" then none else some false
  | .line _ => some true
  | .breakParent | .suffixBoundary | .cursor => none
  | .concat parts | .fill parts => firstLeafOfAllIsLine? parts
  | .indent body | .align _ body | .lineSuffix body | .group body _ => body.firstLeafIsLine?
  | .alternatives first others _ =>
    match first.firstLeafIsLine? with
    | some b => some b
    | none => firstLeafOfAllIsLine? others
  | .ifBreak broken flat =>
    match broken.firstLeafIsLine? with
    | some b => some b
    | none => flat.firstLeafIsLine?

/-- `firstLeafIsLine?` of a sequence. -/
def firstLeafOfAllIsLine? : List Doc → Option Bool
  | [] => none
  | d :: rest =>
    match d.firstLeafIsLine? with
    | some b => some b
    | none => firstLeafOfAllIsLine? rest
end

/-- Is the first leaf of the document a line break? -/
def isLineNext (d : Doc) : Bool := d.firstLeafIsLine?.getD false

mutual
/-- Rebuilds a document from its leaves up and passes every rebuilt part through `f`. -/
def mapBottomUp (f : Doc → Doc) : Doc → Doc
  | .concat parts => f (cat (mapAll f parts))
  | .fill parts => f (.fill (mapAll f parts))
  | .indent body => f (.indent (body.mapBottomUp f))
  | .align amount body => f (.align amount (body.mapBottomUp f))
  | .lineSuffix body => f (.lineSuffix (body.mapBottomUp f))
  | .group body broken => f (.group (body.mapBottomUp f) broken)
  | .alternatives first others broken =>
    f (.alternatives (first.mapBottomUp f) (mapAll f others) broken)
  | .ifBreak broken flat => f (.ifBreak (broken.mapBottomUp f) (flat.mapBottomUp f))
  | .text s => f (.text s)
  | .line kind => f (.line kind)
  | .breakParent => f .breakParent
  | .suffixBoundary => f .suffixBoundary
  | .cursor => f .cursor

/-- `mapBottomUp` on every document of a list. -/
def mapAll (f : Doc → Doc) : List Doc → List Doc
  | [] => []
  | d :: rest => d.mapBottomUp f :: mapAll f rest
end

/-- Rebuilds a document with every text passed through `f`. -/
def mapTexts (f : String → Doc) : Doc → Doc :=
  mapBottomUp fun d => match d with
    | .text s => f s
    | d => d

/-- The one-line form of a part: lines that can stay flat become their text and choices are settled
for the flat side. -/
def flatten : Doc → Doc
  | .line .space => .text " "
  | .line .soft => .text ""
  | .ifBreak _ flat => flat
  | d => d

/-- The document with every break that is not forced taken out. -/
def removeLines : Doc → Doc := mapBottomUp flatten

/-- A forced line break together with its break mark. -/
def isHardline : Doc → Bool
  | .concat [.line kind, .breakParent] => kind.isHard
  | _ => false

mutual
/-- Drops a forced line break that ends the document, looking into sequences at its end. -/
def stripTrailingHardline : Doc → Doc
  | .concat parts => cat (stripLast parts)
  | d => d

/-- The parts of a sequence without the forced line break that ends it. -/
def stripLast : List Doc → List Doc
  | [] => []
  | [d] => if d.isHardline then [] else [d.stripTrailingHardline]
  | d :: rest => d :: stripLast rest
end

end Doc

end Reflow
