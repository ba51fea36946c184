import Reflow.Layout.Indentation
import Reflow.Proofs.Doc.Breaks
import Reflow.Proofs.Doc.Leaves

/-!
# Pieces of a document

What a document prints on one line is told by its pieces: its texts, its marks and deferred parts,
and the places at which the line ends if parts are deferred.  Groups, fills and lines do not show in
them, so that the pieces of a document are those of the document without its lines.

## Key results

- `every_isSoft`: the documents that can be flat are those without forced breaks and without a
  choice of shapes
- `pieces_removeLines`: taking out the lines keeps the pieces
- `every_removeLines`: what is left is the same in flat and in broken groups
-/

namespace Reflow

open Layout

namespace Doc

/-- What is printed where nothing is to be decided. -/
inductive Piece where
  | text (s : String)
  | cursor
  /-- The end of a line. -/
  | lineEnd (i : Indentation)
  /-- The end of a line if parts are deferred. -/
  | boundary (i : Indentation)
  | deferred (pieces : List Piece)

/-- The pieces of a text. -/
def textPieces (s : String) : List Piece := if s = "" then [] else [.text s]

mutual
/-- What a document prints if it is flat; of several shapes only the first is looked at. -/
def pieces (i : Indentation) : Doc → List Piece
  | .text s => textPieces s
  | .line kind =>
    match kind with
    | .space => [.text " "]
    | .soft => []
    | .hard | .literal => [.lineEnd i]
  | .breakParent => []
  | .suffixBoundary => [.boundary i]
  | .cursor => [.cursor]
  | .concat parts | .fill parts => piecesAll i parts
  | .indent body => body.pieces i.indent
  | .align amount body => body.pieces (i.align amount)
  | .group body _ => body.pieces i
  | .alternatives first _ _ => first.pieces i
  | .ifBreak _ flat => flat.pieces i
  | .lineSuffix body => [.deferred (body.pieces i)]

/-- The pieces of several documents. -/
def piecesAll (i : Indentation) : List Doc → List Piece
  | [] => []
  | d :: rest => d.pieces i ++ piecesAll i rest
end

/-- Has it no choice of shapes? -/
def hasOneShape : Doc → Bool
  | .alternatives .. => false
  | _ => true

/-- Can it be flat: does it force no break, and has it no choice of shapes? -/
def isSoft : Doc → Bool
  | .line kind => !kind.isHard
  | .group _ broken => !broken
  | .breakParent | .alternatives .. => false
  | _ => true

/-- Can it be flat, and is it the same in flat and in broken groups? -/
def isPlain : Doc → Bool
  | .line _ | .ifBreak .. => false
  | d => d.isSoft

/-! ## Tests on all parts -/

section Every

variable {p q : Doc → Bool} {d e : Doc} {parts : List Doc}

/-- Everything in some parts is everything in each of them. -/
theorem everyAll_iff : everyAll p parts = true ↔ ∀ d ∈ parts, d.every p = true := by
  induction parts with
  | nil => simp [everyAll]
  | cons d parts ih => simp [everyAll, ih]

/-- A document is in itself. -/
theorem every_self (h : d.every p = true) : p d = true := by
  cases d <;> simp_all [every]

/-- What all parts of a document pass, all parts of each of its parts pass. -/
theorem every_child (h : d.every p = true) (he : e ∈ d.children) : e.every p = true := by
  -- each child is one of those that `every` goes through
  cases d <;> simp only [children, List.mem_cons, List.not_mem_nil, or_false] at he <;>
    simp only [every, Bool.and_eq_true] at h
  case concat parts | fill parts => exact every_of_mem h.2 he
  case alternatives first others broken =>
    rcases he with rfl | he
    · exact h.2.1
    · exact every_of_mem h.2.2 he
  case ifBreak broken flat =>
    rcases he with rfl | rfl
    · exact h.2.1
    · exact h.2.2
  all_goals exact he ▸ h.2

/-- Everything in a document is the document and everything in its children. -/
theorem every_of_children (h : p d = true) (hs : ∀ e ∈ d.children, e.every p = true) :
    d.every p = true := by
  cases d <;> simp_all [every, children, everyAll_iff]

/-- Less may be asked of everything. -/
theorem every_mono (hpq : ∀ d, p d = true → q d = true) (h : d.every p = true) :
    d.every q = true := by
  induction d using induction_children with
  | h d ih =>
    exact every_of_children (hpq d (every_self h)) fun e he => ih e he (every_child h he)

end Every

/-- A plain document has no line that always breaks. -/
theorem isSoft_of_isPlain (d : Doc) (h : d.isPlain = true) : d.isSoft = true := by
  unfold isPlain at h
  split at h
  · cases h
  · cases h
  · exact h

/-- No part will break if none of them does. -/
theorem anyWillBreak_eq_false {parts : List Doc} :
    anyWillBreak parts = false ↔ ∀ d ∈ parts, d.willBreak = false := by
  induction parts with
  | nil => simp [anyWillBreak]
  | cons d parts ih => simp [anyWillBreak, ih]

/-- The documents without forced breaks and choices of shapes are those that can be flat. -/
theorem every_isSoft (d : Doc) :
    d.every isSoft = true ↔ d.willBreak = false ∧ d.every hasOneShape = true := by
  -- induction on the document over its children
  induction d using induction_children with
  | h d ih =>
    cases d with
    -- both sides are statements about every part
    | concat parts | fill parts =>
      have hparts : ∀ e ∈ parts, e.every isSoft = true ↔
          e.willBreak = false ∧ e.every hasOneShape = true := ih
      simp only [every, isSoft, hasOneShape, willBreak, Bool.true_and, everyAll_iff,
        anyWillBreak_eq_false]
      constructor
      · exact fun h => ⟨fun e he => ((hparts e he).1 (h e he)).1,
          fun e he => ((hparts e he).1 (h e he)).2⟩
      · exact fun h e he => (hparts e he).2 ⟨h.1 e he, h.2 e he⟩
    | ifBreak broken flat =>
      simp only [children, List.forall_mem_cons] at ih
      simp only [every, isSoft, hasOneShape, willBreak, Bool.true_and, Bool.and_eq_true,
        Bool.or_eq_false_iff, ih.1, ih.2.1]
      exact and_and_and_comm
    | indent body | align _ body | lineSuffix body | group body _ =>
      simp only [children, List.forall_mem_cons] at ih
      simp [every, isSoft, hasOneShape, willBreak, ih.1, and_assoc]
    -- a choice is neither soft nor of one shape
    | alternatives first others broken => simp [every, isSoft, hasOneShape]
    | _ => simp [every, isSoft, hasOneShape, willBreak]

/-! ## Taking out the lines -/

variable {i : Indentation}

/-- An empty document has no pieces. -/
theorem pieces_of_isEmpty {d : Doc} (h : d.isEmpty = true) : d.pieces i = [] := by
  unfold isEmpty at h
  split at h
  · simp_all [pieces, textPieces]
  · simp [pieces, piecesAll]
  · cases h

/-- The pieces of parts come part by part. -/
theorem piecesAll_append (a b : List Doc) :
    piecesAll i (a ++ b) = piecesAll i a ++ piecesAll i b := by
  induction a with
  | nil => rfl
  | cons d a ih => simp [piecesAll, ih]

/-- Empty parts have no pieces. -/
theorem piecesAll_filter (parts : List Doc) :
    piecesAll i (parts.filter fun d => !d.isEmpty) = piecesAll i parts := by
  induction parts with
  | nil => rfl
  | cons d parts ih =>
    by_cases hd : d.isEmpty = true
    · simp [hd, piecesAll, ih, pieces_of_isEmpty hd]
    · simp [hd, piecesAll, ih]

mutual
/-- Taking out the lines keeps the pieces. -/
theorem pieces_removeLines (i : Indentation) (d : Doc) : d.removeLines.pieces i = d.pieces i := by
  -- by recursion on the document, where only a soft line becomes another document
  match d with
  | .text _ | .breakParent | .suffixBoundary | .cursor => rfl
  | .line kind => cases kind <;> rfl
  | .concat parts =>
    have hparts := piecesAll_removeLines i parts
    -- the parts that are empty have no piece either
    simpa [removeLines, mapBottomUp, flatten, cat, pieces, piecesAll_filter] using hparts
  | .fill parts =>
    have hparts := piecesAll_removeLines i parts
    simpa [removeLines, mapBottomUp, flatten, pieces] using hparts
  | .indent body =>
    have hbody := pieces_removeLines i.indent body
    simpa [removeLines, mapBottomUp, flatten, pieces] using hbody
  | .align amount body =>
    have hbody := pieces_removeLines (i.align amount) body
    simpa [removeLines, mapBottomUp, flatten, pieces] using hbody
  | .group body _ =>
    have hbody := pieces_removeLines i body
    simpa [removeLines, mapBottomUp, flatten, pieces] using hbody
  -- of a choice the first shape stays
  | .alternatives first _ _ =>
    have hfirst := pieces_removeLines i first
    simpa [removeLines, mapBottomUp, flatten, pieces] using hfirst
  -- of two branches the flat one stays
  | .ifBreak _ flat =>
    have hflat := pieces_removeLines i flat
    simpa [removeLines, mapBottomUp, flatten, pieces] using hflat
  | .lineSuffix body =>
    have hbody := pieces_removeLines i body
    simpa [removeLines, mapBottomUp, flatten, pieces] using hbody

/-- `pieces_removeLines` for several documents. -/
theorem piecesAll_removeLines (i : Indentation) (parts : List Doc) :
    piecesAll i (mapAll flatten parts) = piecesAll i parts := by
  match parts with
  | [] => rfl
  | d :: rest =>
    have hd := pieces_removeLines i d
    have hrest := piecesAll_removeLines i rest
    rw [mapAll, piecesAll, piecesAll, hrest]
    rw [removeLines] at hd
    rw [hd]
end

/-- The parts are mapped one by one. -/
theorem mapAll_eq (f : Doc → Doc) (parts : List Doc) :
    mapAll f parts = parts.map fun d => d.mapBottomUp f := by
  induction parts with
  | nil => rfl
  | cons d parts ih => simp [mapAll, ih]

/-- Without its lines a document is the same in flat and in broken groups. -/
theorem every_removeLines (d : Doc) (h : d.every isSoft = true) :
    d.removeLines.every isPlain = true := by
  -- induction on the document over its children
  induction d using induction_children with
  | h d ih =>
    have hself := every_self h
    have hparts := fun e (he : e ∈ d.children) => ih e he (every_child h he)
    cases d with
    | concat parts =>
      -- the parts that are kept are parts that were plain before
      have hall : ∀ e ∈ parts, e.removeLines.every isPlain = true := hparts
      simp only [removeLines, mapBottomUp, flatten, cat, every, isPlain, isSoft, Bool.true_and,
        mapAll_eq, everyAll_iff, List.mem_filter, List.mem_map]
      rintro _ ⟨⟨e, he, rfl⟩, -⟩
      exact hall e he
    | fill parts =>
      have hall : ∀ e ∈ parts, e.removeLines.every isPlain = true := hparts
      simp only [removeLines, mapBottomUp, flatten, every, isPlain, isSoft, Bool.true_and,
        mapAll_eq, everyAll_iff, List.mem_map]
      rintro _ ⟨e, he, rfl⟩
      exact hall e he
    | line kind =>
      -- a hard line is not soft, and any other line becomes a text
      cases kind <;>
        simp_all [removeLines, mapBottomUp, flatten, every, isPlain, isSoft, LineKind.isHard]
    | _ => simp_all [removeLines, mapBottomUp, flatten, every, isPlain, isSoft, children]

end Doc

end Reflow
