import Reflow.Doc.Breaks
import Reflow.Layout.Indentation

/-! # Commands of the layout engine

A command is a document to be printed at an indentation, flat or broken.  `Doc.weight` bounds the
work that a document can cause: printing a command leaves commands of smaller weight behind. -/

namespace Reflow

mutual
/-- A bound on the steps that laying out a document takes.  A boundary may turn into a line, so it
weighs more than one. -/
def Doc.weight : Doc → Nat
  | .text _ | .line _ | .breakParent | .cursor => 1
  | .suffixBoundary => 2
  | .concat parts | .fill parts => 1 + Doc.weightAll parts
  | .indent body | .align _ body | .group body _ | .lineSuffix body => 1 + body.weight
  | .alternatives first others _ => 1 + first.weight + Doc.weightAll others
  | .ifBreak broken flat => 1 + broken.weight + flat.weight

/-- The weight of a sequence: one more than its own for each part. -/
def Doc.weightAll : List Doc → Nat
  | [] => 0
  | d :: rest => 1 + d.weight + Doc.weightAll rest
end

namespace Layout

/-- Whether the lines around a command break. -/
inductive Mode where
  | flat
  | broken
  deriving Repr, DecidableEq, Inhabited

/-- A document to be printed. -/
structure Command where
  indentation : Indentation := {}
  mode : Mode
  doc : Doc
  deriving Inhabited

/-- The same command for another document. -/
def Command.on (c : Command) (d : Doc) : Command := { c with doc := d }

/-- The same command for another document, flat or broken. -/
def Command.as (c : Command) (mode : Mode) (d : Doc) : Command := { c with mode, doc := d }

/-- The same command for a shape of a group; breaks are spread in it only now. -/
def Command.asShape (c : Command) (mode : Mode) (d : Doc) : Command := c.as mode d.breakGroups

/-- The weight of a stack of commands. -/
def weightOf : List Command → Nat
  | [] => 0
  | c :: rest => c.doc.weight + weightOf rest

/-- Puts documents on top of a stack, in the place of a command that is taken from it. -/
def pushParts (c : Command) (parts : List Doc) (rest : List Command) : List Command :=
  parts.map c.on ++ rest

@[simp] theorem weightOf_nil : weightOf [] = 0 := rfl

@[simp] theorem weightOf_cons (c : Command) (rest : List Command) :
    weightOf (c :: rest) = c.doc.weight + weightOf rest := rfl

/-- The weight of commands behind one another is that of both. -/
@[simp] theorem weightOf_append (a b : List Command) :
    weightOf (a ++ b) = weightOf a + weightOf b := by
  induction a with
  | nil => simp
  | cons c a ih => simp [ih]; omega

/-- Their order does not matter for it. -/
@[simp] theorem weightOf_reverse (a : List Command) : weightOf a.reverse = weightOf a := by
  induction a with
  | nil => rfl
  | cons c a ih => simp [ih]; omega

@[simp] theorem doc_as (c : Command) (mode : Mode) (d : Doc) : (c.as mode d).doc = d := rfl

/-- Every document has some weight. -/
theorem weight_pos (d : Doc) : 0 < d.weight := by
  cases d <;> rw [Doc.weight] <;> omega

/-- The parts of a sequence weigh no more than the sequence. -/
theorem weightOf_pushParts (c : Command) (parts : List Doc) (rest : List Command) :
    weightOf (pushParts c parts rest) ≤ Doc.weightAll parts + weightOf rest := by
  induction parts with
  | nil => simp [pushParts, Doc.weightAll]
  | cons d parts ih =>
    simp only [pushParts, List.map_cons, List.cons_append, weightOf_cons, Doc.weightAll,
      Command.on] at ih ⊢
    omega

/-- A part of a sequence weighs less than the sequence. -/
theorem weight_lt_of_mem {d : Doc} {parts : List Doc} (h : d ∈ parts) :
    d.weight < Doc.weightAll parts := by
  induction parts with
  | nil => cases h
  | cons e parts ih =>
    simp only [Doc.weightAll]
    cases h with
    | head => omega
    | tail _ h => have := ih h; omega

mutual
/-- Spreading breaks adds no weight. -/
theorem weight_spreadBreaks (deep : Bool) (d : Doc) :
    (d.spreadBreaks deep).1.weight = d.weight := by
  match d with
  | .text _ | .line _ | .suffixBoundary | .cursor | .breakParent => simp [Doc.spreadBreaks]
  | .concat parts | .fill parts =>
    have := weightAll_spreadAll deep parts
    simp [Doc.spreadBreaks, Doc.weight, this]
  | .indent body | .align _ body | .lineSuffix body | .group body _ =>
    have := weight_spreadBreaks deep body
    simp [Doc.spreadBreaks, Doc.weight, this]
  | .alternatives first others _ =>
    have hf := weight_spreadBreaks deep first
    have ho := weightAll_spreadAll deep others
    rw [Doc.spreadBreaks]
    split
    · simp only [Doc.weight, hf, ho]
    · rfl
  | .ifBreak broken flat =>
    have := weight_spreadBreaks deep broken
    have := weight_spreadBreaks deep flat
    simp [Doc.spreadBreaks, Doc.weight, *]

/-- Spreading breaks in a sequence adds no weight. -/
theorem weightAll_spreadAll (deep : Bool) (parts : List Doc) :
    Doc.weightAll (Doc.spreadAll deep parts).1 = Doc.weightAll parts := by
  match parts with
  | [] => simp [Doc.spreadAll]
  | d :: rest =>
    have := weight_spreadBreaks deep d
    have := weightAll_spreadAll deep rest
    simp [Doc.spreadAll, Doc.weightAll, *]
end

/-- Breaking a document on the way does not change its weight. -/
@[simp] theorem weight_asShape (c : Command) (mode : Mode) (d : Doc) :
    (c.asShape mode d).doc.weight = d.weight := weight_spreadBreaks false d

end Layout

end Reflow
