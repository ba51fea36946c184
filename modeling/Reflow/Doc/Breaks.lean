import Reflow.Doc.Basic

/-! # Propagation of forced breaks

A break mark breaks the groups around it.  A group with several shapes decides for itself: marks
inside it do not reach it and do not pass through it.  So its shapes can be left as they are until
one of them is needed. -/

namespace Reflow.Doc

mutual
/-- The document with every plain group broken out of which a break escapes, and whether a break
escapes from the document.  With `deep` this is done in all shapes of groups too. -/
def spreadBreaks (deep : Bool) : Doc → Doc × Bool
  | .text s => (.text s, false)
  | .line kind => (.line kind, false)
  | .suffixBoundary => (.suffixBoundary, false)
  | .cursor => (.cursor, false)
  | .breakParent => (.breakParent, true)
  | .concat parts =>
    let (parts, escapes) := spreadAll deep parts
    (.concat parts, escapes)
  | .fill parts =>
    let (parts, escapes) := spreadAll deep parts
    (.fill parts, escapes)
  | .indent body =>
    let (body, escapes) := body.spreadBreaks deep
    (.indent body, escapes)
  | .align amount body =>
    let (body, escapes) := body.spreadBreaks deep
    (.align amount body, escapes)
  | .lineSuffix body =>
    let (body, escapes) := body.spreadBreaks deep
    (.lineSuffix body, escapes)
  | .group body broken =>
    let (body, escapes) := body.spreadBreaks deep
    (.group body (broken || escapes), broken || escapes)
  | .alternatives first others broken =>
    if deep then
      (.alternatives (first.spreadBreaks deep).1 (spreadAll deep others).1 broken, broken)
    else (.alternatives first others broken, broken)
  | .ifBreak broken flat =>
    let (broken, escapes) := broken.spreadBreaks deep
    let (flat, escapes') := flat.spreadBreaks deep
    (.ifBreak broken flat, escapes || escapes')

/-- `spreadBreaks` on a sequence. -/
def spreadAll (deep : Bool) : List Doc → List Doc × Bool
  | [] => ([], false)
  | d :: rest =>
    let (d, escapes) := d.spreadBreaks deep
    let (rest, escapes') := spreadAll deep rest
    (d :: rest, escapes || escapes')
end

/-- Breaks every plain group out of which a break escapes, but for those in shapes of other groups. -/
def breakGroups (d : Doc) : Doc := (d.spreadBreaks false).1

/-! ## In all shapes

A sweep through a document goes into all its parts, shapes of groups included.  Documents may be
nested deeply, so it keeps on stacks what is still to be visited and which groups it is in.  A break
reaches only the innermost of these; when the sweep leaves a broken group, that counts as a break in
the group around it. -/

/-- The parts of a document; of a group with several shapes, all of these. -/
def children : Doc → List Doc
  | .concat parts | .fill parts => parts
  | .indent body | .align _ body | .lineSuffix body | .group body _ => [body]
  | .alternatives first others _ => first :: others
  | .ifBreak broken flat => [broken, flat]
  | .text _ | .line _ | .breakParent | .suffixBoundary | .cursor => []

/-- A group that a sweep is in. -/
structure OpenGroup where
  /-- Does it decide for itself whether it is broken, as a group with several shapes does? -/
  chooses : Bool
  broken : Bool
  deriving Repr, DecidableEq

/-- What a sweep has to do. -/
inductive SweepTask where
  /-- To go into a document. -/
  | visit (d : Doc)
  /-- To leave the innermost group. -/
  | leave

/-- A sweep on its way. -/
structure Sweep where
  tasks : List SweepTask
  /-- The groups that it is in, the innermost one first. -/
  groups : List OpenGroup := []
  /-- Whether the groups that it has left are broken, the last one first. -/
  marks : List Bool := []

/-- The group that a sweep is in when it goes into a document. -/
def openGroup? : Doc → Option OpenGroup
  | .group _ broken => some ⟨false, broken⟩
  | .alternatives _ _ broken => some ⟨true, broken⟩
  | _ => none

/-- Lets a break escape into the innermost group, which is broken unless it decides for itself. -/
def escapeInto (escapes : Bool) : List OpenGroup → List OpenGroup
  | [] => []
  | g :: rest => { g with broken := g.broken || (escapes && !g.chooses) } :: rest

namespace Sweep

/-- Goes into a document: its parts are to be visited next. -/
def visit (s : Sweep) (d : Doc) : Sweep :=
  let parts := d.children.map SweepTask.visit
  match d.openGroup? with
  | some g => { s with tasks := parts ++ .leave :: s.tasks, groups := g :: s.groups }
  | none =>
    { s with tasks := parts ++ s.tasks, groups := escapeInto (d matches .breakParent) s.groups }

/-- Leaves the innermost group. -/
def leave (s : Sweep) : Sweep :=
  match s.groups with
  | g :: rest => { s with groups := escapeInto g.broken rest, marks := g.broken :: s.marks }
  | [] => s

/-- A bound on the steps that tasks take. -/
noncomputable def weightOf : List SweepTask → Nat
  | [] => 0
  | .visit d :: rest => 2 * sizeOf d + weightOf rest
  | .leave :: rest => 1 + weightOf rest

/-- The weight of tasks behind one another is that of both. -/
@[simp] theorem weightOf_append (a b : List SweepTask) :
    weightOf (a ++ b) = weightOf a + weightOf b := by
  induction a with
  | nil => simp [weightOf]
  | cons t a ih => cases t <;> simp [weightOf, ih, Nat.add_assoc]

/-- Visits to the parts weigh less than what left the stack for them. -/
theorem weightOf_visits (parts : List Doc) :
    weightOf (parts.map SweepTask.visit) < 2 * sizeOf parts := by
  induction parts with
  | nil => simp [weightOf]
  | cons d parts ih =>
    simp only [List.map_cons, weightOf, List.cons.sizeOf_spec]
    omega

/-- Going into a document leaves less to do. -/
theorem weightOf_visit (s : Sweep) (d : Doc) :
    weightOf (s.visit d).tasks < 2 * sizeOf d + weightOf s.tasks := by
  have hparts := weightOf_visits d.children
  cases d with
  | concat parts | fill parts =>
    simp only [visit, openGroup?, children, weightOf_append, Doc.concat.sizeOf_spec,
      Doc.fill.sizeOf_spec] at hparts ⊢
    omega
  | _ =>
    simp [visit, openGroup?, children, weightOf] at hparts ⊢
    try omega

/-- Carries out all tasks. -/
def run (s : Sweep) : Sweep :=
  match _h : s.tasks with
  | [] => s
  | .visit d :: rest => ({ s with tasks := rest }.visit d).run
  | .leave :: rest => ({ s with tasks := rest }.leave).run
termination_by weightOf s.tasks
decreasing_by
  · have := weightOf_visit { s with tasks := rest } d
    simpa [_h, weightOf] using this
  · have htasks : ({ s with tasks := rest }.leave : Sweep).tasks = rest := by
      unfold leave; split <;> rfl
    simp [_h, weightOf, htasks]

end Sweep

mutual
/-- Puts in whether groups are broken, in the order in which a sweep leaves them.  Gives the marks
that are over as well. -/
def withMarks : Doc → List Bool → Doc × List Bool
  | .text s, marks => (.text s, marks)
  | .line kind, marks => (.line kind, marks)
  | .suffixBoundary, marks => (.suffixBoundary, marks)
  | .cursor, marks => (.cursor, marks)
  | .breakParent, marks => (.breakParent, marks)
  | .concat parts, marks =>
    let (parts, marks) := withMarksAll parts marks
    (.concat parts, marks)
  | .fill parts, marks =>
    let (parts, marks) := withMarksAll parts marks
    (.fill parts, marks)
  | .indent body, marks =>
    let (body, marks) := body.withMarks marks
    (.indent body, marks)
  | .align amount body, marks =>
    let (body, marks) := body.withMarks marks
    (.align amount body, marks)
  | .lineSuffix body, marks =>
    let (body, marks) := body.withMarks marks
    (.lineSuffix body, marks)
  | .group body broken, marks =>
    let (body, marks) := body.withMarks marks
    (.group body (marks.headD broken), marks.tail)
  | .alternatives first others broken, marks =>
    let (first, marks) := first.withMarks marks
    let (others, marks) := withMarksAll others marks
    (.alternatives first others (marks.headD broken), marks.tail)
  | .ifBreak broken flat, marks =>
    let (broken, marks) := broken.withMarks marks
    let (flat, marks) := flat.withMarks marks
    (.ifBreak broken flat, marks)

/-- `withMarks` on a sequence. -/
def withMarksAll : List Doc → List Bool → List Doc × List Bool
  | [], marks => ([], marks)
  | d :: rest, marks =>
    let (d, marks) := d.withMarks marks
    let (rest, marks) := withMarksAll rest marks
    (d :: rest, marks)
end

/-- Breaks every plain group out of which a break escapes, also in shapes of other groups. -/
def propagateBreaks (d : Doc) : Doc :=
  (d.withMarks ({ tasks := [.visit d] } : Sweep).run.marks.reverse).1

end Reflow.Doc
