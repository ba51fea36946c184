import Reflow.Doc.Breaks

/-!
# Breaks escape into the groups around them

When a break escapes from a document is told by `Escapes`, which looks at the document as it is
given.  The sweep of `propagateBreaks` only ever marks the innermost group that it is in; that it
marks the groups out of which a break escapes, and nothing else, is shown by comparing it with the
recursion of `spreadBreaks`: a part of a document, once visited, has left the marks of its groups
behind and its escaping break in the group around it.

## Key results

- `run_visit`: what a sweep has done when it comes to the task behind a document
- `propagateBreaks_eq`: a sweep comes to the same as the recursion
- `spreadBreaks_escapes`: the recursion tells from which documents a break escapes
- `propagateBreaks_exact`: which groups are broken, what stays as it is, and that once is enough
- `breakGroups_of_willBreak`: a document without a forced break stays as it is
-/

namespace Reflow.Doc

/-! ### What is to be shown -/

/-- Has it several shapes? -/
def isChoice : Doc → Bool
  | .alternatives .. => true
  | _ => false

/-- A break escapes from the document: it is a break mark or a broken group, or a break escapes from
one of its parts and it does not decide for itself. -/
inductive Escapes : Doc → Prop
  | breakParent : Escapes .breakParent
  | alternatives {first : Doc} {others : List Doc} : Escapes (.alternatives first others true)
  | group {body : Doc} : Escapes (.group body true)
  | child {d c : Doc} (hd : d.isChoice = false) (hc : c ∈ d.children) (h : Escapes c) : Escapes d

/-- The part of a document at a path, which says which part to go into at each step. -/
def part? (d : Doc) : List Nat → Option Doc
  | [] => some d
  | i :: path => (d.children[i]?).bind (·.part? path)

mutual
/-- The document with no plain group broken: all of it but what tells these apart. -/
def unbroken : Doc → Doc
  | .text s => .text s
  | .line kind => .line kind
  | .suffixBoundary => .suffixBoundary
  | .cursor => .cursor
  | .breakParent => .breakParent
  | .concat parts => .concat (unbrokenAll parts)
  | .fill parts => .fill (unbrokenAll parts)
  | .indent body => .indent body.unbroken
  | .align amount body => .align amount body.unbroken
  | .lineSuffix body => .lineSuffix body.unbroken
  | .group body _ => .group body.unbroken false
  | .alternatives first others broken =>
    .alternatives first.unbroken (unbrokenAll others) broken
  | .ifBreak broken flat => .ifBreak broken.unbroken flat.unbroken

/-- `unbroken` on every document of a list. -/
def unbrokenAll : List Doc → List Doc
  | [] => []
  | d :: rest => d.unbroken :: unbrokenAll rest
end

/-! ### The sweep -/

mutual
/-- Whether the groups of a document are broken, in the order in which a sweep leaves them. -/
def marks : Doc → List Bool
  | .text _ | .line _ | .suffixBoundary | .cursor | .breakParent => []
  | .concat parts | .fill parts => marksAll parts
  | .indent body | .align _ body | .lineSuffix body => body.marks
  | .group body broken => body.marks ++ [broken]
  | .alternatives first others broken => first.marks ++ marksAll others ++ [broken]
  | .ifBreak broken flat => broken.marks ++ flat.marks

/-- `marks` of a sequence. -/
def marksAll : List Doc → List Bool
  | [] => []
  | d :: rest => d.marks ++ marksAll rest
end

@[simp] theorem escapeInto_false (groups : List OpenGroup) : escapeInto false groups = groups := by
  cases groups <;> simp [escapeInto]

@[simp] theorem escapeInto_escapeInto (a b : Bool) (groups : List OpenGroup) :
    escapeInto b (escapeInto a groups) = escapeInto (a || b) groups := by
  cases groups with
  | nil => rfl
  | cons g rest => cases a <;> cases b <;> simp [escapeInto]

/-! ### Working on parts -/

/-- Breaks are spread in each of the parts. -/
theorem spreadAll_eq (deep : Bool) (parts : List Doc) :
    spreadAll deep parts =
      (parts.map fun d => (d.spreadBreaks deep).1, parts.any fun d => (d.spreadBreaks deep).2) := by
  induction parts with
  | nil => rw [spreadAll]; rfl
  | cons d rest ih => rw [spreadAll, ih]; rfl

/-- A part is smaller than the whole. -/
theorem sizeOf_child_lt {d c : Doc} (hc : c ∈ d.children) : sizeOf c < sizeOf d := by
  have hlt := List.sizeOf_lt_of_mem hc
  cases d with
  | concat parts | fill parts =>
    simp only [children] at hlt
    simp only [Doc.concat.sizeOf_spec, Doc.fill.sizeOf_spec]
    omega
  | alternatives first others broken =>
    simp only [children, List.cons.sizeOf_spec] at hlt
    simp only [Doc.alternatives.sizeOf_spec]
    omega
  | _ => simp [children] at hc <;> grind

/-- What holds of a document if it holds of its parts holds of all documents. -/
theorem induction_children {P : Doc → Prop} (h : ∀ d, (∀ c ∈ d.children, P c) → P d) (d : Doc) :
    P d :=
  h d fun c _ => induction_children h c
termination_by sizeOf d
decreasing_by exact sizeOf_child_lt ‹_›

namespace Sweep

/-- A sweep that has left the groups of a document behind, and its break in the group around it. -/
def past (s : Sweep) (marks : List Bool) (escapes : Bool) : Sweep :=
  { s with groups := escapeInto escapes s.groups, marks := marks.reverse ++ s.marks }

/-- A visit opens a group, if it is one, and looks at the parts. -/
theorem run_of_visit (tasks : List SweepTask) (groups : List OpenGroup) (ms : List Bool) (d : Doc) :
    ({ tasks := .visit d :: tasks, groups, marks := ms } : Sweep).run =
      (({ tasks, groups, marks := ms } : Sweep).visit d).run := by
  rw [run]

/-- To leave a group closes it, and hands its break on. -/
theorem run_of_leave (tasks : List SweepTask) (groups : List OpenGroup) (ms : List Bool)
    (g : OpenGroup) :
    ({ tasks := .leave :: tasks, groups := g :: groups, marks := ms } : Sweep).run =
      ({ tasks, groups := escapeInto g.broken groups, marks := g.broken :: ms } : Sweep).run := by
  rw [run]
  rfl

/-- Where a document is visited, its groups are left next, marked as they have to be. -/
def Passes (d : Doc) : Prop :=
  ∀ tasks groups ms, ({ tasks := .visit d :: tasks, groups, marks := ms } : Sweep).run =
    (({ tasks, groups, marks := ms } : Sweep).past (d.spreadBreaks true).1.marks
      (d.spreadBreaks true).2).run

/-- Parts that pass are visited one after the other. -/
theorem run_visits {parts : List Doc} (hparts : ∀ c ∈ parts, Passes c) (tasks : List SweepTask)
    (groups : List OpenGroup) (ms : List Bool) :
    ({ tasks := parts.map .visit ++ tasks, groups, marks := ms } : Sweep).run =
      (({ tasks, groups, marks := ms } : Sweep).past (marksAll (spreadAll true parts).1)
        (spreadAll true parts).2).run := by
  -- induction on the parts, whose marks and open groups are handed on
  induction parts generalizing groups ms with
  | nil => simp [past, spreadAll, marksAll]
  | cons d rest ih =>
    obtain ⟨hd, hrest⟩ := List.forall_mem_cons.1 hparts
    -- the task on top is the first part's, and `hparts` runs it
    rw [List.map_cons, List.cons_append, hd]
    simp only [past]
    rw [ih hrest]
    simp [past, spreadAll, marksAll]

/-- Behind a document, a sweep has left its groups. -/
theorem run_visit (d : Doc) : Passes d := by
  -- the parts are visited one by one, before what stands behind the document
  induction d using induction_children with
  | h d ih =>
    intro tasks groups ms
    rw [run_of_visit]
    cases d with
    | text _ | line _ | suffixBoundary | cursor | breakParent =>
      simp [visit, openGroup?, children, past, spreadBreaks, Doc.marks]
    | group body broken =>
      -- the break of the body reaches this group, and from it the group around it
      have hbody := run_visits ih (.leave :: tasks) (⟨false, broken⟩ :: groups) ms
      simp only [visit, openGroup?]
      rw [hbody, past, escapeInto]
      simp [run_of_leave, children, past, spreadBreaks, spreadAll, Doc.marks, marksAll]
    | alternatives first others broken =>
      -- the breaks of the shapes reach this group without an effect
      have hshapes := run_visits ih (.leave :: tasks) (⟨true, broken⟩ :: groups) ms
      simp only [visit, openGroup?]
      rw [hshapes, past, escapeInto]
      simp [run_of_leave, children, past, spreadBreaks, spreadAll, Doc.marks, marksAll]
    | _ =>
      have hparts := run_visits ih tasks groups ms
      simpa [visit, openGroup?, children, spreadBreaks, spreadAll, Doc.marks, marksAll] using hparts

end Sweep

mutual
/-- The marks of a document put into what it was before give the document. -/
theorem withMarks_spreadBreaks (d : Doc) (rest : List Bool) :
    d.withMarks ((d.spreadBreaks true).1.marks ++ rest) = ((d.spreadBreaks true).1, rest) := by
  match d with
  -- a document with nothing in it has no mark, one mark stands for each group and each choice
  | .text _ | .line _ | .suffixBoundary | .cursor | .breakParent =>
    simp [spreadBreaks, withMarks, Doc.marks]
  | .concat parts | .fill parts =>
    simp [spreadBreaks, withMarks, Doc.marks, withMarksAll_spreadAll parts rest]
  | .indent body | .align _ body | .lineSuffix body =>
    simp [spreadBreaks, withMarks, Doc.marks, withMarks_spreadBreaks body rest]
  | .group body broken =>
    simp [spreadBreaks, withMarks, Doc.marks, withMarks_spreadBreaks body]
  | .alternatives first others broken =>
    simp [spreadBreaks, withMarks, Doc.marks, withMarks_spreadBreaks first,
      withMarksAll_spreadAll others]
  | .ifBreak broken flat =>
    simp [spreadBreaks, withMarks, Doc.marks, withMarks_spreadBreaks broken,
      withMarks_spreadBreaks flat]

/-- `withMarks_spreadBreaks` for a sequence. -/
theorem withMarksAll_spreadAll (parts : List Doc) (rest : List Bool) :
    withMarksAll parts (marksAll (spreadAll true parts).1 ++ rest) =
      ((spreadAll true parts).1, rest) := by
  match parts with
  | [] => simp [spreadAll, withMarksAll, marksAll]
  | d :: more =>
    simp [spreadAll, withMarksAll, marksAll, withMarks_spreadBreaks d,
      withMarksAll_spreadAll more]
end

/-- The sweep over stacks comes to what the recursion comes to. -/
theorem propagateBreaks_eq (d : Doc) : d.propagateBreaks = (d.spreadBreaks true).1 := by
  have hsweep := Sweep.run_visit d [] [] []
  have hend : ∀ groups ms, ({ tasks := [], groups, marks := ms } : Sweep).run.marks = ms := by
    intro groups ms
    rw [Sweep.run]
  have hmarks := withMarks_spreadBreaks d []
  rw [List.append_nil] at hmarks
  rw [propagateBreaks, hsweep, Sweep.past, hend, List.append_nil, List.reverse_reverse, hmarks]

/-! ### The recursion -/

/-- The parts of a document are worked on one by one. -/
theorem children_spreadBreaks (d : Doc) :
    (d.spreadBreaks true).1.children = d.children.map fun c => (c.spreadBreaks true).1 := by
  cases d <;> simp [spreadBreaks, children, spreadAll_eq]

/-- A break escapes from a document that is not a choice and not broken itself if one escapes from a
part. -/
theorem spreadBreaks_snd {d : Doc} (hd : d.isChoice = false)
    (h : d.children.any fun c => (c.spreadBreaks true).2) : (d.spreadBreaks true).2 = true := by
  cases d with
  | alternatives => cases hd
  | group body broken =>
    have hbody : (body.spreadBreaks true).2 = true := by simpa [children] using h
    simp [spreadBreaks, hbody]
  | text _ | line _ | suffixBoundary | cursor | breakParent => simp [children] at h
  | _ => simpa [spreadBreaks, children, spreadAll_eq] using h

/-- A break that escapes is spread. -/
theorem spreadBreaks_of_escapes {d : Doc} (h : d.Escapes) : (d.spreadBreaks true).2 = true := by
  induction h with
  | breakParent => rw [spreadBreaks]
  | alternatives => rw [spreadBreaks]; rfl
  | group => rw [spreadBreaks]; rfl
  | child hd hc _ ih => exact spreadBreaks_snd hd (List.any_eq_true.2 ⟨_, hc, ih⟩)

/-- Only breaks that escape are spread. -/
theorem escapes_of_spreadBreaks {d : Doc} (h : (d.spreadBreaks true).2 = true) : d.Escapes := by
  -- induction on the document over its children
  induction d using induction_children with
  | h d ih =>
    -- a document that is no choice hands up what a child hands up
    have hparts : d.isChoice = false → (d.children.any fun c => (c.spreadBreaks true).2) = true →
        d.Escapes := by
      intro hd hany
      obtain ⟨c, hc, hescapes⟩ := List.any_eq_true.1 hany
      exact .child hd hc (ih c hc hescapes)
    cases d with
    | text _ | line _ | suffixBoundary | cursor => simp [spreadBreaks] at h
    | breakParent => exact .breakParent
    | group body broken =>
      cases broken with
      -- a group that is marked broken hands up a break whatever its body is
      | true => exact .group
      | false => exact hparts rfl (by simpa [spreadBreaks, children] using h)
    -- the shapes of a choice are not asked, only its mark
    | alternatives first others broken =>
      have hbroken : broken = true := by simpa [spreadBreaks] using h
      rw [hbroken]
      exact .alternatives
    | _ => exact hparts rfl (by simpa [spreadBreaks, spreadAll_eq, children] using h)

/-- The recursion tells from which documents a break escapes. -/
theorem spreadBreaks_escapes (d : Doc) : (d.spreadBreaks true).2 = true ↔ d.Escapes :=
  ⟨escapes_of_spreadBreaks, spreadBreaks_of_escapes⟩

/-- What is at a path is worked on as if it stood alone. -/
theorem part?_spreadBreaks (d : Doc) (path : List Nat) :
    (d.spreadBreaks true).1.part? path = (d.part? path).map fun c => (c.spreadBreaks true).1 := by
  induction path generalizing d with
  | nil => rfl
  | cons i path ih =>
    rw [part?, part?, children_spreadBreaks, List.getElem?_map]
    cases d.children[i]? with
    | none => rfl
    | some c => exact ih c

mutual
/-- Only groups change. -/
theorem unbroken_spreadBreaks (d : Doc) : (d.spreadBreaks true).1.unbroken = d.unbroken := by
  match d with
  | .text _ | .line _ | .suffixBoundary | .cursor | .breakParent => simp [spreadBreaks]
  | .concat parts | .fill parts =>
    simp [spreadBreaks, unbroken, unbrokenAll_spreadAll parts]
  | .indent body | .align _ body | .lineSuffix body | .group body _ =>
    simp [spreadBreaks, unbroken, unbroken_spreadBreaks body]
  | .alternatives first others _ =>
    simp [spreadBreaks, unbroken, unbroken_spreadBreaks first, unbrokenAll_spreadAll others]
  | .ifBreak broken flat =>
    simp [spreadBreaks, unbroken, unbroken_spreadBreaks broken, unbroken_spreadBreaks flat]

/-- `unbroken_spreadBreaks` for a sequence. -/
theorem unbrokenAll_spreadAll (parts : List Doc) :
    unbrokenAll (spreadAll true parts).1 = unbrokenAll parts := by
  match parts with
  | [] => simp [spreadAll]
  | d :: rest =>
    simp [spreadAll, unbrokenAll, unbroken_spreadBreaks d, unbrokenAll_spreadAll rest]
end

mutual
/-- A second time changes nothing. -/
theorem spreadBreaks_again (d : Doc) :
    (d.spreadBreaks true).1.spreadBreaks true = d.spreadBreaks true := by
  match d with
  | .text _ | .line _ | .suffixBoundary | .cursor | .breakParent => simp [spreadBreaks]
  | .concat parts | .fill parts => simp [spreadBreaks, spreadAll_again parts]
  | .indent body | .align _ body | .lineSuffix body | .group body _ =>
    simp [spreadBreaks, spreadBreaks_again body]
  | .alternatives first others _ =>
    simp [spreadBreaks, spreadBreaks_again first, spreadAll_again others]
  | .ifBreak broken flat =>
    simp [spreadBreaks, spreadBreaks_again broken, spreadBreaks_again flat]

/-- `spreadBreaks_again` for a sequence. -/
theorem spreadAll_again (parts : List Doc) :
    spreadAll true (spreadAll true parts).1 = spreadAll true parts := by
  match parts with
  | [] => simp [spreadAll]
  | d :: rest => simp [spreadAll, spreadBreaks_again d, spreadAll_again rest]
end

/-! ### What the propagation does -/

/-- Propagation breaks the plain groups out of which a break escaped and no others, wherever they
are; nothing else in the document changes, and it is done once and for all. -/
theorem propagateBreaks_exact (d : Doc) :
    (∀ path body broken, d.part? path = some (.group body broken) →
      ∃ body' broken', d.propagateBreaks.part? path = some (.group body' broken') ∧
        (broken' = true ↔ (Doc.group body broken).Escapes)) ∧
    d.propagateBreaks.unbroken = d.unbroken ∧
    d.propagateBreaks.propagateBreaks = d.propagateBreaks := by
  simp only [propagateBreaks_eq]
  refine ⟨fun path body broken hpart => ?_, unbroken_spreadBreaks d, ?_⟩
  · -- the part at the path is changed to what the part becomes on its own
    have hgroup := part?_spreadBreaks d path
    rw [hpart, Option.map_some, spreadBreaks] at hgroup
    refine ⟨_, _, hgroup, ?_⟩
    have hescapes := spreadBreaks_escapes (.group body broken)
    rwa [spreadBreaks] at hescapes
  · rw [spreadBreaks_again]

/-- The group of a choice's first shape, behind which a line break is forced: the path into it, and
what is there after the propagation. -/
theorem propagateBreaks_exact_choice :
    let inner := Doc.group (.indent hardline) false
    let outer := Doc.group (.concat [.text "a", .alternatives inner [.text "b"] false]) false
    outer.part? [0, 1, 0] = some inner ∧
      ∃ body' broken', outer.propagateBreaks.part? [0, 1, 0] = some (.group body' broken') ∧
        (broken' = true ↔ inner.Escapes) :=
  ⟨rfl, (propagateBreaks_exact _).1 [0, 1, 0] _ _ rfl⟩

/-! ### Without forced breaks -/

mutual
/-- In a document without a forced break there is no group to be broken. -/
theorem spreadBreaks_of_willBreak (d : Doc) (h : d.willBreak = false) :
    d.spreadBreaks false = (d, false) := by
  -- by recursion on the document, of which no part has anything to spread
  match d with
  | .text _ | .line _ | .suffixBoundary | .cursor => rfl
  | .breakParent => simp [willBreak] at h
  | .concat parts | .fill parts =>
    have hparts := spreadAll_of_willBreak parts (by simpa [willBreak] using h)
    simp [spreadBreaks, hparts]
  | .indent body | .align _ body | .lineSuffix body =>
    have hbody := spreadBreaks_of_willBreak body (by simpa [willBreak] using h)
    simp [spreadBreaks, hbody]
  | .group body broken =>
    obtain ⟨rfl, hwill⟩ : broken = false ∧ body.willBreak = false := by simpa [willBreak] using h
    have hbody := spreadBreaks_of_willBreak body hwill
    simp [spreadBreaks, hbody]
  -- without the flag that goes deep the first shape is as far as a choice is read
  | .alternatives first others broken =>
    obtain ⟨rfl, -⟩ : broken = false ∧ first.willBreak = false := by simpa [willBreak] using h
    simp [spreadBreaks]
  | .ifBreak broken flat =>
    obtain ⟨hb, hf⟩ : broken.willBreak = false ∧ flat.willBreak = false := by
      simpa [willBreak] using h
    simp [spreadBreaks, spreadBreaks_of_willBreak broken hb, spreadBreaks_of_willBreak flat hf]

/-- `spreadBreaks_of_willBreak` for a sequence. -/
theorem spreadAll_of_willBreak (parts : List Doc) (h : anyWillBreak parts = false) :
    spreadAll false parts = (parts, false) := by
  match parts with
  | [] => rfl
  | d :: rest =>
    obtain ⟨hd, hrest⟩ : d.willBreak = false ∧ anyWillBreak rest = false := by
      simpa [anyWillBreak] using h
    simp [spreadAll, spreadBreaks_of_willBreak d hd, spreadAll_of_willBreak rest hrest]
end

/-- Without a forced break, breaking groups changes nothing. -/
theorem breakGroups_of_willBreak {d : Doc} (h : d.willBreak = false) : d.breakGroups = d := by
  rw [breakGroups, spreadBreaks_of_willBreak d h]

end Reflow.Doc
