import Reflow.Doc.Breaks

/-!
# Leaves of a document

A document offers choices: a part for broken and a part for flat groups, and groups with several
shapes.  A resolution settles them all.  Its leaves are the texts in it, in order; those in deferred
parts are marked.

## Key results

- `Resolves.of_breakGroups`: breaking groups neither adds nor takes leaves
- `Resolves.leaves_eq`: a document without choices has one resolution as far as leaves go
-/

namespace Reflow

namespace Doc

mutual
/-- Do all parts of the document, and the document itself, pass a test? -/
def every (p : Doc → Bool) (d : Doc) : Bool :=
  p d && match d with
    | .text _ | .line _ | .breakParent | .suffixBoundary | .cursor => true
    | .concat parts | .fill parts => everyAll p parts
    | .indent body | .align _ body | .group body _ | .lineSuffix body => body.every p
    | .alternatives first others _ => first.every p && everyAll p others
    | .ifBreak broken flat => broken.every p && flat.every p

/-- Do all parts of the documents pass a test? -/
def everyAll (p : Doc → Bool) : List Doc → Bool
  | [] => true
  | d :: rest => d.every p && everyAll p rest
end

/-- What holds of everything in some parts holds of each of them. -/
theorem every_of_mem {p : Doc → Bool} {parts : List Doc} (h : everyAll p parts = true) {d : Doc}
    (hd : d ∈ parts) : d.every p = true := by
  induction parts with
  | nil => cases hd
  | cons e parts ih =>
    simp only [everyAll, Bool.and_eq_true] at h
    rcases List.mem_cons.1 hd with rfl | hd
    · exact h.1
    · exact ih h.2 hd

/-- Is the document moved by columns, and never by a text? -/
def isColumnAligned : Doc → Bool
  | .align (.text _) _ => false
  | _ => true

/-- Is the document no choice, and not deferred? -/
def isFixed : Doc → Bool
  | .ifBreak .. | .alternatives .. | .lineSuffix _ => false
  | _ => true

mutual
/-- The second document is the first one with every choice settled. -/
inductive Resolves : Doc → Doc → Prop
  | text (s : String) : Resolves (.text s) (.text s)
  | line (kind : LineKind) : Resolves (.line kind) (.line kind)
  | breakParent : Resolves .breakParent .breakParent
  | suffixBoundary : Resolves .suffixBoundary .suffixBoundary
  | cursor : Resolves .cursor .cursor
  | concat {parts rs : List Doc} (h : ResolvesAll parts rs) :
    Resolves (.concat parts) (.concat rs)
  | fill {parts rs : List Doc} (h : ResolvesAll parts rs) : Resolves (.fill parts) (.fill rs)
  | indent {body r : Doc} (h : Resolves body r) : Resolves (.indent body) (.indent r)
  | align (amount : Alignment) {body r : Doc} (h : Resolves body r) :
    Resolves (.align amount body) (.align amount r)
  | group (broken : Bool) {body r : Doc} (h : Resolves body r) :
    Resolves (.group body broken) (.group r broken)
  | lineSuffix {body r : Doc} (h : Resolves body r) : Resolves (.lineSuffix body) (.lineSuffix r)
  /-- One of the shapes of a group. -/
  | shape {first d r : Doc} {others : List Doc} (broken : Bool) (hd : d ∈ first :: others)
    (h : Resolves d r) : Resolves (.alternatives first others broken) r
  | broken {broken r : Doc} (flat : Doc) (h : Resolves broken r) :
    Resolves (.ifBreak broken flat) r
  | flat {flat r : Doc} (broken : Doc) (h : Resolves flat r) : Resolves (.ifBreak broken flat) r

/-- `Resolves` for the documents of two lists. -/
inductive ResolvesAll : List Doc → List Doc → Prop
  | nil : ResolvesAll [] []
  | cons {d r : Doc} {parts rs : List Doc} (h : Resolves d r) (hs : ResolvesAll parts rs) :
    ResolvesAll (d :: parts) (r :: rs)
end

end Doc

/-- A text of a document, and whether it is in a deferred part. -/
structure Leaf where
  text : String
  deferred : Bool
  deriving Repr, DecidableEq

namespace Doc

mutual
/-- The texts of a document in order; `deferred` if it is part of a deferred one. -/
def leaves (deferred : Bool) : Doc → List Leaf
  | .text s => [⟨s, deferred⟩]
  | .line _ | .breakParent | .suffixBoundary | .cursor => []
  | .concat parts | .fill parts => leavesAll deferred parts
  | .indent body | .align _ body | .group body _ => body.leaves deferred
  | .lineSuffix body => body.leaves true
  | .alternatives first others _ => first.leaves deferred ++ leavesAll deferred others
  | .ifBreak broken flat => broken.leaves deferred ++ flat.leaves deferred

/-- The texts of several documents in order. -/
def leavesAll (deferred : Bool) : List Doc → List Leaf
  | [] => []
  | d :: rest => d.leaves deferred ++ leavesAll deferred rest
end

mutual
/-- All texts of a deferred document are deferred. -/
theorem deferred_of_mem_leaves (d : Doc) : ∀ l ∈ d.leaves true, l.deferred = true := by
  -- by recursion on the document, over a list of parts in step with it
  match d with
  | .text s => simp [leaves]
  | .line _ | .breakParent | .suffixBoundary | .cursor => simp [leaves]
  | .concat parts | .fill parts => exact deferred_of_mem_leavesAll parts
  | .indent body | .align _ body | .group body _ | .lineSuffix body =>
    exact deferred_of_mem_leaves body
  -- a leaf of a choice is one of the first shape or of another
  | .alternatives first others _ =>
    have hf := deferred_of_mem_leaves first
    have ho := deferred_of_mem_leavesAll others
    simp only [leaves, List.mem_append]
    rintro l (h | h)
    · exact hf l h
    · exact ho l h
  -- a leaf of both branches is one of either
  | .ifBreak broken flat =>
    have hb := deferred_of_mem_leaves broken
    have hf := deferred_of_mem_leaves flat
    simp only [leaves, List.mem_append]
    rintro l (h | h)
    · exact hb l h
    · exact hf l h

/-- All texts of deferred documents are deferred. -/
theorem deferred_of_mem_leavesAll (parts : List Doc) :
    ∀ l ∈ leavesAll true parts, l.deferred = true := by
  match parts with
  | [] => simp [leavesAll]
  | d :: rest =>
    have hd := deferred_of_mem_leaves d
    have hr := deferred_of_mem_leavesAll rest
    simp only [leavesAll, List.mem_append]
    rintro l (h | h)
    · exact hd l h
    · exact hr l h
end

/-- A resolution of the document has these leaves. -/
def Yields (deferred : Bool) (d : Doc) (ls : List Leaf) : Prop :=
  ∃ r, d.Resolves r ∧ r.leaves deferred = ls

/-- Resolutions of the documents have these leaves together. -/
def YieldsAll (deferred : Bool) (parts : List Doc) (ls : List Leaf) : Prop :=
  ∃ rs, ResolvesAll parts rs ∧ leavesAll deferred rs = ls

section Yields

variable {inside : Bool} {d body first whenBroken whenFlat : Doc} {parts others : List Doc}
  {ls ms : List Leaf}

/-- Of no parts there are no leaves. -/
theorem YieldsAll.nil : YieldsAll inside [] [] := ⟨[], .nil, rfl⟩

/-- The leaves of a first part come first. -/
theorem YieldsAll.cons (h : d.Yields inside ls) (hs : YieldsAll inside parts ms) :
    YieldsAll inside (d :: parts) (ls ++ ms) := by
  obtain ⟨r, hr, rfl⟩ := h
  obtain ⟨rs, hrs, rfl⟩ := hs
  exact ⟨r :: rs, .cons hr hrs, rfl⟩

/-- The leaves of parts are those of the first and those of the others. -/
theorem YieldsAll.of_cons (h : YieldsAll inside (d :: parts) ls) :
    ∃ a b, d.Yields inside a ∧ YieldsAll inside parts b ∧ ls = a ++ b := by
  obtain ⟨_, hrs, rfl⟩ := h
  cases hrs with
  | cons hr hrs => exact ⟨_, _, ⟨_, hr, rfl⟩, ⟨_, hrs, rfl⟩, rfl⟩

/-- A sequence yields what its parts yield. -/
theorem YieldsAll.concat (h : YieldsAll inside parts ls) : (concat parts).Yields inside ls := by
  obtain ⟨rs, hrs, rfl⟩ := h
  exact ⟨.concat rs, .concat hrs, rfl⟩

/-- So does a fill. -/
theorem YieldsAll.fill (h : YieldsAll inside parts ls) : (fill parts).Yields inside ls := by
  obtain ⟨rs, hrs, rfl⟩ := h
  exact ⟨.fill rs, .fill hrs, rfl⟩

/-- The leaves of a fill are those of its parts. -/
theorem YieldsAll.of_fill (h : (Doc.fill parts).Yields inside ls) :
    YieldsAll inside parts ls := by
  obtain ⟨_, hr, rfl⟩ := h
  cases hr with
  | fill hrs => exact ⟨_, hrs, rfl⟩

/-- Indenting changes no leaves. -/
theorem Yields.indent (h : body.Yields inside ls) : (indent body).Yields inside ls := by
  obtain ⟨r, hr, rfl⟩ := h
  exact ⟨.indent r, .indent hr, rfl⟩

/-- Nor does aligning. -/
theorem Yields.align (amount : Alignment) (h : body.Yields inside ls) :
    (align amount body).Yields inside ls := by
  obtain ⟨r, hr, rfl⟩ := h
  exact ⟨.align amount r, .align amount hr, rfl⟩

/-- Nor does grouping. -/
theorem Yields.group (b : Bool) (h : body.Yields inside ls) :
    (group body b).Yields inside ls := by
  obtain ⟨r, hr, rfl⟩ := h
  exact ⟨.group r b, .group b hr, rfl⟩

/-- What is deferred yields deferred leaves. -/
theorem Yields.lineSuffix (h : body.Yields true ls) : (lineSuffix body).Yields inside ls := by
  obtain ⟨r, hr, rfl⟩ := h
  exact ⟨.lineSuffix r, .lineSuffix hr, rfl⟩

/-- Of several shapes, any may be printed. -/
theorem Yields.shape (b : Bool) (hd : d ∈ first :: others) (h : d.Yields inside ls) :
    (alternatives first others b).Yields inside ls := by
  obtain ⟨r, hr, rfl⟩ := h
  exact ⟨r, .shape b hd hr, rfl⟩

/-- So may the document for a group that is broken. -/
theorem Yields.broken (h : whenBroken.Yields inside ls) :
    (ifBreak whenBroken whenFlat).Yields inside ls := by
  obtain ⟨r, hr, rfl⟩ := h
  exact ⟨r, .broken whenFlat hr, rfl⟩

/-- So may the one for a group that is flat. -/
theorem Yields.flat (h : whenFlat.Yields inside ls) :
    (ifBreak whenBroken whenFlat).Yields inside ls := by
  obtain ⟨r, hr, rfl⟩ := h
  exact ⟨r, .flat whenBroken hr, rfl⟩

/-- The leaves of a deferred document are all deferred. -/
theorem Yields.deferred (h : d.Yields true ls) : ∀ l ∈ ls, l.deferred = true := by
  obtain ⟨r, -, rfl⟩ := h
  exact deferred_of_mem_leaves r

end Yields

mutual
/-- Breaking groups neither adds nor takes leaves. -/
theorem Yields.of_spreadBreaks {deep deferred : Bool} (d : Doc) {ls : List Leaf}
    (h : (d.spreadBreaks deep).1.Yields deferred ls) : d.Yields deferred ls := by
  -- by recursion on the document, whose resolved form is built as that of the marked one
  match d with
  | .text _ | .line _ | .suffixBoundary | .cursor | .breakParent => exact h
  | .concat parts =>
    obtain ⟨_, hr, rfl⟩ := h
    cases hr with
    | concat hrs => exact (YieldsAll.of_spreadAll parts ⟨_, hrs, rfl⟩).concat
  | .fill parts =>
    obtain ⟨_, hr, rfl⟩ := h
    cases hr with
    | fill hrs => exact (YieldsAll.of_spreadAll parts ⟨_, hrs, rfl⟩).fill
  | .indent body =>
    obtain ⟨_, hr, rfl⟩ := h
    cases hr with
    | indent hr => exact (Yields.of_spreadBreaks body ⟨_, hr, rfl⟩).indent
  | .align amount body =>
    obtain ⟨_, hr, rfl⟩ := h
    cases hr with
    | align _ hr => exact (Yields.of_spreadBreaks body ⟨_, hr, rfl⟩).align amount
  | .lineSuffix body =>
    obtain ⟨_, hr, rfl⟩ := h
    cases hr with
    | lineSuffix hr => exact (Yields.of_spreadBreaks body ⟨_, hr, rfl⟩).lineSuffix
  | .group body broken =>
    obtain ⟨_, hr, rfl⟩ := h
    cases hr with
    | group _ hr => exact (Yields.of_spreadBreaks body ⟨_, hr, rfl⟩).group broken
  | .alternatives first others broken =>
    -- the shapes of a choice are marked only where the marking goes deep
    rw [spreadBreaks] at h
    split at h
    · obtain ⟨_, hr, rfl⟩ := h
      cases hr with
      -- the shape that was taken is a marked shape, and the shape it was made of is one of the
      -- choice
      | shape _ hd hr =>
        rcases List.mem_cons.1 hd with rfl | hd
        · exact (Yields.of_spreadBreaks first ⟨_, hr, rfl⟩).shape broken List.mem_cons_self
        · obtain ⟨d, hd, hy⟩ := Yields.of_mem_spreadAll others hd ⟨_, hr, rfl⟩
          exact hy.shape broken (List.mem_cons_of_mem _ hd)
    · exact h
  | .ifBreak broken flat =>
    obtain ⟨_, hr, rfl⟩ := h
    cases hr with
    | broken _ hr => exact Yields.broken (Yields.of_spreadBreaks broken ⟨_, hr, rfl⟩)
    | flat _ hr => exact Yields.flat (Yields.of_spreadBreaks flat ⟨_, hr, rfl⟩)

/-- `Yields.of_spreadBreaks` for a sequence. -/
theorem YieldsAll.of_spreadAll {deep deferred : Bool} (parts : List Doc) {ls : List Leaf}
    (h : YieldsAll deferred (spreadAll deep parts).1 ls) : YieldsAll deferred parts ls := by
  match parts with
  | [] => exact h
  | d :: rest =>
    obtain ⟨a, b, ha, hb, rfl⟩ := h.of_cons
    exact YieldsAll.cons (Yields.of_spreadBreaks d ha) (YieldsAll.of_spreadAll rest hb)

/-- `Yields.of_spreadBreaks` for one of several documents. -/
theorem Yields.of_mem_spreadAll {deep deferred : Bool} (parts : List Doc) {e : Doc}
    {ls : List Leaf} (he : e ∈ (spreadAll deep parts).1) (h : e.Yields deferred ls) :
    ∃ d ∈ parts, d.Yields deferred ls := by
  match parts with
  | [] => cases he
  | d :: rest =>
    rcases List.mem_cons.1 he with rfl | he
    · exact ⟨d, List.mem_cons_self, Yields.of_spreadBreaks d h⟩
    · obtain ⟨d', hd', hy⟩ := Yields.of_mem_spreadAll rest he h
      exact ⟨d', List.mem_cons_of_mem _ hd', hy⟩
end

mutual
/-- The leaves of a document without choices are those of each of its resolutions. -/
theorem Resolves.leaves_eq {deferred : Bool} {d r : Doc} (h : d.Resolves r)
    (hd : d.every isFixed = true) : r.leaves deferred = d.leaves deferred := by
  match h with
  | .text _ | .line _ | .breakParent | .suffixBoundary | .cursor => rfl
  | .concat hrs | .fill hrs =>
    simp only [every, isFixed, Bool.true_and] at hd
    exact hrs.leavesAll_eq hd
  | .indent hr | .align _ hr | .group _ hr =>
    simp only [every, isFixed, Bool.true_and] at hd
    exact hr.leaves_eq hd
  | .lineSuffix _ | .shape .. | .broken .. | .flat .. => simp [every, isFixed] at hd

/-- `Resolves.leaves_eq` for a sequence. -/
theorem ResolvesAll.leavesAll_eq {deferred : Bool} {parts rs : List Doc} (h : ResolvesAll parts rs)
    (hd : everyAll isFixed parts = true) : leavesAll deferred rs = leavesAll deferred parts := by
  match h with
  | .nil => rfl
  | .cons hr hrs =>
    simp only [everyAll, Bool.and_eq_true] at hd
    simp only [leavesAll, hr.leaves_eq hd.1, hrs.leavesAll_eq hd.2]
end

mutual
/-- Without deferred parts no leaf is deferred. -/
theorem not_deferred_of_isFixed (d : Doc) (hd : d.every isFixed = true) :
    ∀ l ∈ d.leaves false, l.deferred = false := by
  match d with
  | .text s => simp [leaves]
  | .line _ | .breakParent | .suffixBoundary | .cursor => simp [leaves]
  | .concat parts | .fill parts =>
    simp only [every, isFixed, Bool.true_and] at hd
    exact not_deferred_of_isFixedAll parts hd
  | .indent body | .align _ body | .group body _ =>
    simp only [every, isFixed, Bool.true_and] at hd
    exact not_deferred_of_isFixed body hd
  | .lineSuffix _ | .alternatives .. | .ifBreak .. => simp [every, isFixed] at hd

/-- `not_deferred_of_isFixed` for a sequence. -/
theorem not_deferred_of_isFixedAll (parts : List Doc) (hd : everyAll isFixed parts = true) :
    ∀ l ∈ leavesAll false parts, l.deferred = false := by
  match parts with
  | [] => simp [leavesAll]
  | d :: rest =>
    simp only [everyAll, Bool.and_eq_true] at hd
    have h1 := not_deferred_of_isFixed d hd.1
    have h2 := not_deferred_of_isFixedAll rest hd.2
    simp only [leavesAll, List.mem_append]
    rintro l (h | h)
    · exact h1 l h
    · exact h2 l h
end

section

variable {p : Doc → Bool} {deep : Bool}

mutual
/-- Breaking groups keeps what all parts of a document pass, if the test does not depend on whether
groups are broken. -/
theorem every_spreadBreaks (hp : ∀ d, p (d.spreadBreaks deep).1 = p d) (d : Doc) :
    (d.spreadBreaks deep).1.every p = d.every p := by
  have hself := hp d
  -- by recursion on the document, which the marking leaves as it is in all but its marks
  match d with
  | .text _ | .line _ | .suffixBoundary | .cursor | .breakParent => rfl
  | .concat parts | .fill parts =>
    have hparts := everyAll_spreadAll hp parts
    simp only [spreadBreaks] at hself ⊢
    simp [every, hself, hparts]
  | .indent body | .lineSuffix body | .group body _ | .align _ body =>
    have hbody := every_spreadBreaks hp body
    simp only [spreadBreaks] at hself ⊢
    simp [every, hself, hbody]
  | .alternatives first others broken =>
    have hfirst := every_spreadBreaks hp first
    have hothers := everyAll_spreadAll hp others
    -- where the marking does not go deep a choice stays as it is
    cases deep with
    | false => rfl
    | true =>
      simp only [spreadBreaks, if_true] at hself ⊢
      simp [every, hself, hfirst, hothers]
  | .ifBreak broken flat =>
    have hbroken := every_spreadBreaks hp broken
    have hflat := every_spreadBreaks hp flat
    simp only [spreadBreaks] at hself ⊢
    simp [every, hself, hbroken, hflat]

/-- `every_spreadBreaks` for a sequence. -/
theorem everyAll_spreadAll (hp : ∀ d, p (d.spreadBreaks deep).1 = p d) (parts : List Doc) :
    everyAll p (spreadAll deep parts).1 = everyAll p parts := by
  match parts with
  | [] => rfl
  | d :: rest =>
    have hd := every_spreadBreaks hp d
    have hrest := everyAll_spreadAll hp rest
    simp [spreadAll, everyAll, hd, hrest]
end

end

end Doc

end Reflow
