import Reflow.Layout.Command
import Reflow.Text.Columns

/-! # Measuring

Whether a stack of commands fits in the rest of a line: the texts up to the first place where the
line ends must not take more columns than there are. -/

namespace Reflow.Layout

/-- The most expanded of several shapes. -/
def mostExpanded (first : Doc) (others : List Doc) : Doc := others.getLastD first

/-- The last of several shapes weighs no more than all of them. -/
theorem weight_mostExpanded (first : Doc) (others : List Doc) :
    (mostExpanded first others).weight ≤ first.weight + Doc.weightAll others := by
  induction others generalizing first with
  | nil => simp [mostExpanded, Doc.weightAll]
  | cons d rest ih =>
    have := ih d
    simp only [mostExpanded, List.getLastD_cons, Doc.weightAll] at this ⊢
    omega

/-- The shape that is measured: the most expanded one where lines break. -/
def shapeIn (mode : Mode) (first : Doc) (others : List Doc) : Doc :=
  match mode with
  | .broken => mostExpanded first others
  | .flat => first

/-- Nor does the shape that is chosen in a mode. -/
theorem weight_shapeIn (mode : Mode) (first : Doc) (others : List Doc) :
    (shapeIn mode first others).weight ≤ first.weight + Doc.weightAll others := by
  cases mode with
  | broken => exact weight_mostExpanded first others
  | flat => simp [shapeIn]

/-- A measurement under way: the commands still to be measured, the columns left for them, and
whether deferred parts are waiting, so that a boundary ends the line. -/
structure Probe where
  commands : List Command
  width : Int
  hasSuffix : Bool := false

/-- What is known after a step of a measurement. -/
inductive Finding where
  /-- Whether the commands fit. -/
  | known (fits : Bool)
  /-- What is still to be measured. -/
  | more (probe : Probe)

/-- Goes on with other commands. -/
def Probe.goOn (p : Probe) (commands : List Command) : Finding := .more { p with commands }

/-- Measures a command that has been taken from the stack.  With `mustBeFlat` no broken group may be
met. -/
def Probe.step (tabWidth : Int) (mustBeFlat : Bool) (p : Probe) (c : Command) : Finding :=
  match c.doc with
  | .text s =>
    let line := s.toList.takeWhile (· != '\n')
    let left := p.width - Text.charsColumns tabWidth line
    if s.toList.contains '\n' then .known (0 ≤ left) else .more { p with width := left }
  | .concat parts | .fill parts => p.goOn (pushParts c parts p.commands)
  | .indent body =>
    p.goOn ({ c with indentation := c.indentation.indent, doc := body } :: p.commands)
  | .align amount body =>
    p.goOn ({ c with indentation := c.indentation.align amount, doc := body } :: p.commands)
  | .group body broken =>
    if mustBeFlat && broken then .known false
    else p.goOn ({ c with mode := if broken then .broken else c.mode, doc := body } :: p.commands)
  | .alternatives first others broken =>
    if mustBeFlat && broken then .known false
    else
      let mode := if broken then .broken else c.mode
      p.goOn (c.asShape mode (shapeIn mode first others) :: p.commands)
  | .ifBreak broken flat =>
    p.goOn (c.on (if c.mode = .broken then broken else flat) :: p.commands)
  | .line kind =>
    if c.mode = .broken || kind.isHard then .known true
    else .more { p with width := if kind = .soft then p.width else p.width - 1 }
  | .lineSuffix _ => .more { p with hasSuffix := true }
  | .suffixBoundary => if p.hasSuffix then .known true else .more p
  | .breakParent | .cursor => .more p

/-- What is left to be measured weighs less. -/
theorem weightOf_probe_step {tabWidth : Int} {mustBeFlat : Bool} {p q : Probe} {c : Command}
    (h : p.step tabWidth mustBeFlat c = .more q) :
    weightOf q.commands < c.doc.weight + weightOf p.commands := by
  have hw := weight_pos c.doc
  unfold Probe.step at h
  split at h <;> rename_i hd <;> simp only [hd, Doc.weight] at hw ⊢
  · split at h <;> cases h
    simpa using hw
  · rename_i parts
    cases h
    have := weightOf_pushParts c parts p.commands
    simp only
    omega
  · rename_i parts
    cases h
    have := weightOf_pushParts c parts p.commands
    simp only
    omega
  · cases h
    simp only [weightOf_cons]
    omega
  · cases h
    simp only [weightOf_cons]
    omega
  · split at h <;> cases h
    simp only [weightOf_cons]
    omega
  · rename_i first others broken
    split at h <;> cases h
    have := weight_shapeIn (if broken = true then .broken else c.mode) first others
    simp only [weightOf_cons, weight_asShape]
    omega
  · cases h
    simp only [weightOf_cons, Command.on]
    split <;> omega
  · split at h <;> cases h
    simpa using hw
  · cases h
    simp only
    omega
  · split at h <;> cases h
    omega
  · cases h
    omega
  · cases h
    omega

/-- Do the commands fit in the columns that are left, up to the end of the line? -/
def Probe.fits (tabWidth : Int) (mustBeFlat : Bool) (p : Probe) : Bool :=
  if p.width < 0 then false
  else match hc : p.commands with
  | [] => true
  | c :: rest =>
    match h : { p with commands := rest }.step tabWidth mustBeFlat c with
    | .known answer => answer
    | .more q => q.fits tabWidth mustBeFlat
termination_by weightOf p.commands
decreasing_by
  have := weightOf_probe_step h
  simpa [hc] using this

end Reflow.Layout
