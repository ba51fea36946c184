import Reflow.Layout.Render
import Reflow.Limit

/-! # Limits of a layout

Rendering works out the margin of every indentation that it comes to, when it prints and when it
measures.  A margin may ask for more spaces than a text can hold.  `firstLimit?` finds the first
one that does, and `renderWithin` renders a document only if there is none. -/

namespace Reflow.Layout

/-- One more than the greatest length of a text. -/
def lengthBound : Nat := Nat.pow 2 63

/-- The greatest number of spaces in a row that fit in memory. -/
def maxSpaces : Nat := Nat.pow 2 36

/-- The limit that a number of spaces passes.  A number below zero stands for no spaces, but has to
be in range too. -/
def spacesLimit? (n : Int) : Option Limit :=
  if n < -lengthBound || (lengthBound : Int) ≤ n then some .length
  else if (maxSpaces : Int) < n then some .memory
  else none

/-- The numbers of spaces for alignment that is written because another step follows. -/
def Pending.spaceRuns (settings : Settings) (p : Pending) : List Int :=
  if p.isTabs settings then [] else [p.columns]

/-- The numbers of spaces that steps write, from the first step on, behind pending alignment. -/
def spaceRuns (settings : Settings) (pending : Pending) : List IndentStep → List Int
  | [] => [pending.columns]
  | .columns n :: rest => spaceRuns settings (pending.add n) rest
  | .text _ :: rest => pending.spaceRuns settings ++ spaceRuns settings {} rest
  | .unit :: rest =>
    let unit := if settings.useTabs then [] else [settings.tabWidth]
    pending.spaceRuns settings ++ unit ++ spaceRuns settings {} rest

/-- The limit that the margin of an indentation passes. -/
def Indentation.limit? (settings : Settings) (i : Indentation) : Option Limit :=
  (spaceRuns settings {} i.steps.reverse).findSome? spacesLimit?

/-- The limit that the indentation passes to which a command leads. -/
def Command.limit? (settings : Settings) (c : Command) : Option Limit :=
  match c.doc with
  | .indent _ => c.indentation.indent.limit? settings
  | .align amount _ => (c.indentation.align amount).limit? settings
  | _ => none

/-- The first limit that is passed in a measurement. -/
def Probe.limit? (settings : Settings) (mustBeFlat : Bool) (p : Probe) : Option Limit :=
  if p.width < 0 then none
  else match hc : p.commands with
  | [] => none
  | c :: rest =>
    match c.limit? settings with
    | some limit => some limit
    | none =>
      match h : { p with commands := rest }.step settings.tabWidth mustBeFlat c with
      | .known _ => none
      | .more q => q.limit? settings mustBeFlat
termination_by weightOf p.commands
decreasing_by
  have := weightOf_probe_step h
  simpa [hc] using this

/-- The first limit that is passed when commands are measured one after the other, up to the first
that fits. -/
def State.choiceLimit? (settings : Settings) (s : State) : List Command → Option Limit
  | [] => none
  | c :: rest =>
    match (s.probe settings c).limit? settings false with
    | some limit => some limit
    | none => if s.fitsNext settings c then none else s.choiceLimit? settings rest

/-- The first limit that is passed when the parts of a fill are measured. -/
def fillLimit? (settings : Settings) (column : Int) (c : Command) (parts : List Doc) :
    Option Limit :=
  let limitOf (ds : List Doc) : Option Limit :=
    (fillProbe settings column c ds).limit? settings true
  match parts with
  | [] => none
  | content :: separator :: next :: _ => limitOf [content] <|> limitOf [content, separator, next]
  | content :: _ => limitOf [content]

/-- The first limit that is passed by a step. -/
def State.stepLimit? (settings : Settings) (s : State) (c : Command) : Option Limit :=
  match c.doc with
  | .group body broken =>
    if s.isSettled c || broken then none else s.choiceLimit? settings [c.as .flat body]
  | .alternatives first others broken =>
    if s.isSettled c || broken then none
    else s.choiceLimit? settings ((first :: others).map (c.asShape .flat))
  | .fill parts => fillLimit? settings s.column c parts
  | _ => c.limit? settings

/-- The first limit that is passed when all commands are carried out. -/
def State.limit? (settings : Settings) (s : State) : Option Limit :=
  match hc : s.commands with
  | c :: rest =>
    match { s with commands := rest }.stepLimit? settings c with
    | some limit => some limit
    | none => ({ s with commands := rest }.step settings c).limit? settings
  | [] =>
    if hs : s.suffixes.isEmpty then none
    else ({ s with commands := s.suffixes.reverse, suffixes := [] } : State).limit? settings
termination_by s.measure
decreasing_by
  · have := measure_step settings { s with commands := rest } c
    simp only [State.measure, hc, weightOf_cons] at this ⊢
    omega
  · simp [State.measure, hc, hs]

/-- The first limit that is passed when a document is rendered. -/
def firstLimit? (settings : Settings) (d : Doc) : Option Limit := (State.start d).limit? settings

/-- The text of a document and the offset of its first cursor mark, unless a margin passes a
limit. -/
def renderWithin (settings : Settings) (d : Doc) : Except Limit Rendered :=
  match firstLimit? settings d with
  | some limit => .error limit
  | none => .ok (renderWithCursor settings d)

end Reflow.Layout
