import Reflow.Layout.Fits

/-! # Rendering

The layout engine prints a stack of commands from the top.  A group is printed flat if it fits up to
the end of the line and broken otherwise; deferred parts wait until the line ends.

`State.step` carries out one command and `State.run` all of them.  `State.measure` goes down with
every step, so rendering is a total function. -/

namespace Reflow.Layout

/-- A piece of output. -/
inductive Chunk where
  | text (s : String)
  /-- The position of a cursor mark. -/
  | cursor
  deriving Repr, DecidableEq

/-- The state of the engine. -/
structure State where
  /-- The commands to be carried out, the next one first. -/
  commands : List Command
  /-- The column at which the next text goes. -/
  column : Int := 0
  /-- The output, the last piece first. -/
  output : List Chunk := []
  /-- A forced break in a flat group: the next group has to be measured again. -/
  remeasure : Bool := false
  /-- The deferred parts, the last one first. -/
  suffixes : List Command := []

/-- Drops spaces and tabs at the end of the output, up to a cursor mark. -/
def trimOutput : List Chunk → List Chunk
  | .text s :: rest =>
    let kept := Text.dropEndWhile Text.isBlank s.toList
    if kept.isEmpty then trimOutput rest else .text (String.ofList kept) :: rest
  | output => output

/-- The column after a text printed at a column. -/
def columnAfter (tabWidth column : Int) (s : String) : Int :=
  let last := s.toList.reverse.takeWhile (· != '\n')
  let columns := Text.charsColumns tabWidth last.reverse
  if s.toList.contains '\n' then columns else column + columns

/-- The measurement of a command on the line, followed by the commands below it. -/
def State.probe (settings : Settings) (s : State) (c : Command) : Probe :=
  { commands := c :: s.commands, width := settings.width - s.column,
    hasSuffix := !s.suffixes.isEmpty }

/-- Does a command fit on the line, followed by the commands below it? -/
def State.fitsNext (settings : Settings) (s : State) (c : Command) : Bool :=
  (s.probe settings c).fits settings.tabWidth false

/-- The measurement of parts of a fill on the line, without what follows them. -/
def fillProbe (settings : Settings) (column : Int) (c : Command) (parts : List Doc) : Probe :=
  { commands := parts.map (c.as .flat), width := settings.width - column }

/-- The commands that print a fill: contents and separators are flat if they fit and broken
otherwise, and a separator is broken if the content after it does not fit on the line. -/
def fillCommands (settings : Settings) (column : Int) (c : Command) (parts : List Doc) :
    List Command :=
  let fitFlat (ds : List Doc) : Bool :=
    (fillProbe settings column c ds).fits settings.tabWidth true
  match parts with
  | [] => []
  | [content] => [c.as (if fitFlat [content] then .flat else .broken) content]
  | [content, separator] =>
    let mode := if fitFlat [content] then .flat else .broken
    [c.as mode content, c.as mode separator]
  | content :: separator :: next :: rest =>
    let contentMode := if fitFlat [content] then .flat else .broken
    if fitFlat [content, separator, next] then
      [c.as .flat content, c.as .flat separator, c.on (.fill (next :: rest))]
    else [c.as contentMode content, c.as .broken separator, c.on (.fill (next :: rest))]

/-- Is a group at a command laid out without being measured, because what is around it is flat? -/
def State.isSettled (s : State) (c : Command) : Bool := c.mode = .flat && !s.remeasure

/-- The command that a group becomes. -/
def groupCommand (settings : Settings) (s : State) (c : Command) (body : Doc) (broken : Bool) :
    Command :=
  if s.isSettled c then c.as (if broken then .broken else .flat) body
  else if !broken && s.fitsNext settings (c.as .flat body) then c.as .flat body
  else c.as .broken body

/-- The command that a group with several shapes becomes. -/
def alternativesCommand (settings : Settings) (s : State) (c : Command) (first : Doc)
    (others : List Doc) (broken : Bool) : Command :=
  if s.isSettled c then c.asShape (if broken then .broken else .flat) first
  else if broken then c.asShape .broken (mostExpanded first others)
  else if s.fitsNext settings (c.asShape .flat first) then c.asShape .flat first
  else match others.find? fun d => s.fitsNext settings (c.asShape .flat d) with
    | some d => c.asShape .flat d
    | none => c.asShape .broken (mostExpanded first others)

/-- Ends the line: deferred parts are printed first, and then the line is tried again. -/
def State.breakLine (settings : Settings) (s : State) (c : Command) (kind : LineKind) : State :=
  let s := if c.mode = .flat then { s with remeasure := true } else s
  if s.suffixes.isEmpty then
    if kind = .literal then { s with output := .text "\n" :: s.output, column := 0 }
    else
      let margin := c.indentation.margin settings
      { s with
        output := .text ("\n" ++ margin.text) :: trimOutput s.output
        column := margin.columns }
  else { s with commands := s.suffixes.reverse ++ c :: s.commands, suffixes := [] }

/-- Carries out a command that has been taken from the stack. -/
def State.step (settings : Settings) (s : State) (c : Command) : State :=
  match c.doc with
  | .text t =>
    { s with
      output := .text t :: s.output, column := columnAfter settings.tabWidth s.column t }
  | .cursor => { s with output := .cursor :: s.output }
  | .concat parts => { s with commands := pushParts c parts s.commands }
  | .indent body =>
    let deeper := { c with indentation := c.indentation.indent, doc := body }
    { s with commands := deeper :: s.commands }
  | .align amount body =>
    let moved := { c with indentation := c.indentation.align amount, doc := body }
    { s with commands := moved :: s.commands }
  | .group body broken =>
    { s with commands := groupCommand settings s c body broken :: s.commands, remeasure := false }
  | .alternatives first others broken =>
    { s with
      commands := alternativesCommand settings s c first others broken :: s.commands
      remeasure := false }
  | .fill parts => { s with commands := fillCommands settings s.column c parts ++ s.commands }
  | .ifBreak broken flat =>
    { s with commands := c.on (if c.mode = .broken then broken else flat) :: s.commands }
  | .lineSuffix body => { s with suffixes := c.on body :: s.suffixes }
  | .suffixBoundary =>
    if s.suffixes.isEmpty then s else { s with commands := c.on (.line .hard) :: s.commands }
  | .line kind =>
    if c.mode = .flat && !kind.isHard then
      if kind = .soft then s
      else { s with output := .text " " :: s.output, column := s.column + 1 }
    else s.breakLine settings c kind
  | .breakParent => s

/-- Twice the weight of all commands, and one more if parts are deferred. -/
def State.measure (s : State) : Nat :=
  2 * (weightOf s.commands + weightOf s.suffixes) + if s.suffixes.isEmpty then 0 else 1

/-- A group goes on the stack with the weight of what is in it. -/
theorem weight_groupCommand (settings : Settings) (s : State) (c : Command) (body : Doc)
    (broken : Bool) : (groupCommand settings s c body broken).doc.weight = body.weight := by
  simp only [groupCommand]
  repeat' split
  all_goals rfl

/-- Alternatives go there with no more than the weight of all of them. -/
theorem weight_alternativesCommand (settings : Settings) (s : State) (c : Command) (first : Doc)
    (others : List Doc) (broken : Bool) :
    (alternativesCommand settings s c first others broken).doc.weight
      ≤ first.weight + Doc.weightAll others := by
  have hm := weight_mostExpanded first others
  simp only [alternativesCommand]
  split
  · simp
  split
  · simpa using hm
  split
  · simp
  split
  · rename_i d h
    have := weight_lt_of_mem (List.mem_of_find?_eq_some h)
    simp only [weight_asShape]
    omega
  · simpa using hm

/-- What is put on the stack for a fill weighs no more than its parts. -/
theorem weightOf_fillCommands (settings : Settings) (column : Int) (c : Command)
    (parts : List Doc) : weightOf (fillCommands settings column c parts) ≤ Doc.weightAll parts := by
  unfold fillCommands
  match parts with
  | [] => simp [Doc.weightAll]
  | [d] => simp [Doc.weightAll]
  | [d, e] => simp [Doc.weightAll]; omega
  | d :: e :: f :: rest =>
    simp only [Doc.weightAll]
    split <;> simp [Doc.weight, Doc.weightAll, Command.on] <;> omega

/-- Breaking a line either ends it, or puts the deferred parts in front of it. -/
theorem measure_breakLine (settings : Settings) (s : State) (c : Command) (kind : LineKind) :
    (s.breakLine settings c kind).measure < s.measure + 2 * c.doc.weight := by
  have hw := weight_pos c.doc
  unfold State.breakLine
  by_cases hs : s.suffixes.isEmpty
  · by_cases hf : c.mode = .flat <;> by_cases hk : kind = .literal <;>
      simp [hf, hs, hk, State.measure] <;> omega
  · by_cases hf : c.mode = .flat <;> simp [hf, hs, State.measure] <;> omega

/-- Every step brings the end nearer. -/
theorem measure_step (settings : Settings) (s : State) (c : Command) :
    (s.step settings c).measure < s.measure + 2 * c.doc.weight := by
  have hw := weight_pos c.doc
  unfold State.step
  split <;> rename_i h <;> simp only [h, Doc.weight] at hw ⊢
  · simp [State.measure]
  · simp [State.measure]
  · rename_i parts
    have := weightOf_pushParts c parts s.commands
    simp only [State.measure]; omega
  · simp only [State.measure, weightOf_cons]; omega
  · simp only [State.measure, weightOf_cons]; omega
  · simp only [State.measure, weightOf_cons, weight_groupCommand]; omega
  · rename_i first others broken
    have := weight_alternativesCommand settings s c first others broken
    simp only [State.measure, weightOf_cons]; omega
  · rename_i parts
    have := weightOf_fillCommands settings s.column c parts
    simp only [State.measure, weightOf_append]; omega
  · simp only [State.measure, weightOf_cons, Command.on]
    split <;> omega
  · simp only [State.measure, weightOf_cons, Command.on, List.isEmpty_cons]
    split <;> simp <;> omega
  · split
    · omega
    · simp only [State.measure, weightOf_cons, Command.on, Doc.weight]; omega
  · rename_i kind
    split
    · split <;> simp [State.measure]
    · have := measure_breakLine settings s c kind
      simpa [h, Doc.weight] using this
  · omega

/-- Carries out all commands, and then the parts that are still deferred. -/
def State.run (settings : Settings) (s : State) : State :=
  match hc : s.commands with
  | c :: rest => ({ s with commands := rest }.step settings c).run settings
  | [] =>
    if hs : s.suffixes.isEmpty then s
    else ({ s with commands := s.suffixes.reverse, suffixes := [] } : State).run settings
termination_by s.measure
decreasing_by
  · have := measure_step settings { s with commands := rest } c
    simp only [State.measure, hc, weightOf_cons] at this ⊢
    omega
  · simp [State.measure, hc, hs]

/-- The text of the output. -/
def outputText : List Chunk → String
  | [] => ""
  | .text s :: rest => s ++ outputText rest
  | .cursor :: rest => outputText rest

/-- The offset of the first cursor mark in the output. -/
def cursorOffset? (offset : Nat) : List Chunk → Option Nat
  | [] => none
  | .text s :: rest => cursorOffset? (offset + s.length) rest
  | .cursor :: _ => some offset

/-- A text, and the offset in it of a cursor mark. -/
structure Rendered where
  text : String
  cursor : Option Nat
  deriving Repr, DecidableEq

/-- The state in which a document is to be rendered. -/
def State.start (d : Doc) : State := { commands := [{ mode := .broken, doc := d.breakGroups }] }

/-- The output of a document. -/
def chunks (settings : Settings) (d : Doc) : List Chunk :=
  ((State.start d).run settings).output.reverse

/-- The text of a document and the offset of its first cursor mark. -/
def renderWithCursor (settings : Settings) (d : Doc) : Rendered :=
  let output := chunks settings d
  { text := outputText output, cursor := cursorOffset? 0 output }

/-- The text of a document. -/
def render (settings : Settings) (d : Doc) : String := (renderWithCursor settings d).text

end Reflow.Layout
