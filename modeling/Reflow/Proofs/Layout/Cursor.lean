import Reflow.Layout.Limit
import Reflow.Proofs.Doc.Breaks
import Reflow.Proofs.Doc.Pieces
import Reflow.Proofs.Layout.Order
import Reflow.Proofs.Text.Order

/-!
# Cursor marks and the layout

A document with marks is laid out beside the same document with an empty text in the place of every
mark.  Step by step the two have the same commands, the same column and the same deferred parts, and
every measurement comes out the same, since neither a mark nor an empty text takes any room.

What differs is the end of a line: blanks are dropped only up to a mark, and an empty text does not
stop that.  So the text of the document with marks is the other text with blanks put in front of
some line feeds, and the two are the same if and only if no line ends in blanks with a mark behind
them.

## Key results

- `fits_unmarked`: a measurement comes out the same
- `step_unmarked`, `run_unmarked`: a step, and a run, keep the two in step
- `render_unmarked`: what marks do to a text
-/

namespace Reflow

namespace Doc

mutual
/-- The document with an empty text in the place of every mark. -/
def unmarked : Doc → Doc
  | .cursor => .text ""
  | .text s => .text s
  | .line kind => .line kind
  | .suffixBoundary => .suffixBoundary
  | .breakParent => .breakParent
  | .concat parts => .concat (unmarkedAll parts)
  | .fill parts => .fill (unmarkedAll parts)
  | .indent body => .indent body.unmarked
  | .align amount body => .align amount body.unmarked
  | .lineSuffix body => .lineSuffix body.unmarked
  | .group body broken => .group body.unmarked broken
  | .alternatives first others broken =>
    .alternatives first.unmarked (unmarkedAll others) broken
  | .ifBreak broken flat => .ifBreak broken.unmarked flat.unmarked

/-- `unmarked` on every document of a list. -/
def unmarkedAll : List Doc → List Doc
  | [] => []
  | d :: rest => d.unmarked :: unmarkedAll rest
end

/-- Marks are taken off each of the parts. -/
theorem unmarkedAll_eq (parts : List Doc) : unmarkedAll parts = parts.map unmarked := by
  induction parts with
  | nil => rfl
  | cons d rest ih => rw [unmarkedAll, ih]; rfl

/-- The same breaks escape without the marks. -/
theorem spreadBreaks_unmarked (deep : Bool) (d : Doc) :
    d.unmarked.spreadBreaks deep =
      ((d.spreadBreaks deep).1.unmarked, (d.spreadBreaks deep).2) := by
  -- the same for a list of parts, where it holds for each of them
  have hall : ∀ parts : List Doc, (∀ e ∈ parts, e.unmarked.spreadBreaks deep =
      ((e.spreadBreaks deep).1.unmarked, (e.spreadBreaks deep).2)) →
      spreadAll deep (unmarkedAll parts) =
        (unmarkedAll (spreadAll deep parts).1, (spreadAll deep parts).2) := by
    intro parts hparts
    induction parts with
    | nil => rfl
    | cons e rest ih =>
      obtain ⟨he, hrest⟩ := List.forall_mem_cons.1 hparts
      simp [unmarkedAll, spreadAll, he, ih hrest]
  -- induction on the document over its children
  induction d using induction_children with
  | h d ih =>
    cases d with
    | concat parts | fill parts => simp [unmarked, spreadBreaks, hall parts ih]
    | alternatives first others broken =>
      obtain ⟨hfirst, hothers⟩ := List.forall_mem_cons.1 ih
      cases deep <;> simp [unmarked, spreadBreaks, hfirst, hall others hothers]
    | ifBreak broken flat =>
      simp [unmarked, spreadBreaks, ih broken (by simp [children]), ih flat (by simp [children])]
    | indent body | align _ body | lineSuffix body | group body _ =>
      simp [unmarked, spreadBreaks, ih body (by simp [children])]
    -- what is left has no part, and the cursor is a text without a mark
    | _ => simp [unmarked, spreadBreaks]

@[simp] theorem breakGroups_unmarked (d : Doc) :
    d.unmarked.breakGroups = d.breakGroups.unmarked := by
  rw [breakGroups, spreadBreaks_unmarked]
  rfl

end Doc

namespace Layout

open Text (Padded endsBlank)

variable {settings : Settings} {s : State} {c : Command}

/-! ## Commands and measurements -/

/-- The command with an empty text in the place of every mark. -/
def Command.unmarked (c : Command) : Command := c.on c.doc.unmarked

@[simp] theorem doc_unmarked (c : Command) : c.unmarked.doc = c.doc.unmarked := rfl

@[simp] theorem mode_unmarked (c : Command) : c.unmarked.mode = c.mode := rfl

@[simp] theorem Command.on_unmarked (c : Command) (d : Doc) :
    c.unmarked.on d.unmarked = (c.on d).unmarked := rfl

@[simp] theorem Command.as_unmarked (c : Command) (mode : Mode) (d : Doc) :
    c.unmarked.as mode d.unmarked = (c.as mode d).unmarked := rfl

@[simp] theorem Command.asShape_unmarked (c : Command) (mode : Mode) (d : Doc) :
    c.unmarked.asShape mode d.unmarked = (c.asShape mode d).unmarked := by
  simp [Command.asShape]

@[simp] theorem pushParts_unmarked (c : Command) (parts : List Doc) (rest : List Command) :
    pushParts c.unmarked (Doc.unmarkedAll parts) (rest.map Command.unmarked) =
      (pushParts c parts rest).map Command.unmarked := by
  simp [pushParts, Doc.unmarkedAll_eq, Function.comp_def]

@[simp] theorem mostExpanded_unmarked (first : Doc) (others : List Doc) :
    mostExpanded first.unmarked (Doc.unmarkedAll others) =
      (mostExpanded first others).unmarked := by
  simp [mostExpanded, Doc.unmarkedAll_eq, List.getLastD_eq_getLast?, List.getLast?_map,
    Option.getD_map]

@[simp] theorem shapeIn_unmarked (mode : Mode) (first : Doc) (others : List Doc) :
    shapeIn mode first.unmarked (Doc.unmarkedAll others) =
      (shapeIn mode first others).unmarked := by
  cases mode <;> simp [shapeIn]

/-- The measurement with an empty text in the place of every mark. -/
def Probe.unmarked (p : Probe) : Probe := { p with commands := p.commands.map Command.unmarked }

/-- The finding with an empty text in the place of every mark. -/
def Finding.unmarked : Finding → Finding
  | .known answer => .known answer
  | .more q => .more q.unmarked

@[simp] theorem goOn_unmarked (p : Probe) (commands : List Command) :
    p.unmarked.goOn (commands.map Command.unmarked) = (p.goOn commands).unmarked := rfl

/-- A step of a measurement finds the same without the marks. -/
theorem step_probe_unmarked (tabWidth : Int) (mustBeFlat : Bool) (p : Probe) (c : Command) :
    p.unmarked.step tabWidth mustBeFlat c.unmarked = (p.step tabWidth mustBeFlat c).unmarked := by
  have hcommands : p.unmarked.commands = p.commands.map Command.unmarked := rfl
  -- only a mark becomes a document of another kind; all others are measured by the same branch
  unfold Probe.step
  rw [doc_unmarked]
  cases c.doc with
  | cursor =>
    -- an empty text takes no columns
    simp [Doc.unmarked, Finding.unmarked, Text.charsColumns, Probe.unmarked]
  | concat parts | fill parts =>
    simp only [Doc.unmarked, hcommands, pushParts_unmarked, goOn_unmarked]
  | alternatives first others broken =>
    simp only [Doc.unmarked, mode_unmarked, shapeIn_unmarked, Command.asShape_unmarked, hcommands]
    rw [apply_ite Finding.unmarked]
    rfl
  | ifBreak broken flat =>
    change p.unmarked.goOn (c.unmarked.on (if c.mode = .broken then broken.unmarked
      else flat.unmarked) :: p.unmarked.commands) = _
    rw [← apply_ite Doc.unmarked]
    rfl
  | text _ | group _ _ | line _ | suffixBoundary =>
    simp only [Doc.unmarked]
    rw [apply_ite Finding.unmarked]
    rfl
  | indent _ | align _ _ | lineSuffix _ | breakParent => rfl

/-- A measurement without marks goes one command on. -/
theorem fits_unmarked_cons {tabWidth : Int} {mustBeFlat : Bool} {p : Probe} {rest : List Command}
    (hroom : ¬p.width < 0) (hc : p.commands = c :: rest) :
    p.unmarked.fits tabWidth mustBeFlat =
      match (({ p with commands := rest } : Probe).step tabWidth mustBeFlat c).unmarked with
      | .known answer => answer
      | .more q => q.fits tabWidth mustBeFlat := by
  have hcommands : p.unmarked.commands = c.unmarked :: rest.map Command.unmarked := by
    simp [Probe.unmarked, hc]
  have hwidth : 0 ≤ p.unmarked.width := Int.not_lt.1 hroom
  rw [Probe.fits_cons hcommands, ← step_probe_unmarked, decide_eq_true hwidth, Bool.true_and]
  rfl

/-- A measurement comes out the same without the marks. -/
theorem fits_unmarked (tabWidth : Int) (mustBeFlat : Bool) (p : Probe) :
    p.unmarked.fits tabWidth mustBeFlat = p.fits tabWidth mustBeFlat := by
  -- induction along the measurement, which takes the same turns without the cursor
  fun_induction Probe.fits tabWidth mustBeFlat p with
  -- no room is left
  | case1 p hroom =>
    have hwidth : p.unmarked.width < 0 := hroom
    rw [Probe.fits, if_pos hwidth]
  -- nothing is left to measure
  | case2 p hroom hc =>
    have hcommands : p.unmarked.commands = [] := by simp [Probe.unmarked, hc]
    have hwidth : 0 ≤ p.unmarked.width := Int.not_lt.1 hroom
    rw [Probe.fits_nil hcommands, decide_eq_true hwidth]
  -- the turn gives an answer
  | case3 p hroom c rest hc answer h =>
    rw [fits_unmarked_cons hroom hc, h]
    rfl
  -- the turn goes on
  | case4 p hroom c rest hc q h ih =>
    rw [fits_unmarked_cons hroom hc, h]
    exact ih

/-- What is measured of a fill has no marks if the fill has none. -/
theorem fillProbe_unmarked (column : Int) (c : Command) (parts : List Doc) :
    fillProbe settings column c.unmarked (Doc.unmarkedAll parts) =
      (fillProbe settings column c parts).unmarked := by
  simp [fillProbe, Probe.unmarked, Doc.unmarkedAll_eq, Function.comp_def]

/-- A fill becomes the same commands without the marks. -/
theorem fillCommands_unmarked (column : Int) (c : Command) (parts : List Doc) :
    fillCommands settings column c.unmarked (Doc.unmarkedAll parts) =
      (fillCommands settings column c parts).map Command.unmarked := by
  -- what is measured fits with its cursor as it does without
  have hfits : ∀ ds : List Doc,
      (fillProbe settings column c.unmarked (Doc.unmarkedAll ds)).fits settings.tabWidth true =
        (fillProbe settings column c ds).fits settings.tabWidth true := fun ds => by
    rw [fillProbe_unmarked, fits_unmarked]
  -- the cases of the fill
  match parts with
  | [] => rfl
  | [d] =>
    have hd := hfits [d]
    simp only [Doc.unmarkedAll] at hd
    simp [fillCommands, Doc.unmarkedAll, hd]
  | [d, e] =>
    have hd := hfits [d]
    simp only [Doc.unmarkedAll] at hd
    simp [fillCommands, Doc.unmarkedAll, hd]
  -- two measurements decide the two modes, and the rest of the fill goes back on the stack
  | d :: e :: f :: rest =>
    have hd := hfits [d]
    have hpair := hfits [d, e, f]
    simp only [Doc.unmarkedAll] at hd hpair
    have hfill : c.unmarked.on (.fill (f.unmarked :: Doc.unmarkedAll rest)) =
        (c.on (.fill (f :: rest))).unmarked := rfl
    simp only [fillCommands, Doc.unmarkedAll, hd, hpair, apply_ite (List.map Command.unmarked)]
    rw [hfill]
    rfl

/-! ## Groups -/

/-- The state with an empty text in the place of every mark that is still to come, behind another
output. -/
def State.unmarked (s : State) (output : List Chunk) : State :=
  { s with
    commands := s.commands.map Command.unmarked
    suffixes := s.suffixes.map Command.unmarked
    output }

variable {output : List Chunk}

/-- So has what is measured of a command. -/
theorem probe_unmarked (c : Command) :
    (s.unmarked output).probe settings c.unmarked = (s.probe settings c).unmarked := by
  simp [State.probe, State.unmarked, Probe.unmarked]

/-- Whether the next part fits does not depend on marks. -/
theorem fitsNext_unmarked (c : Command) :
    (s.unmarked output).fitsNext settings c.unmarked = s.fitsNext settings c := by
  rw [State.fitsNext, probe_unmarked, fits_unmarked]
  rfl

/-- A group becomes the same command without the marks. -/
theorem groupCommand_unmarked (body : Doc) (broken : Bool) :
    groupCommand settings (s.unmarked output) c.unmarked body.unmarked broken =
      (groupCommand settings s c body broken).unmarked := by
  have hsettled : (s.unmarked output).isSettled c.unmarked = s.isSettled c := rfl
  unfold groupCommand
  rw [hsettled, Command.as_unmarked, Command.as_unmarked, Command.as_unmarked, fitsNext_unmarked,
    ← apply_ite Command.unmarked, ← apply_ite Command.unmarked]

/-- A group with several shapes becomes the same command without the marks. -/
theorem alternativesCommand_unmarked (first : Doc) (others : List Doc) (broken : Bool) :
    alternativesCommand settings (s.unmarked output) c.unmarked first.unmarked
      (Doc.unmarkedAll others) broken =
      (alternativesCommand settings s c first others broken).unmarked := by
  have hsettled : (s.unmarked output).isSettled c.unmarked = s.isSettled c := rfl
  -- the first shape that fits stands at the same place
  have hfind : (Doc.unmarkedAll others).find?
      (fun d => (s.unmarked output).fitsNext settings (c.unmarked.asShape .flat d)) =
      (others.find? fun d => s.fitsNext settings (c.asShape .flat d)).map Doc.unmarked := by
    rw [Doc.unmarkedAll_eq, List.find?_map, Function.comp_def]
    simp only [Command.asShape_unmarked, fitsNext_unmarked]
  unfold alternativesCommand
  rw [hsettled, hfind]
  simp only [mostExpanded_unmarked, Command.asShape_unmarked, fitsNext_unmarked,
    apply_ite Command.unmarked]
  cases others.find? fun d => s.fitsNext settings (c.asShape .flat d) <;> simp

/-! ## Blanks at the ends of lines -/

/-- At the end of a line the blanks in front of a mark are kept; the two texts are the same behind
it if they were before and there are none. -/
theorem padded_endLine {plain : List Chunk} (h : Padded (charsOf output) (charsOf plain))
    (hplain : .cursor ∉ plain) (next : List Char) :
    Padded (charsOf (trimOutput output) ++ '\n' :: next)
      (charsOf (trimOutput plain) ++ '\n' :: next) ∧
    (charsOf (trimOutput output) ++ '\n' :: next = charsOf (trimOutput plain) ++ '\n' :: next ↔
      charsOf output = charsOf plain ∧ endsBlank (charsOf (trimOutput output)) = false) := by
  -- both texts end in the same blanks; with marks some of these may be kept, without marks none are
  obtain ⟨front, front', back, hout, hpl, hpadded, hfront, hfront', hback⟩ := h.split
  obtain ⟨blanks, hblanks, htrim⟩ := charsOf_trimOutput output
  obtain ⟨blanks', hblanks', htrim'⟩ := charsOf_trimOutput plain
  obtain ⟨kept, hkept, rfl⟩ := Text.kept_of_blanks (htrim.symm.trans hout) hblanks hfront
  obtain ⟨kept', hkept', hback'⟩ := Text.kept_of_blanks (htrim'.symm.trans hpl) hblanks' hfront'
  have hkeptBlank : ∀ c ∈ kept, Text.isBlank c = true := fun c hc =>
    hback c (List.mem_append_left _ hc)
  have hnone : kept' = [] := by
    have hend := endsBlank_trimOutput hplain
    rw [hkept', Text.endsBlank_append fun c hc =>
      hback c (hback' ▸ List.mem_append_left _ hc)] at hend
    simpa using (Bool.or_eq_false_iff.1 hend).2
  rw [hnone, List.append_nil] at hkept'
  have hends : endsBlank (front ++ kept) = false ↔ kept = [] := by
    simp [Text.endsBlank_append hkeptBlank, hfront]
  have hsame : charsOf output = charsOf plain ↔ front = front' := by
    rw [hout, hpl, List.append_left_inj]
  rw [hkept, hkept', hends, hsame, List.append_left_inj]
  constructor
  · rw [List.append_assoc]
    exact hpadded.append (.lineFeed hkeptBlank (.refl next))
  constructor
  · intro heq
    -- the text without marks is no longer than what stands in front of the blanks
    have hlength := hpadded.sublist.length_le
    rw [← heq, List.length_append] at hlength
    have hkeptNil : kept = [] := List.eq_nil_of_length_eq_zero (by omega)
    rw [hkeptNil, List.append_nil] at heq
    exact ⟨heq, hkeptNil⟩
  · rintro ⟨rfl, rfl⟩
    exact List.append_nil _

/-! ## Steps and runs -/

/-- Does a command end the line, with blanks dropped in front of it? -/
def State.trims (s : State) (c : Command) : Bool :=
  match c.doc with
  | .line kind =>
    s.suffixes.isEmpty && (c.mode = .broken || kind.isHard) && kind != .literal
  | _ => false

/-- Does the next command end the line while blanks stand in front of a mark at its end? -/
def State.keepsBlanks (s : State) : Bool :=
  match s.commands with
  | c :: _ => s.trims c && endsBlank (charsOf (trimOutput s.output))
  | [] => false

/-- An output, and the output without marks of the same document. -/
structure Beside (output plain : List Chunk) : Prop where
  unmarked : .cursor ∉ plain
  padded : Padded (charsOf output) (charsOf plain)

/-- A text is printed in both outputs. -/
theorem Beside.print {plain : List Chunk} (h : Beside output plain) (t : String) :
    Beside (.text t :: output) (.text t :: plain) := by
  refine ⟨by simpa using h.unmarked, ?_⟩
  rw [charsOf_text, charsOf_text]
  exact h.padded.append (.refl _)

/-- An empty text does not move the column. -/
theorem columnAfter_empty (tabWidth column : Int) : columnAfter tabWidth column "" = column := by
  simp [columnAfter, Text.charsColumns]

/-- As much is deferred with marks as without. -/
theorem isEmpty_suffixes_unmarked :
    (s.unmarked output).suffixes.isEmpty = s.suffixes.isEmpty := List.isEmpty_map

/-- Two states stay in step when the first one comes to another state: the second one comes to that
state without the marks, and the texts are the same if they were before and no blanks are kept. -/
def InStep (s : State) (plain : List Chunk) (keeps : Bool) (next nextPlain : State) : Prop :=
  ∃ plain', nextPlain = next.unmarked plain' ∧ Beside next.output plain' ∧
    (charsOf next.output = charsOf plain' ↔ charsOf s.output = charsOf plain ∧ keeps = false)

variable {plain : List Chunk}

/-- Where nothing is printed, only the commands have to be the same. -/
theorem InStep.of_output {next nextPlain : State} (h : Beside s.output plain)
    (houtput : next.output = s.output) (hnext : nextPlain = next.unmarked plain) :
    InStep s plain false next nextPlain :=
  ⟨plain, hnext, houtput ▸ h, by simp [houtput]⟩

/-- A line is broken in both, and blanks are dropped from both unless a mark stands behind them. -/
theorem breakLine_unmarked (h : Beside s.output plain) (c : Command) (kind : LineKind) :
    InStep s plain (s.suffixes.isEmpty && kind != .literal &&
        endsBlank (charsOf (trimOutput s.output)))
      (s.breakLine settings c kind) ((s.unmarked plain).breakLine settings c.unmarked kind) := by
  by_cases hs : s.suffixes = []
  · have hs' : (s.unmarked plain).suffixes = [] := by simp [State.unmarked, hs]
    rw [breakLine_ends hs, breakLine_ends hs']
    by_cases hkind : kind = .literal
    · subst hkind
      refine ⟨.text "\n" :: plain, rfl, h.print "\n", ?_⟩
      simp [charsOf_text]
    · -- the only place where the two outputs may part: the margin is the same, the blanks are not
      have hend := padded_endLine h.padded h.unmarked (c.indentation.margin settings).text.toList
      refine ⟨.text ("\n" ++ (c.indentation.margin settings).text) :: trimOutput plain, ?_, ?_, ?_⟩
      · simp only [if_neg hkind]
        rfl
      · simp only [if_neg hkind]
        refine ⟨by simpa using not_mem_trimOutput h.unmarked, ?_⟩
        simpa [charsOf_text] using hend.1
      · simpa [charsOf_text, hs, hkind] using hend.2
  · have hs' : (s.unmarked plain).suffixes ≠ [] := by simpa [State.unmarked] using hs
    rw [breakLine_flushes hs, breakLine_flushes hs']
    have hcommands : (s.unmarked plain).suffixes.reverse ++
        c.unmarked :: (s.unmarked plain).commands =
        (s.suffixes.reverse ++ c :: s.commands).map Command.unmarked := by
      simp [State.unmarked]
    refine ⟨plain, ?_, h, by simp [hs]⟩
    rw [hcommands]
    rfl

variable (settings) in
/-- A step keeps a document and the same one without its marks in step. -/
theorem step_unmarked (h : Beside s.output plain) (c : Command) :
    InStep s plain (s.trims c && endsBlank (charsOf (trimOutput s.output)))
      (s.step settings c) ((s.unmarked plain).step settings c.unmarked) := by
  have hpush : (s.unmarked plain).commands = s.commands.map Command.unmarked := rfl
  unfold State.step State.trims
  rw [doc_unmarked]
  cases c.doc with
  | text t =>
    refine ⟨.text t :: plain, rfl, h.print t, ?_⟩
    simp [charsOf_text]
  | cursor =>
    -- the empty text in its place adds nothing to the output and leaves the column
    refine ⟨.text "" :: plain, ?_, ⟨by simpa using h.unmarked, ?_⟩, ?_⟩
    · simp only [Doc.unmarked, columnAfter_empty]
      rfl
    · rw [charsOf_cursor, charsOf_text]
      simpa using h.padded
    · rw [charsOf_cursor, charsOf_text]
      simp
  | concat parts =>
    refine .of_output h rfl ?_
    simp only [Doc.unmarked, hpush, pushParts_unmarked]
    rfl
  | fill parts =>
    refine .of_output h rfl ?_
    simp only [Doc.unmarked, fillCommands_unmarked, hpush, ← List.map_append]
    rfl
  | group body broken =>
    refine .of_output h rfl ?_
    simp only [Doc.unmarked, groupCommand_unmarked]
    rfl
  | alternatives first others broken =>
    refine .of_output h rfl ?_
    simp only [Doc.unmarked, alternativesCommand_unmarked]
    rfl
  | ifBreak broken flat =>
    refine .of_output h rfl ?_
    change ({ s.unmarked plain with
      commands := c.unmarked.on (if c.mode = .broken then broken.unmarked else flat.unmarked) ::
        s.commands.map Command.unmarked } : State) = _
    rw [← apply_ite Doc.unmarked]
    rfl
  -- what is pushed, deferred or only noted changes no output
  | indent _ | align _ _ | breakParent | lineSuffix _ => exact .of_output h rfl rfl
  | suffixBoundary =>
    simp only [Doc.unmarked, isEmpty_suffixes_unmarked]
    split <;> exact .of_output h rfl rfl
  | line kind =>
    -- a line that is flat prints a blank or nothing, any other line breaks
    simp only [Doc.unmarked]
    by_cases hmode : c.mode = .flat
    · have hmode' : c.unmarked.mode = .flat := hmode
      simp only [hmode, hmode']
      cases kind with
      | soft =>
        have hsame : InStep s plain false s (s.unmarked plain) := .of_output h rfl rfl
        simpa [LineKind.isHard] using hsame
      | space =>
        simp only [LineKind.isHard]
        exact ⟨.text " " :: plain, rfl, h.print " ", by simp [charsOf_text]⟩
      | hard => simpa [LineKind.isHard] using breakLine_unmarked h c .hard
      | literal => simpa [LineKind.isHard] using breakLine_unmarked h c .literal
    · have hmode' : c.unmarked.mode ≠ .flat := hmode
      have hbroken : c.mode = .broken := by
        cases hc : c.mode
        · exact absurd hc hmode
        · rfl
      simpa [hmode, hmode', hbroken] using breakLine_unmarked h c kind

variable (settings) in
/-- A run keeps a document and the same one without its marks in step, and the two texts become
different where blanks are kept. -/
theorem run_unmarked (h : Beside s.output plain) :
    Beside (s.run settings).output ((s.unmarked plain).run settings).output ∧
      (charsOf (s.run settings).output = charsOf ((s.unmarked plain).run settings).output ↔
        charsOf s.output = charsOf plain ∧ ∀ t, Visits settings s t → t.keepsBlanks = false) := by
  -- the induction is on the run with the marks; the other run follows it, from any output beside
  fun_induction State.run settings s generalizing plain with
  -- a command: the step keeps the outputs side by side, and they stay equal unless it kept blanks
  | case1 s c rest hc ih =>
    have hcommands : (s.unmarked plain).commands = c.unmarked :: rest.map Command.unmarked := by
      simp [State.unmarked, hc]
    have hkeeps : s.keepsBlanks = (State.trims { s with commands := rest } c &&
        endsBlank (charsOf (trimOutput s.output))) := by
      rw [State.keepsBlanks, hc]
      rfl
    obtain ⟨plain', hstep, hbeside, hsame⟩ :=
      step_unmarked settings (s := { s with commands := rest }) h c
    have hrun : (s.unmarked plain).run settings =
        ((({ s with commands := rest } : State).step settings c).unmarked plain').run settings := by
      rw [State.run_cons hcommands, ← hstep]
      rfl
    obtain ⟨hlast, hlastSame⟩ := ih hbeside
    rw [hrun]
    refine ⟨hlast, ?_⟩
    rw [hlastSame, hsame, Visits.forall_cons hc, hkeeps, and_assoc]
  -- the end: no step is left that could keep blanks
  | case2 s hc hs =>
    rw [List.isEmpty_iff] at hs
    have hkeeps : s.keepsBlanks = false := by rw [State.keepsBlanks, hc]
    rw [State.run_nil (s := s.unmarked plain) (by simp [State.unmarked, hc])
      (by simp [State.unmarked, hs]), Visits.forall_nil hc hs]
    exact ⟨h, by simp [hkeeps, State.unmarked]⟩
  -- the deferred documents are put on the stack in both runs
  | case3 s hc hs ih =>
    rw [List.unattach_reverse, List.unattach_attach] at ih
    have hsuffixes : s.suffixes ≠ [] := by simpa using hs
    have hkeeps : s.keepsBlanks = false := by rw [State.keepsBlanks, hc]
    have hflush : (s.unmarked plain).run settings = (({ s with
        commands := s.suffixes.reverse, suffixes := [] } : State).unmarked plain).run settings := by
      rw [State.run_flush (by simp [State.unmarked, hc])
        (by simpa [State.unmarked] using hsuffixes)]
      simp [State.unmarked]
    rw [hflush, Visits.forall_flush hc hsuffixes, hkeeps]
    simpa using ih h

/-! ## Limits -/

/-- The margin of a command does not depend on marks. -/
theorem limit?_unmarked (settings : Settings) (c : Command) :
    c.unmarked.limit? settings = c.limit? settings := by
  unfold Command.limit?
  rw [doc_unmarked]
  cases c.doc <;> rfl

/-- A measurement looks at the limit of its first command and goes on, as long as there is room. -/
theorem probe_limit?_cons {mustBeFlat : Bool} {p : Probe} {rest : List Command}
    (hc : p.commands = c :: rest) (hroom : ¬p.width < 0) :
    p.limit? settings mustBeFlat = (c.limit? settings).or
      (match ({ p with commands := rest } : Probe).step settings.tabWidth mustBeFlat c with
      | .known _ => none
      | .more q => q.limit? settings mustBeFlat) := by
  -- the match of the definition against the commands, brought to the one that stands there
  rw [Probe.limit?, if_neg hroom]
  split
  · rename_i hnil
    rw [hc] at hnil
    cases hnil
  · rename_i c' rest' hcons
    rw [hc] at hcons
    cases hcons
    cases c.limit? settings with
    | some limit => rfl
    | none => simp only; split <;> rename_i h <;> rw [h] <;> rfl

/-- Where nothing is left to be measured no limit is passed. -/
theorem probe_limit?_nil {mustBeFlat : Bool} {p : Probe} (hc : p.commands = []) :
    p.limit? settings mustBeFlat = none := by
  rw [Probe.limit?]
  split
  · rfl
  split
  · rfl
  · rename_i hcons
    rw [hc] at hcons
    cases hcons

/-- A measurement passes the same limit without the marks. -/
theorem probe_limit?_unmarked (mustBeFlat : Bool) (p : Probe) :
    p.unmarked.limit? settings mustBeFlat = p.limit? settings mustBeFlat := by
  -- one turn of the measurement, whose own command sets no other limit
  have hcons : ∀ {p : Probe} {c : Command} {rest : List Command}, ¬p.width < 0 →
      p.commands = c :: rest → p.unmarked.limit? settings mustBeFlat = (c.limit? settings).or
        (match (({ p with commands := rest } : Probe).step settings.tabWidth
          mustBeFlat c).unmarked with
        | .known _ => none
        | .more q => q.limit? settings mustBeFlat) := by
    intro p c rest hroom hc
    have hcommands : p.unmarked.commands = c.unmarked :: rest.map Command.unmarked := by
      simp [Probe.unmarked, hc]
    rw [probe_limit?_cons hcommands hroom, limit?_unmarked, ← step_probe_unmarked]
    rfl
  -- the induction is along the turns of the measurement
  fun_induction Probe.limit? settings mustBeFlat p with
  | case1 p hroom =>
    have hwidth : p.unmarked.width < 0 := hroom
    rw [Probe.limit?, if_pos hwidth]
  | case2 p hroom hc => exact probe_limit?_nil (by simp [Probe.unmarked, hc])
  | case3 p hroom c rest hc limit hlimit => rw [hcons hroom hc, hlimit]; rfl
  | case4 p hroom c rest hc hlimit answer h => rw [hcons hroom hc, hlimit, h]; rfl
  | case5 p hroom c rest hc hlimit q h ih => rw [hcons hroom hc, hlimit, h]; exact ih

variable (settings s output) in
/-- Choosing a shape passes the same limits. -/
theorem choiceLimit?_unmarked (commands : List Command) :
    (s.unmarked output).choiceLimit? settings (commands.map Command.unmarked) =
      s.choiceLimit? settings commands := by
  induction commands with
  | nil => rfl
  | cons c rest ih =>
    rw [List.map_cons, State.choiceLimit?, State.choiceLimit?, probe_unmarked,
      probe_limit?_unmarked, fitsNext_unmarked, ih]

/-- So does filling. -/
theorem fillLimit?_unmarked (column : Int) (c : Command) (parts : List Doc) :
    fillLimit? settings column c.unmarked (Doc.unmarkedAll parts) =
      fillLimit? settings column c parts := by
  -- what is measured meets its limits with its cursor as without
  have hlimit : ∀ ds : List Doc,
      (fillProbe settings column c.unmarked (Doc.unmarkedAll ds)).limit? settings true =
        (fillProbe settings column c ds).limit? settings true := fun ds => by
    rw [fillProbe_unmarked, probe_limit?_unmarked]
  match parts with
  | [] => rfl
  | [d] | [d, e] => exact hlimit [d]
  | d :: e :: f :: rest =>
    have hone := hlimit [d]
    have hpair := hlimit [d, e, f]
    simp only [Doc.unmarkedAll] at hone hpair
    simp only [fillLimit?, Doc.unmarkedAll, hone, hpair]

/-- A step passes the same limit without the marks. -/
theorem stepLimit?_unmarked (c : Command) :
    (s.unmarked output).stepLimit? settings c.unmarked = s.stepLimit? settings c := by
  have hsettled : (s.unmarked output).isSettled c.unmarked = s.isSettled c := rfl
  have hlimit := limit?_unmarked settings c
  unfold State.stepLimit?
  rw [doc_unmarked]
  -- only where a choice is made is anything measured
  cases hdoc : c.doc with
  | group body broken =>
    have hbody := choiceLimit?_unmarked settings s output [c.as .flat body]
    rw [List.map_singleton] at hbody
    simp only [Doc.unmarked, hsettled, Command.as_unmarked, hbody]
  | alternatives first others broken =>
    have hshapes : ((first.unmarked :: Doc.unmarkedAll others).map (c.unmarked.asShape .flat)) =
        ((first :: others).map (c.asShape .flat)).map Command.unmarked := by
      simp [Doc.unmarkedAll_eq]
    simp only [Doc.unmarked, hsettled, hshapes, choiceLimit?_unmarked]
  | fill parts => exact fillLimit?_unmarked s.column c parts
  | _ => exact hlimit

/-- The limits of a state are those of its next step and those behind it. -/
theorem state_limit?_cons {rest : List Command} (hc : s.commands = c :: rest) :
    s.limit? settings = (({ s with commands := rest } : State).stepLimit? settings c).or
      ((({ s with commands := rest } : State).step settings c).limit? settings) := by
  rw [State.limit?]
  split
  · rename_i hcons
    rw [hc] at hcons
    cases hcons
    split <;> rename_i h <;> rw [h] <;> rfl
  · rename_i hnil
    rw [hc] at hnil
    cases hnil

/-- Behind the last command, deferred parts are printed within the limits. -/
theorem state_limit?_nil (hc : s.commands = []) :
    s.limit? settings = if s.suffixes.isEmpty then none
      else ({ s with commands := s.suffixes.reverse, suffixes := [] } : State).limit? settings := by
  rw [State.limit?]
  split
  · rename_i hcons
    rw [hc] at hcons
    cases hcons
  · by_cases hs : s.suffixes.isEmpty = true <;> simp [hs]

/-- Without the marks a run passes the same limit first. -/
theorem state_limit?_unmarked (h : Beside s.output plain) :
    (s.unmarked plain).limit? settings = s.limit? settings := by
  -- one step of the run, in front of the limits of the rest
  have hcons : ∀ {s : State} {c : Command} {rest : List Command} {plain : List Chunk},
      s.commands = c :: rest → (s.unmarked plain).limit? settings =
        (({ s with commands := rest } : State).stepLimit? settings c).or
          ((({ s with commands := rest } : State).unmarked plain).step settings
            c.unmarked |>.limit? settings) := by
    intro s c rest plain hc
    have hcommands : (s.unmarked plain).commands = c.unmarked :: rest.map Command.unmarked := by
      simp [State.unmarked, hc]
    rw [state_limit?_cons hcommands]
    exact congrArg (Option.or · _) (stepLimit?_unmarked (s := { s with commands := rest }) c)
  -- the induction is on the run with the marks, as in `run_unmarked`
  fun_induction State.limit? settings s generalizing plain with
  | case1 s c rest hc limit hlimit => rw [hcons hc, hlimit]; rfl
  | case2 s c rest hc hlimit ih =>
    obtain ⟨plain', hstep, hbeside, -⟩ :=
      step_unmarked settings (s := { s with commands := rest }) h c
    rw [hcons hc, hlimit, hstep]
    exact ih hbeside
  | case3 s hc hs =>
    rw [state_limit?_nil (by simp [State.unmarked, hc]), isEmpty_suffixes_unmarked, if_pos hs]
  | case4 s hc hs ih =>
    rw [List.unattach_reverse, List.unattach_attach] at ih
    rw [state_limit?_nil (by simp [State.unmarked, hc]), isEmpty_suffixes_unmarked, if_neg hs,
      ← ih h]
    simp [State.unmarked]

/-! ## Documents -/

/-- The offset of a mark is in the text. -/
theorem cursorOffset?_le {output : List Chunk} {offset k : Nat}
    (h : cursorOffset? offset output = some k) : k ≤ offset + (outputText output).length := by
  -- the offset grows with the text that is passed on the way to the mark
  induction output generalizing offset with
  | nil => cases h
  | cons piece output ih =>
    cases piece with
    | cursor =>
      cases h
      exact Nat.le_add_right ..
    | text t =>
      have hle := ih h
      rw [outputText, String.length_append]
      omega

/-- At the start both outputs are empty. -/
theorem beside_start (d : Doc) : Beside (State.start d).output [] := ⟨List.not_mem_nil, .nil⟩

/-- The engine starts in the same way. -/
theorem start_unmarked (d : Doc) : State.start d.unmarked = (State.start d).unmarked [] := by
  simp [State.start, State.unmarked, Command.unmarked, Command.on]

/-- What marks do to a document, for every document and all settings.  With an empty text in the
place of every mark it passes the same limit first, if any.  Its text with the marks is the text
without them, with blanks put in front of line feeds; and the two are the same if and only if the
run comes through no state in which a line is ended while blanks stand in front of a mark at its
end.  The offset that is reported lies in the text. -/
theorem render_unmarked (settings : Settings) (d : Doc) :
    firstLimit? settings d.unmarked = firstLimit? settings d ∧
    Padded (render settings d).toList (render settings d.unmarked).toList ∧
    (render settings d = render settings d.unmarked ↔
      ∀ s, Visits settings (.start d) s → s.keepsBlanks = false) ∧
    ∀ k, (renderWithCursor settings d).cursor = some k → k ≤ (render settings d).length := by
  -- one run beside the other, which gives the text, the equality and the mark
  obtain ⟨hbeside, hsame⟩ := run_unmarked settings (beside_start d)
  rw [← start_unmarked] at hbeside hsame
  refine ⟨?_, hbeside.padded, ?_, ?_⟩
  · rw [firstLimit?, start_unmarked]
    exact state_limit?_unmarked (beside_start d)
  · rw [← String.toList_inj]
    exact hsame.trans (and_iff_right rfl)
  · -- the mark lies in the text that is printed
    intro k hk
    have hle := cursorOffset?_le hk
    rwa [Nat.zero_add] at hle

/-- A mark between a blank and a forced line break. -/
def markedBlank : Doc := .concat [.text "a ", .cursor, .hardline, .text "b"]

/-- The blank in front of the mark stays at the end of its line. -/
theorem mark_keeps_blank :
    renderWithCursor {} markedBlank = ⟨"a \nb", some 2⟩ ∧
      render {} markedBlank.unmarked = "a\nb" := by
  decide +kernel

end Layout

end Reflow
