import Reflow.Proofs.Layout.Output
import Reflow.Proofs.Layout.Run

/-!
# Flat lines keep to the width

A group is laid out flat only if it fits: the rest of the line, up to the first place at which it can
end, takes no more columns than there are.  That measurement stays right while the line is printed.
What comes behind the group is either printed as it was measured, or is a group that is flat because
it was measured itself.  So the line on which a line break was left flat is never wider than the
limit.

## Key results

- `Orderly.of_breakable`: breaking groups takes all forced line ends out of flat groups
- `fits_step`: a measurement stays right for as long as the line does not end
- `flat_line_fits`: the line of a flat line break is not wider than the limit
-/

namespace Reflow

/-- Documents made of texts without line ends, sequences, indentation, alignment by columns, plain
groups, lines that break if they have to, forced line ends, break marks and choices. -/
inductive Doc.Breakable : Doc → Prop
  | text {s : String} (h : '\n' ∉ s.toList) : Breakable (.text s)
  | space : Breakable .space
  | softline : Breakable .softline
  | hardline : Breakable .hardline
  | breakParent : Breakable .breakParent
  | concat {parts : List Doc} (h : ∀ d ∈ parts, Breakable d) : Breakable (.concat parts)
  | indent {body : Doc} (h : Breakable body) : Breakable (.indent body)
  | align (n : Int) {body : Doc} (h : Breakable body) : Breakable (.align (.columns n) body)
  | group (broken : Bool) {body : Doc} (h : Breakable body) : Breakable (.group body broken)
  | ifBreak {broken flat : Doc} (hb : Breakable broken) (hf : Breakable flat) :
    Breakable (.ifBreak broken flat)

namespace Layout

/-! ## Forced line ends -/

/-- A document that can be laid out in a mode: there is no forced line end and no broken group
inside of what is flat. -/
inductive Orderly : Mode → Doc → Prop
  | text {mode : Mode} {s : String} (h : '\n' ∉ s.toList) : Orderly mode (.text s)
  | line {mode : Mode} {kind : LineKind} (hk : kind ≠ .literal)
    (hm : mode = .flat → kind.isHard = false) : Orderly mode (.line kind)
  | breakParent {mode : Mode} : Orderly mode .breakParent
  | concat {mode : Mode} {parts : List Doc} (h : ∀ d ∈ parts, Orderly mode d) :
    Orderly mode (.concat parts)
  | indent {mode : Mode} {body : Doc} (h : Orderly mode body) : Orderly mode (.indent body)
  | align {mode : Mode} (n : Int) {body : Doc} (h : Orderly mode body) :
    Orderly mode (.align (.columns n) body)
  | flatGroup {mode : Mode} {body : Doc} (h : Orderly .flat body) :
    Orderly mode (.group body false)
  | brokenGroup {body : Doc} (h : Orderly .broken body) : Orderly .broken (.group body true)
  | ifBreak {mode : Mode} {broken flat : Doc} (hb : Orderly mode broken) (hf : Orderly mode flat) :
    Orderly mode (.ifBreak broken flat)

namespace Orderly

/-- What can be flat can be broken as well. -/
theorem broken {mode : Mode} {d : Doc} (h : Orderly mode d) : Orderly .broken d := by
  induction h with
  | text h => exact .text h
  | line hk _ => exact .line hk (by simp)
  | breakParent => exact .breakParent
  | concat _ ih => exact .concat ih
  | indent _ ih => exact .indent ih
  | align n _ ih => exact .align n ih
  | flatGroup h => exact .flatGroup h
  | brokenGroup h => exact .brokenGroup h
  | ifBreak _ _ ihb ihf => exact .ifBreak ihb ihf

/-- Spreading breaks over a sequence whose parts are orderly afterwards. -/
theorem of_spreadAll {parts : List Doc}
    (h : ∀ d ∈ parts, Orderly .broken (d.spreadBreaks false).1 ∧
      ((d.spreadBreaks false).2 = false → Orderly .flat (d.spreadBreaks false).1)) :
    (∀ d ∈ (Doc.spreadAll false parts).1, Orderly .broken d) ∧
      ((Doc.spreadAll false parts).2 = false →
        ∀ d ∈ (Doc.spreadAll false parts).1, Orderly .flat d) := by
  -- induction on the parts, a list of which hands up a break if one of them does
  induction parts with
  | nil => simp [Doc.spreadAll]
  | cons d parts ih =>
    obtain ⟨hb, hf⟩ := h d List.mem_cons_self
    obtain ⟨ihb, ihf⟩ := ih fun e he => h e (List.mem_cons_of_mem _ he)
    simp only [Doc.spreadAll, List.mem_cons, forall_eq_or_imp, Bool.or_eq_false_iff]
    exact ⟨⟨hb, ihb⟩, fun ⟨h1, h2⟩ => ⟨hf h1, ihf h2⟩⟩

/-- Breaking groups takes all forced line ends out of flat groups: a document out of which no break
escapes can be flat. -/
theorem of_breakable {d : Doc} (h : d.Breakable) :
    Orderly .broken (d.spreadBreaks false).1 ∧
      ((d.spreadBreaks false).2 = false → Orderly .flat (d.spreadBreaks false).1) := by
  -- induction on how the document is breakable
  induction h with
  | text h => exact ⟨.text h, fun _ => .text h⟩
  | space => exact ⟨.line (by decide) (by decide), fun _ => .line (by decide) (by decide)⟩
  | softline => exact ⟨.line (by decide) (by decide), fun _ => .line (by decide) (by decide)⟩
  -- a hard line hands up its break, so that it is never flat
  | hardline =>
    refine ⟨.concat fun d hd => ?_, by simp [Doc.hardline, Doc.spreadBreaks, Doc.spreadAll]⟩
    rcases List.mem_cons.1 hd with rfl | hd
    · exact .line (by decide) (by decide)
    · rw [List.mem_singleton.1 hd]
      exact .breakParent
  | breakParent => exact ⟨.breakParent, fun _ => .breakParent⟩
  | concat _ ih =>
    obtain ⟨hb, hf⟩ := of_spreadAll ih
    exact ⟨.concat hb, fun h => .concat (hf h)⟩
  | indent _ ih => exact ⟨.indent ih.1, fun h => .indent (ih.2 h)⟩
  | align n _ ih => exact ⟨.align n ih.1, fun h => .align n (ih.2 h)⟩
  -- a group that gets no mark has a body without a break, which may be flat
  | @group broken body _ ih =>
    obtain ⟨hb, hf⟩ := ih
    simp only [Doc.spreadBreaks]
    cases h : broken || (body.spreadBreaks false).2 with
    | true => exact ⟨.brokenGroup hb, by simp⟩
    | false =>
      have hflat := hf (Bool.or_eq_false_iff.1 h).2
      exact ⟨.flatGroup hflat, fun _ => .flatGroup hflat⟩
  -- two branches may be flat if both of them may
  | ifBreak _ _ ihb ihf =>
    refine ⟨.ifBreak ihb.1 ihf.1, fun h => ?_⟩
    obtain ⟨h1, h2⟩ := Bool.or_eq_false_iff.1 h
    exact .ifBreak (ihb.2 h1) (ihf.2 h2)

end Orderly

/-! ## Margins -/

/-- A step that moves to the right, or by no column, and is blank. -/
def IndentStep.IsColumns : IndentStep → Prop
  | .unit => True
  | .columns n => 0 ≤ n
  | .text _ => False

/-- The columns of two texts add up. -/
theorem charsColumns_append (tabWidth : Int) (a b : List Char) :
    Text.charsColumns tabWidth (a ++ b) =
      Text.charsColumns tabWidth a + Text.charsColumns tabWidth b := by
  induction a with
  | nil => simp [Text.charsColumns]
  | cons c a ih => simp only [List.cons_append, Text.charsColumns, ih]; omega

/-- The columns of the margin are those of its text, in which no line ends. -/
structure Margin.Exact (tabWidth : Int) (m : Margin) : Prop where
  columns : m.columns = Text.charsColumns tabWidth m.text.toList
  newline : '\n' ∉ m.text.toList

/-- A margin whose width is exact stays so behind a text of known width. -/
theorem Margin.Exact.append {tabWidth : Int} {m : Margin} (hm : m.Exact tabWidth) {s : String}
    (hs : '\n' ∉ s.toList) {n : Int} (hn : Text.charsColumns tabWidth s.toList = n) :
    Margin.Exact tabWidth { text := m.text ++ s, columns := m.columns + n } := by
  refine ⟨?_, ?_⟩
  · simp only [String.toList_append, charsColumns_append, hn, hm.columns]
  · simp only [String.toList_append, List.mem_append]
    exact fun h => h.elim hm.newline hs

/-- A text that is repeated once more comes in front. -/
theorem repeated_succ (n : Nat) (s : String) :
    Text.repeated (n + 1) s = s ++ Text.repeated n s := by
  rw [Text.repeated, List.replicate_succ, String.join_cons, ← Text.repeated]

/-- A repeated text is as many times as wide. -/
theorem charsColumns_repeated (tabWidth : Int) (n : Nat) (s : String) :
    Text.charsColumns tabWidth (Text.repeated n s).toList =
      n * Text.charsColumns tabWidth s.toList := by
  induction n with
  | zero => simp [Text.repeated, Text.charsColumns]
  | succ n ih =>
    rw [repeated_succ, String.toList_append, charsColumns_append, ih, Int.natCast_add, Int.add_mul]
    omega

/-- A space is one column wide. -/
theorem columns_space (tabWidth : Int) : Text.charsColumns tabWidth " ".toList = 1 := by
  have hspace : Text.charColumns tabWidth ' ' = 1 := by
    have hcombining : Text.Tables.combining.contains 32 = false := by decide
    have hwide : Text.Tables.wide.contains 32 = false := by decide
    simp [Text.charColumns, hcombining, hwide]
  rw [show " ".toList = [' '] from rfl]
  simp [Text.charsColumns, hspace]

/-- A tab is as wide as the settings say. -/
theorem columns_tab (tabWidth : Int) : Text.charsColumns tabWidth "\t".toList = tabWidth := by
  rw [show "\t".toList = ['\t'] from rfl]
  simp [Text.charsColumns, Text.charColumns]

/-- Spaces are as many columns wide. -/
theorem columns_spaces (tabWidth : Int) {n : Int} (hn : 0 ≤ n) :
    Text.charsColumns tabWidth (spaces n).toList = n := by
  rw [spaces, charsColumns_repeated, columns_space]
  omega

/-- Tabs are as many tab widths wide. -/
theorem columns_tabs (tabWidth : Int) (n : Nat) :
    Text.charsColumns tabWidth (Text.repeated n "\t").toList = tabWidth * n := by
  rw [charsColumns_repeated, columns_tab, Int.mul_comm]

/-- Spaces hold no line end. -/
theorem not_mem_spaces (n : Int) : '\n' ∉ (spaces n).toList := fun h =>
  absurd (Text.mem_of_mem_repeated h) (by decide)

/-- The settings under which the columns of a unit are those of its text: a unit of less than no
columns can only be written as a tab. -/
def Settings.unitIsExact (settings : Settings) : Prop := 0 ≤ settings.tabWidth ∨ settings.useTabs

variable {settings : Settings}

/-- What is pending keeps the width exact. -/
theorem flush_exact {u : Unfinished} (hu : u.toMargin.Exact settings.tabWidth)
    (hpending : 0 ≤ u.pending.columns) : (u.flush settings).Exact settings.tabWidth := by
  unfold Unfinished.flush
  split
  · exact hu.append (fun h => absurd (Text.mem_of_mem_repeated h) (by decide)) (columns_tabs _ _)
  · exact hu.append (not_mem_spaces _) (columns_spaces _ hpending)

/-- So does a step of the indentation. -/
theorem add_exact (hsettings : settings.unitIsExact) {u : Unfinished}
    (hu : u.toMargin.Exact settings.tabWidth) (hpending : 0 ≤ u.pending.columns) {step : IndentStep}
    (hstep : step.IsColumns) :
    (u.add settings step).toMargin.Exact settings.tabWidth ∧
      0 ≤ (u.add settings step).pending.columns := by
  -- a unit ends what is pending, columns are added to it
  cases step with
  | unit =>
    have hflush := flush_exact hu hpending
    refine ⟨?_, Int.le_refl 0⟩
    by_cases htabs : settings.useTabs = true
    · simp only [Unfinished.add, htabs, if_true]
      -- a tab is as wide as the settings say
      exact hflush.append (by decide) (columns_tab _)
    · -- without tabs the width is that of blanks, and must not be negative
      have hwidth : 0 ≤ settings.tabWidth := hsettings.resolve_right htabs
      simp only [Unfinished.add, htabs]
      exact hflush.append (not_mem_spaces _) (columns_spaces _ hwidth)
  | columns n =>
    have hn : 0 ≤ n := hstep
    refine ⟨hu, ?_⟩
    simp only [Unfinished.add, Pending.add]
    omega
  | text s => exact hstep.elim

/-- The columns of a margin are those of its text. -/
theorem margin_exact (hsettings : settings.unitIsExact) {i : Indentation}
    (hi : ∀ step ∈ i.steps, step.IsColumns) : (i.margin settings).Exact settings.tabWidth := by
  obtain ⟨steps⟩ := i
  have hsteps : ∀ u : Unfinished,
      steps.foldr (fun step u => Unfinished.add settings u step) {} = u →
      u.toMargin.Exact settings.tabWidth ∧ 0 ≤ u.pending.columns := by
    -- the steps are added from the innermost on
    induction steps with
    | nil =>
      rintro _ rfl
      exact ⟨⟨rfl, List.not_mem_nil⟩, Int.le_refl 0⟩
    | cons step steps ih =>
      rintro _ rfl
      obtain ⟨hexact, hpending⟩ := ih (fun s hs => hi s (List.mem_cons_of_mem _ hs)) _ rfl
      exact add_exact hsettings hexact hpending (hi step List.mem_cons_self)
  obtain ⟨hexact, hpending⟩ := hsteps _ rfl
  exact hexact.append (not_mem_spaces _) (columns_spaces _ hpending)

/-! ## The line that is being printed -/

/-- The characters printed so far. -/
def State.written (s : State) : List Char := (outputText s.output.reverse).toList

/-- The number of lines that have ended. -/
def State.linesEnded (s : State) : Nat := s.written.count '\n'

/-- The characters of the line that is being printed, blanks at its end included: those are dropped
only when the line ends. -/
def State.line (s : State) : List Char := (s.written.reverse.takeWhile (· != '\n')).reverse

section Written

variable {s : State}

/-- A text is written behind what was written. -/
theorem written_print (t : String) (column : Int) :
    ({ s with output := .text t :: s.output, column } : State).written = s.written ++ t.toList := by
  simp [State.written, outputText_append, outputText]

/-- Characters of a text without line ends are no line ends. -/
theorem ne_newline {l : List Char} (h : '\n' ∉ l) : ∀ c ∈ l, (c != '\n') = true := by
  intro c hc
  simp only [bne_iff_ne, ne_eq]
  rintro rfl
  exact h hc

/-- Such a text is one line. -/
theorem takeWhile_ne_newline {l : List Char} (h : '\n' ∉ l) :
    l.takeWhile (· != '\n') = l := by
  have happend : (l ++ []).takeWhile (· != '\n') = l ++ [].takeWhile (· != '\n') :=
    List.takeWhile_append_of_pos (ne_newline h)
  simpa using happend

/-- A text without line ends goes on the line. -/
theorem line_print {t : String} (ht : '\n' ∉ t.toList) (column : Int) :
    ({ s with output := .text t :: s.output, column } : State).line = s.line ++ t.toList := by
  have hall := ne_newline (l := t.toList.reverse) (by simpa using ht)
  rw [State.line, written_print, List.reverse_append, List.takeWhile_append_of_pos hall]
  simp [State.line]

/-- A text without line ends ends no line. -/
theorem linesEnded_print {t : String} (ht : '\n' ∉ t.toList) (column : Int) :
    ({ s with output := .text t :: s.output, column } : State).linesEnded = s.linesEnded := by
  rw [State.linesEnded, written_print, List.count_append, List.count_eq_zero_of_not_mem ht]
  rfl

/-- Dropping blanks ends no line. -/
theorem count_trimOutput (output : List Chunk) :
    (outputText (trimOutput output).reverse).toList.count '\n' =
      (outputText output.reverse).toList.count '\n' := by
  obtain ⟨blanks, hblanks, hkept⟩ := charsOf_trimOutput output
  have hnone : blanks.count '\n' = 0 :=
    List.count_eq_zero_of_not_mem fun hmem => absurd (hblanks _ hmem) (by decide)
  show (charsOf (trimOutput output)).count '\n' = (charsOf output).count '\n'
  rw [hkept, List.count_append, hnone, Nat.add_zero]

/-- Ending a line starts one with the margin only. -/
theorem line_end {m : String} (hm : '\n' ∉ m.toList) (remeasure : Bool) (column : Int) :
    ({ s with output := .text ("\n" ++ m) :: trimOutput s.output, column, remeasure }
      : State).line = m.toList := by
  have hall := ne_newline (l := m.toList.reverse) (by simpa using hm)
  have hwritten : ({ s with output := .text ("\n" ++ m) :: trimOutput s.output, column, remeasure }
      : State).written = (outputText (trimOutput s.output).reverse).toList ++ '\n' :: m.toList := by
    simp [State.written, outputText_append, outputText]
  rw [State.line, hwritten, List.reverse_append, List.reverse_cons, List.append_assoc,
    List.takeWhile_append_of_pos hall]
  simp

/-- A line end ends one line. -/
theorem linesEnded_end {m : String} (hm : '\n' ∉ m.toList) (remeasure : Bool) (column : Int) :
    ({ s with output := .text ("\n" ++ m) :: trimOutput s.output, column, remeasure }
      : State).linesEnded = s.linesEnded + 1 := by
  have hcount := count_trimOutput s.output
  simp [State.linesEnded, State.written, outputText_append, outputText, hcount,
    List.count_eq_zero_of_not_mem hm]

end Written

/-! ## Measurements -/

/-- Does the rest of the line fit? -/
def State.fits (settings : Settings) (s : State) : Bool :=
  Probe.fits settings.tabWidth false
    { commands := s.commands, width := settings.width - s.column }

/-- What fits leaves room. -/
theorem fits_width {tabWidth : Int} {mustBeFlat : Bool} {p : Probe}
    (h : p.fits tabWidth mustBeFlat = true) : 0 ≤ p.width := by
  rw [Probe.fits] at h
  split at h
  · cases h
  · omega

/-- What fits as a whole fits behind its first command. -/
theorem fits_more {tabWidth : Int} {mustBeFlat : Bool} {p q : Probe} {c : Command}
    {rest : List Command} (hc : p.commands = c :: rest)
    (hstep : { p with commands := rest }.step tabWidth mustBeFlat c = .more q)
    (h : p.fits tabWidth mustBeFlat = true) : q.fits tabWidth mustBeFlat = true := by
  -- the measurement of `p` opened as far as its first turn
  rw [Probe.fits] at h
  split at h
  · cases h
  · split at h
    · rename_i hnil
      rw [hc] at hnil
      cases hnil
    · rename_i c' rest' hcons
      rw [hc] at hcons
      cases hcons
      split at h
      · -- an answer that is known is another turn than the one that goes on
        rename_i hknown
        rw [hstep] at hknown
        cases hknown
      · rename_i hmore
        rw [hstep] at hmore
        cases hmore
        exact h

/-- A command that keeps to the documents of this module. -/
structure Command.Steady (c : Command) : Prop where
  doc : Orderly c.mode c.doc
  margin : ∀ step ∈ c.indentation.steps, step.IsColumns

/-- What is known of a state on the way: flat commands come before broken ones, and if there are
any, the rest of the line fits. -/
structure State.Steady (settings : Settings) (s : State) : Prop where
  suffixes : s.suffixes = []
  remeasure : s.remeasure = false
  commands : ∀ c ∈ s.commands, c.Steady
  modes : s.commands.Pairwise fun a b => a.mode = .broken → b.mode = .broken
  fits : (∃ c ∈ s.commands, c.mode = .flat) → s.fits settings = true
  column : s.column = Text.charsColumns settings.tabWidth s.line

/-- What a step may do: a measurement stays right for as long as the line does not end. -/
structure State.Goes (settings : Settings) (s t : State) : Prop where
  steady : t.Steady settings
  lines : s.linesEnded ≤ t.linesEnded
  fits : t.linesEnded = s.linesEnded → s.fits settings = true → t.fits settings = true

section Step

variable {s t : State} {c : Command} {rest : List Command}

/-- A command that is replaced by others of one mode. -/
theorem goes_replace (hs : s.Steady settings) (hc : s.commands = c :: rest) (cs : List Command)
    (mode : Mode) (hcommands : t.commands = cs ++ rest) (hsuffixes : t.suffixes = s.suffixes)
    (hremeasure : t.remeasure = false) (hcolumn : t.column = s.column)
    (houtput : t.output = s.output) (hcs : ∀ d ∈ cs, d.Steady ∧ d.mode = mode)
    (hmode : mode = .broken → c.mode = .broken)
    (hfits : (s.fits settings = true ∨ mode = .flat ∧ c.mode = .broken) →
      t.fits settings = true) : s.Goes settings t := by
  -- the commands below are in broken mode behind a broken one
  have hmodes := hs.modes
  rw [hc, List.pairwise_cons] at hmodes
  have hline : t.line = s.line := by rw [State.line, State.written, houtput]; rfl
  have hlines : t.linesEnded = s.linesEnded := by
    rw [State.linesEnded, State.written, houtput]; rfl
  refine ⟨⟨hsuffixes.trans hs.suffixes, hremeasure, ?_, ?_, ?_, ?_⟩, Nat.le_of_eq hlines.symm,
    fun _ h => hfits (.inl h)⟩
  · -- every command is steady, whether it was pushed or stood below
    intro d hd
    rw [hcommands] at hd
    rcases List.mem_append.1 hd with hd | hd
    · exact (hcs d hd).1
    · exact hs.commands d (hc ▸ List.mem_cons_of_mem _ hd)
  · -- a broken command has none but broken ones below it
    rw [hcommands, List.pairwise_append]
    refine ⟨?_, hmodes.2, ?_⟩
    · refine List.Pairwise.imp_of_mem (R := fun _ _ => True) ?_ (List.pairwise_of_forall ?_)
      · intro d e hd he _ hbroken
        rwa [(hcs e he).2, ← (hcs d hd).2]
      · exact fun _ _ => trivial
    · intro d hd e he hbroken
      exact hmodes.1 e he (hmode ((hcs d hd).2 ▸ hbroken))
  · rintro ⟨d, hd, hflat⟩
    -- a flat command keeps the measurement it stands in
    cases hcmode : c.mode with
    | flat => exact hfits (.inl (hs.fits ⟨c, hc ▸ List.mem_cons_self, hcmode⟩))
    | broken =>
      -- all that was below a broken command is broken
      rw [hcommands] at hd
      rcases List.mem_append.1 hd with hd | hd
      · exact hfits (.inr ⟨(hcs d hd).2 ▸ hflat, hcmode⟩)
      · rw [hmodes.1 d hd hcmode] at hflat
        cases hflat
  · rw [hcolumn, hs.column, hline]

/-- A text without line ends is printed as it was measured. -/
theorem goes_print (hs : s.Steady settings) (hc : s.commands = c :: rest) {x : String}
    (hx : '\n' ∉ x.toList)
    (hstep : Probe.step settings.tabWidth false
        { commands := rest, width := settings.width - s.column } c = .more
      { commands := rest,
        width := settings.width - s.column - Text.charsColumns settings.tabWidth x.toList }) :
    s.Goes settings { s with
      commands := rest, output := .text x :: s.output,
      column := s.column + Text.charsColumns settings.tabWidth x.toList } := by
  -- the modes of the commands below
  have hmodes := hs.modes
  rw [hc, List.pairwise_cons] at hmodes
  have hfits : s.fits settings = true → State.fits settings { s with
      commands := rest, output := .text x :: s.output,
      column := s.column + Text.charsColumns settings.tabWidth x.toList } = true := by
    intro h
    -- the text takes as much from the room as it adds to the column
    have hmore := fits_more (p := { commands := s.commands, width := settings.width - s.column })
      hc hstep h
    rwa [Int.sub_sub] at hmore
  refine ⟨⟨hs.suffixes, hs.remeasure, fun d hd => hs.commands d (hc ▸ List.mem_cons_of_mem _ hd),
    hmodes.2, ?_, ?_⟩, ?_, fun _ => hfits⟩
  · rintro ⟨d, hd, hflat⟩
    exact hfits (hs.fits ⟨d, hc ▸ List.mem_cons_of_mem _ hd, hflat⟩)
  · rw [line_print (s := { s with commands := rest }) hx, charsColumns_append, hs.column]
    rfl
  · rw [linesEnded_print (s := { s with commands := rest }) hx]
    exact Nat.le_refl _

/-- Without line ends the column moves by the width of the text. -/
theorem columnAfter_eq {tabWidth : Int} {x : String} (hx : '\n' ∉ x.toList) (column : Int) :
    columnAfter tabWidth column x = column + Text.charsColumns tabWidth x.toList := by
  have hall := takeWhile_ne_newline (l := x.toList.reverse) (by simpa using hx)
  simp [columnAfter, hx, hall]

/-- A group is flat because it was measured, or is printed as it was measured. -/
theorem goes_group (hs : s.Steady settings) {body : Doc} {broken : Bool}
    (hc : s.commands = c :: rest) (hdoc : c.doc = .group body broken) :
    s.Goes settings { s with
      commands := groupCommand settings { s with commands := rest } c body broken :: rest,
      remeasure := false } := by
  have hsteady := hs.commands c (hc ▸ List.mem_cons_self)
  have hbroken : Orderly .broken body ∧ (broken = false → Orderly .flat body) ∧
      (c.mode = .flat → broken = false) := by
    have horderly := hsteady.doc
    rw [hdoc] at horderly
    generalize c.mode = mode at horderly
    cases horderly with
    | flatGroup h => exact ⟨h.broken, fun _ => h, fun _ => rfl⟩
    | brokenGroup h => exact ⟨h, by simp, by simp⟩
  -- the measurement of the whole line goes on with the body in the mode of the group
  have hmore : s.fits settings = true → Probe.fits settings.tabWidth false
      { commands := c.as (if broken then .broken else c.mode) body :: rest,
        width := settings.width - s.column } = true := by
    refine fits_more (p := { commands := s.commands, width := settings.width - s.column }) hc ?_
    simp [Probe.step, hdoc, Probe.goOn, Command.as]
  -- a mode for the body, and what it takes to choose it
  have hgoes : ∀ mode, groupCommand settings { s with commands := rest } c body broken =
      c.as mode body → Orderly mode body → (mode = .broken → c.mode = .broken) →
      (s.fits settings = true ∨ mode = .flat ∧ c.mode = .broken → Probe.fits settings.tabWidth false
        { commands := c.as mode body :: rest, width := settings.width - s.column } = true) →
      s.Goes settings { s with
        commands := groupCommand settings { s with commands := rest } c body broken :: rest,
        remeasure := false } := by
    intro mode hcommand hbody hmode hfits
    rw [hcommand]
    refine goes_replace hs hc [c.as mode body] mode rfl rfl rfl rfl rfl ?_ hmode hfits
    intro d hd
    rw [List.mem_singleton.1 hd]
    exact ⟨⟨hbody, hsteady.margin⟩, rfl⟩
  -- a group in flat mode stays flat, as its body was measured
  cases hmode : c.mode with
  | flat =>
    have hfalse := hbroken.2.2 hmode
    refine hgoes .flat ?_ (hbroken.2.1 hfalse) (by simp) ?_
    · simp [groupCommand, State.isSettled, hmode, hs.remeasure, hfalse]
    · rintro (h | h)
      · simpa [hfalse, hmode] using hmore h
      · simp [hmode] at h
  -- in broken mode the group is flat if it is not marked and its body fits
  | broken =>
    by_cases hfit : broken = false ∧
        State.fitsNext settings { s with commands := rest } (c.as .flat body) = true
    · refine hgoes .flat ?_ (hbroken.2.1 hfit.1) (by simp) fun _ => ?_
      · simp [groupCommand, State.isSettled, hmode, hfit]
      · simpa [State.fitsNext, State.probe, hs.suffixes] using hfit.2
    · refine hgoes .broken ?_ hbroken.1 (by simp [hmode]) ?_
      · simp only [groupCommand, State.isSettled, hmode]
        rw [if_neg (by simp), if_neg (by simpa using hfit)]
      · rintro (h | h)
        · simpa [hmode] using hmore h
        · simp at h

/-- A line that ends leaves its margin only, and nothing flat behind it. -/
theorem goes_end (hsettings : settings.unitIsExact) (hs : s.Steady settings)
    (hc : s.commands = c :: rest) {kind : LineKind} (hkind : kind ≠ .literal)
    (hmode : c.mode = .broken) :
    s.Goes settings (({ s with commands := rest } : State).breakLine settings c kind) := by
  have hmodes := hs.modes
  rw [hc, List.pairwise_cons] at hmodes
  -- the margin ends the line, and the column is its width
  have hexact := margin_exact hsettings (hs.commands c (hc ▸ List.mem_cons_self)).margin
  have hended := linesEnded_end (s := { s with commands := rest }) hexact.newline
    (decide (c.mode = .flat) || s.remeasure) (c.indentation.margin settings).columns
  rw [breakLine_ends (s := { s with commands := rest }) hs.suffixes, if_neg hkind, if_neg hkind]
  refine ⟨⟨hs.suffixes, by simp [hmode, hs.remeasure],
    fun d hd => hs.commands d (hc ▸ List.mem_cons_of_mem _ hd), hmodes.2, ?_, ?_⟩, ?_, ?_⟩
  · -- below a broken command nothing is flat, so that nothing has to fit
    rintro ⟨d, hd, hflat⟩
    rw [hmodes.1 d hd hmode] at hflat
    cases hflat
  · rw [line_end hexact.newline]
    exact hexact.columns
  · exact Nat.le_of_lt (Nat.lt_of_lt_of_eq (Nat.lt_succ_self _) hended.symm)
  · intro h
    rw [hended] at h
    exact absurd h (Nat.succ_ne_self _)

/-- What one step does. -/
theorem step_goes (hsettings : settings.unitIsExact) (hs : s.Steady settings)
    (hc : s.commands = c :: rest) :
    s.Goes settings (({ s with commands := rest } : State).step settings c) := by
  have hsteady := hs.commands c (hc ▸ List.mem_cons_self)
  have horderly := hsteady.doc
  -- commands for parts, which are printed as they are measured
  have hparts : ∀ cs : List Command, (∀ d ∈ cs, d.Steady ∧ d.mode = c.mode) →
      Probe.step settings.tabWidth false
          { commands := rest, width := settings.width - s.column } c =
        .more { commands := cs ++ rest, width := settings.width - s.column } →
      s.Goes settings { s with commands := cs ++ rest } := by
    intro cs hcs hstep
    refine goes_replace hs hc _ c.mode rfl rfl hs.remeasure rfl rfl hcs id ?_
    rintro (h | h)
    · exact fits_more (p := { commands := s.commands, width := settings.width - s.column }) hc
        hstep h
    · rw [h.1] at h
      cases h.2
  have hnone : Probe.step settings.tabWidth false
        { commands := rest, width := settings.width - s.column } c =
      .more { commands := rest, width := settings.width - s.column } →
      s.Goes settings { s with commands := rest } :=
    hparts [] (by simp)
  generalize hdoc : c.doc = doc at horderly
  generalize hcmode : c.mode = mode at horderly
  -- case by case through what is orderly
  cases horderly with
  | text hx =>
    have hgoes := goes_print hs hc hx (by
      simp [Probe.step, hdoc, hx, takeWhile_ne_newline hx])
    simpa only [State.step, hdoc, columnAfter_eq hx] using hgoes
  | @line _ kind hk hm =>
    simp only [State.step, hdoc]
    cases hmode : c.mode with
    | broken => exact goes_end hsettings hs hc hk hmode
    -- a flat line is a blank or nothing, and was measured so
    | flat =>
      have hsoft := hm (hcmode.symm.trans hmode)
      simp only [hsoft, decide_true, Bool.not_false, Bool.and_self, if_true]
      by_cases hkind : kind = .soft
      · rw [if_pos hkind]
        exact hnone (by simp [Probe.step, hdoc, hmode, hkind, LineKind.isHard])
      · rw [if_neg hkind]
        have hspace := columns_space settings.tabWidth
        have hgoes := goes_print hs hc (x := " ") (by decide) (by
          simpa [Probe.step, hdoc, hmode, hsoft, hkind] using hspace.symm)
        rwa [hspace] at hgoes
  | breakParent =>
    simp only [State.step, hdoc]
    exact hnone (by simp [Probe.step, hdoc])
  | @concat _ parts h =>
    simp only [State.step, hdoc]
    refine hparts (parts.map c.on) ?_ (by simp [Probe.step, hdoc, Probe.goOn, pushParts])
    intro d hd
    obtain ⟨e, he, rfl⟩ := List.mem_map.1 hd
    exact ⟨⟨hcmode ▸ h e he, hsteady.margin⟩, rfl⟩
  | @indent _ body h =>
    simp only [State.step, hdoc]
    refine hparts [{ c with indentation := c.indentation.indent, doc := body }] ?_
      (by simp [Probe.step, hdoc, Probe.goOn])
    intro d hd
    rw [List.mem_singleton.1 hd]
    refine ⟨⟨hcmode ▸ h, fun step hstep => ?_⟩, rfl⟩
    -- the steps of the margin are columns, the one that is added as well
    rcases List.mem_cons.1 hstep with rfl | hstep
    · trivial
    · exact hsteady.margin step hstep
  | @align _ n body h =>
    simp only [State.step, hdoc]
    refine hparts [{ c with indentation := c.indentation.align (.columns n), doc := body }] ?_
      (by simp [Probe.step, hdoc, Probe.goOn])
    intro d hd
    rw [List.mem_singleton.1 hd]
    refine ⟨⟨hcmode ▸ h, fun step hstep => ?_⟩, rfl⟩
    -- an alignment by a number takes a step away, or adds one that is not negative
    simp only [Indentation.align] at hstep
    split at hstep
    · exact hsteady.margin step hstep
    split at hstep
    · exact hsteady.margin step (List.mem_of_mem_tail hstep)
    · rcases List.mem_cons.1 hstep with rfl | hstep
      · show 0 ≤ n
        omega
      · exact hsteady.margin step hstep
  | flatGroup _ | brokenGroup _ =>
    simp only [State.step, hdoc]
    exact goes_group hs hc hdoc
  | @ifBreak _ broken flat hb hf =>
    simp only [State.step, hdoc]
    refine hparts [c.on (if c.mode = .broken then broken else flat)] ?_
      (by simp [Probe.step, hdoc, Probe.goOn])
    intro d hd
    rw [List.mem_singleton.1 hd]
    refine ⟨⟨?_, hsteady.margin⟩, rfl⟩
    dsimp only [Command.on]
    -- the branch of the mode is printed, as it is measured
    split
    · exact hcmode ▸ hb
    · exact hcmode ▸ hf

end Step

/-! ## Whole runs -/

section Run

variable {s t : State}

/-- A state goes on to itself. -/
theorem goes_refl (hs : s.Steady settings) : s.Goes settings s :=
  ⟨hs, Nat.le_refl _, fun _ h => h⟩

/-- What a run does up to a state that it comes through. -/
theorem visits_goes (hsettings : settings.unitIsExact) (h : Visits settings s t)
    (hs : s.Steady settings) : s.Goes settings t := by
  induction h with
  | here s => exact goes_refl hs
  | step hc _ ih =>
    have hstep := step_goes hsettings hs hc
    have hrest := ih hstep.steady
    refine ⟨hrest.steady, Nat.le_trans hstep.lines hrest.lines, fun hlines hfits => ?_⟩
    -- a line that has ended never comes back
    have h1 := hstep.lines
    have h2 := hrest.lines
    exact hrest.fits (by omega) (hstep.fits (by omega) hfits)
  | flush _ hsuffixes => exact absurd hs.suffixes hsuffixes

/-- The engine starts steady. -/
theorem steady_start {d : Doc} (hd : d.Breakable) : (State.start d).Steady settings := by
  refine ⟨rfl, rfl, ?_, List.pairwise_singleton _ _, ?_, rfl⟩
  · intro c hc
    rw [List.mem_singleton.1 hc]
    exact ⟨(Orderly.of_breakable hd).1, fun step hstep => by cases hstep⟩
  · rintro ⟨c, hc, hflat⟩
    rw [List.mem_singleton.1 hc] at hflat
    cases hflat

/-- The line of a flat line break is not wider than the limit: whenever a run comes to a line break
in a flat command, the line that is being printed then stays within the width until it ends, with
all blanks at its end counted. -/
theorem flat_line_fits (hsettings : 0 ≤ settings.tabWidth ∨ settings.useTabs = true) {d : Doc}
    (hd : d.Breakable) {i : Indentation} {kind : LineKind} {rest : List Command}
    (hs : Visits settings (State.start d) s)
    (hnext : s.commands = { indentation := i, mode := .flat, doc := .line kind } :: rest)
    (ht : Visits settings s t) (hlines : t.linesEnded = s.linesEnded) :
    Text.charsColumns settings.tabWidth t.line ≤ settings.width := by
  -- the flat line was reached by a choice that measured what follows it on the line
  have hsteady := (visits_goes hsettings hs (steady_start hd)).steady
  have hfits := hsteady.fits ⟨_, hnext ▸ List.mem_cons_self, rfl⟩
  have hgoes := visits_goes hsettings ht hsteady
  have hwidth := fits_width (hgoes.fits hlines hfits)
  have hcolumn := hgoes.steady.column
  simp only at hwidth
  omega

/-- A list that stays flat on an indented line. -/
def flatList : Doc :=
  .indent (.concat [.hardline, .group (.concat [.text "aaa", .space, .text "bbb"]) false])

/-- The list of the example may be broken where it is wide. -/
theorem breakable_flatList : flatList.Breakable := by
  refine .indent (.concat ?_)
  simp only [List.forall_mem_cons, List.not_mem_nil, false_implies, implies_true, and_true]
  refine ⟨.hardline, .group false (.concat ?_)⟩
  simp only [List.forall_mem_cons, List.not_mem_nil, false_implies, implies_true, and_true]
  exact ⟨.text (by decide), .space, .text (by decide)⟩

/-- In nine columns a list of nine columns with its margin stays flat, and no more than the nine are
used. -/
theorem flat_line_fits_list :
    Visits { width := 9 } (State.start flatList) ((State.start flatList).after { width := 9 } 8) ∧
    ((State.start flatList).after { width := 9 } 8).commands =
      [⟨⟨[.unit]⟩, .flat, .line .space⟩, ⟨⟨[.unit]⟩, .flat, .text "bbb"⟩] ∧
    Text.charsColumns 2
      (((State.start flatList).after { width := 9 } 8).after { width := 9 } 2).line ≤ 9 := by
  have hnext : ((State.start flatList).after { width := 9 } 8).commands =
      [⟨⟨[.unit]⟩, .flat, .line .space⟩, ⟨⟨[.unit]⟩, .flat, .text "bbb"⟩] := by
    with_unfolding_all rfl
  refine ⟨visits_after _ _ _, hnext, ?_⟩
  have hfits := flat_line_fits (.inl (by decide)) breakable_flatList
    (visits_after { width := 9 } 8 _) hnext (visits_after _ 2 _) (by decide +kernel)
  exact hfits

/-- Where a unit of indentation is less than no columns and not a tab, the engine counts fewer columns
than it prints: in six columns this list of seven stays flat. -/
theorem flat_line_exceeds :
    ∃ s t, flatList.Breakable ∧
      Visits { width := 6, tabWidth := -1 } (State.start flatList) s ∧
      s.commands = [⟨⟨[.unit]⟩, .flat, .line .space⟩, ⟨⟨[.unit]⟩, .flat, .text "bbb"⟩] ∧
      Visits { width := 6, tabWidth := -1 } s t ∧ t.linesEnded = s.linesEnded ∧
      6 < Text.charsColumns (-1) t.line ∧
      render { width := 6, tabWidth := -1 } flatList = "\naaa bbb" := by
  refine ⟨_, _, breakable_flatList, visits_after _ 8 _, ?_, visits_after _ 2 _, ?_, ?_, ?_⟩
  · with_unfolding_all rfl
  · decide +kernel
  · decide +kernel
  · decide +kernel

end Run

end Layout

end Reflow
