import Reflow.Proofs.Layout.Output
import Reflow.Proofs.Layout.Parts
import Reflow.Proofs.Text.Solid

/-!
# No blanks at the ends of lines

Blanks come to the end of a line from texts, from flat lines, from the margins of lines on which
nothing else is printed and from deferred parts, in any number of pieces.  Where the engine ends a
line it takes them back up to a cursor mark.  Without marks it stops at the last character that is no
blank: the line feed in front of the line, if the line holds nothing else.

A literal line takes nothing back, and a line feed in a text is no line end for the engine.

## Key results

- `Trimmed.endLine`: what has to hold where a line is ended
- `step_trimmed`, `run_trimmed`: no line ends in blanks after a step, and after a run
- `render_trimmed`: the lines of a document
-/

namespace Reflow

/-- Is the document no mark, no literal line, and no text or alignment with a line feed in it? -/
def Doc.isTidy : Doc → Bool
  | .cursor | .line .literal => false
  | .text s | .align (.text s) _ => !s.toList.contains '\n'
  | _ => true

namespace Layout

open Text (endsBlank splitAt)

/-- Is the step no text with a line feed in it? -/
def IndentStep.isLineFree : IndentStep → Bool
  | .text s => !s.toList.contains '\n'
  | .unit | .columns _ => true

/-- Tidiness is handed down to the parts of a document. -/
theorem handsDown_isTidy : HandsDown Doc.isTidy IndentStep.isLineFree where
  spread deep d := by
    -- only the shapes of a choice and the kind of an alignment are looked at
    cases d with
    | alternatives => cases deep <;> rfl
    | align amount => cases amount <;> rfl
    | _ => rfl
  fill _ _ := rfl
  lineEnd := rfl
  unit := rfl
  align {amount _} h := by
    cases amount
    · rfl
    · exact h

/-! ## Lines -/

/-- No line that is ended by a line feed ends in a blank. -/
def Trimmed (cs : List Char) : Prop := ∀ line ∈ (splitAt '\n' cs).dropLast, endsBlank line = false

namespace Trimmed

variable {cs back : List Char}

/-- Only the last line changes where no line is ended. -/
theorem append_iff (h : '\n' ∉ back) : Trimmed (cs ++ back) ↔ Trimmed cs := by
  rw [Trimmed, Trimmed, Text.dropLast_splitAt_append cs h]

/-- If the text does not end in a blank, its last line does not. -/
theorem lines (h : Trimmed cs) (hend : endsBlank cs = false) :
    ∀ line ∈ splitAt '\n' cs, endsBlank line = false := by
  intro line hline
  have hne := Text.splitAt_ne_nil '\n' cs
  rw [← List.dropLast_concat_getLast hne, List.mem_append, List.mem_singleton] at hline
  rcases hline with hline | rfl
  · exact h line hline
  · -- the last line is the end of the text, or there is nothing in it
    have hlast := Text.getLast?_splitAt '\n' cs
    rw [List.getLast?_eq_some_getLast hne, Option.some.injEq] at hlast
    rw [hlast, endsBlank, List.getLast?_reverse]
    rw [endsBlank, List.getLast?_eq_head?_reverse] at hend
    cases hcs : cs.reverse with
    | nil => rfl
    | cons c front =>
      rw [hcs] at hend
      by_cases hc : c = '\n'
      · simp [hc]
      · simpa [hc] using hend

/-- A line is ended behind a text that does not end in a blank; what follows is the next line. -/
theorem endLine (h : Trimmed cs) (hend : endsBlank cs = false) (hback : '\n' ∉ back) :
    Trimmed (cs ++ '\n' :: back) := by
  rw [Trimmed, Text.splitAt_append, Text.splitAt_of_not_mem hback, List.dropLast_concat]
  exact h.lines hend

end Trimmed

/-! ## Steps and runs -/

/-- The output of a state has no marks, and no line in it that is ended ends in a blank. -/
structure State.Trimmed (s : State) : Prop where
  unmarked : .cursor ∉ s.output
  lines : Layout.Trimmed (charsOf s.output)

variable {settings : Settings} {s : State} {c : Command}

/-- A text without line feeds goes on with the last line. -/
theorem State.Trimmed.print {t : State} (hs : s.Trimmed) {text : String} (ht : '\n' ∉ text.toList)
    (houtput : t.output = .text text :: s.output) : t.Trimmed := by
  constructor
  · rw [houtput]
    simpa using hs.unmarked
  · rw [houtput, charsOf_text, Trimmed.append_iff ht]
    exact hs.lines

/-- A margin holds no line end. -/
theorem not_mem_margin (hc : c.Passes Doc.isTidy IndentStep.isLineFree) :
    '\n' ∉ (c.indentation.margin settings).text.toList := by
  have hmargin := forall_margin (r := (· ≠ '\n')) settings (by decide) (by decide)
    (i := c.indentation) fun text htext a ha hfeed => by
      have hfree := hc.steps _ htext
      simp [IndentStep.isLineFree] at hfree
      exact hfree (hfeed ▸ ha)
  exact fun hmem => hmargin _ hmem rfl

/-- A broken line that is not literal takes the blanks back before it ends the line. -/
theorem breakLine_trimmed (hc : c.Passes Doc.isTidy IndentStep.isLineFree) (hs : s.Trimmed)
    {kind : LineKind} (hkind : kind ≠ .literal) : (s.breakLine settings c kind).Trimmed := by
  by_cases hsuffixes : s.suffixes = []
  · rw [breakLine_ends hsuffixes, if_neg hkind, if_neg hkind]
    obtain ⟨blanks, hblanks, hkept⟩ := charsOf_trimOutput s.output
    have hfeed : '\n' ∉ blanks := fun hmem => absurd (hblanks _ hmem) (by decide)
    have hlines : Trimmed (charsOf (trimOutput s.output)) := by
      rw [← Trimmed.append_iff hfeed, ← hkept]
      exact hs.lines
    constructor
    · simpa using not_mem_trimOutput hs.unmarked
    · rw [charsOf_text, String.toList_append]
      exact hlines.endLine (endsBlank_trimOutput hs.unmarked) (not_mem_margin hc)
  · -- the deferred parts are printed first, so that no line ends yet
    rw [breakLine_flushes hsuffixes]
    exact ⟨hs.unmarked, hs.lines⟩

variable (settings) in
/-- After a step no line ends in a blank if none did before. -/
theorem step_trimmed (hc : c.Passes Doc.isTidy IndentStep.isLineFree) (hs : s.Trimmed) :
    (s.step settings c).Trimmed := by
  have htidy : c.doc.isTidy = true := Doc.every_self hc.doc
  unfold State.step
  split
  case h_1 text hdoc =>
    rw [hdoc] at htidy
    exact hs.print (by simpa [Doc.isTidy] using htidy) rfl
  case h_2 hdoc =>
    rw [hdoc] at htidy
    cases htidy
  case h_11 =>
    split
    · exact hs
    · exact ⟨hs.unmarked, hs.lines⟩
  case h_12 kind hdoc =>
    split
    · -- a flat line is a space or nothing
      split
      · exact hs
      · exact hs.print (by decide) rfl
    · apply breakLine_trimmed hc hs
      rintro rfl
      rw [hdoc] at htidy
      cases htidy
  -- all others print nothing
  all_goals exact ⟨hs.unmarked, hs.lines⟩

/-- After a run no line ends in a blank. -/
theorem run_trimmed (hpasses : s.Passes Doc.isTidy IndentStep.isLineFree) (hs : s.Trimmed) :
    (s.run settings).Trimmed := by
  -- induction along the run, with both invariants
  fun_induction State.run settings s with
  | case1 s c rest hc ih =>
    have hcommands := hpasses.commands
    rw [hc, List.forall_mem_cons] at hcommands
    have hrest : State.Passes Doc.isTidy IndentStep.isLineFree { s with commands := rest } :=
      ⟨hcommands.2, hpasses.suffixes⟩
    exact ih (step_passes settings handsDown_isTidy hcommands.1 hrest)
      (step_trimmed settings hcommands.1 ⟨hs.unmarked, hs.lines⟩)
  | case2 s hc hnone => exact hs
  -- what is deferred passes, and the output is not touched
  | case3 s hc hsome ih =>
    rw [List.unattach_reverse, List.unattach_attach] at ih
    exact ih (hpasses.flush [] (by simp) rfl (by simp)) ⟨hs.unmarked, hs.lines⟩

/-- No line that rendering ends with a line feed ends in a space or a tab, if there are no marks and
no literal lines in the document and no line feeds in its texts and alignments. -/
theorem render_trimmed (settings : Settings) {d : Doc} (h : d.every Doc.isTidy = true) :
    ∀ line ∈ (splitAt '\n' (render settings d).toList).dropLast, endsBlank line = false := by
  -- nothing is printed yet: the text is one line, which is not ended
  have hstart : (State.start d).Trimmed := ⟨List.not_mem_nil, fun line hline => nomatch hline⟩
  exact (run_trimmed (passes_start handsDown_isTidy h) hstart).lines

/-- Blanks in a text, a line of nothing but its margin and a deferred part that ends in a blank: all
of them are at the end of a line. -/
def blankEnds : Doc :=
  .concat [.text "a \t", .indent (.concat [.line .hard, .text " ", .line .hard, .text "b"]),
    .lineSuffix (.text " // c "), .line .hard, .text "d "]

/-- Blanks are dropped before all line ends, also behind a deferred comment. -/
theorem render_trimmed_blankEnds :
    blankEnds.every Doc.isTidy = true ∧ render {} blankEnds = "a\n\n  b // c\nd " ∧
      ∀ line ∈ (splitAt '\n' (render {} blankEnds).toList).dropLast, endsBlank line = false :=
  ⟨by decide, by decide +kernel, render_trimmed {} (by decide)⟩

end Layout

end Reflow
