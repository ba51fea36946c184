import Reflow.Proofs.Doc.Breaks
import Reflow.Proofs.Layout.Width

/-!
# Fills wrap words greedily

A fill of words that are separated by spaces is laid out as by hand: each word goes on the line if
there is room for it behind a space, and on a new line otherwise.  The engine decides about a
separator when it comes to the content in front of it, by measuring that content, the separator and
the next content together.

## Key results

- `fits_word`, `fits_pair`: what the two measurements of a fill come to
- `run_fill`: a fill of words behind any column
- `render_fill_words`: the statement about documents
-/

namespace Reflow.Layout

/-- Words behind a column: each goes on the line, behind a space, if it ends within the width there,
and on a new line otherwise. -/
def wrapBehind (settings : Settings) (column : Int) : List String → String
  | [] => ""
  | w :: rest =>
    let columns := Text.columns settings.tabWidth w
    if column + 1 + columns ≤ settings.width then
      " " ++ w ++ wrapBehind settings (column + 1 + columns) rest
    else "\n" ++ w ++ wrapBehind settings columns rest

/-- Words from the start of a line on. -/
def wrap (settings : Settings) : List String → String
  | [] => ""
  | w :: rest => w ++ wrapBehind settings (Text.columns settings.tabWidth w) rest

/-- A text that is not empty and has no space, tab or line end in it. -/
structure IsWord (w : String) : Prop where
  nonempty : w ≠ ""
  solid : ∀ c ∈ w.toList, c ≠ ' ' ∧ c ≠ '\t' ∧ c ≠ '\n'

/-- Words with spaces between them that may become line ends. -/
def spaced (words : List String) : List Doc := (words.map Doc.text).intersperse .space

@[simp] theorem spaced_cons (w v : String) (rest : List String) :
    spaced (w :: v :: rest) = .text w :: .space :: spaced (v :: rest) := rfl

/-- A word holds no line end. -/
theorem IsWord.newline {w : String} (h : IsWord w) : '\n' ∉ w.toList :=
  fun hmem => (h.solid _ hmem).2.2 rfl

/-- Only a tab may take less than no columns. -/
theorem columns_nonneg {tabWidth : Int} {cs : List Char} (h : '\t' ∉ cs) :
    0 ≤ Text.charsColumns tabWidth cs := by
  induction cs with
  | nil => exact Int.le_refl 0
  | cons c cs ih =>
    obtain ⟨hc, hcs⟩ := List.ne_and_not_mem_of_not_mem_cons h
    -- a character that is no tab has no negative width
    have hrest := ih hcs
    have hfirst : 0 ≤ Text.charColumns tabWidth c := by
      rw [Text.charColumns, if_neg hc.symm]
      split
      · exact Int.le_refl 0
      split <;> decide
    simp only [Text.charsColumns]
    omega

/-- A word is not narrower than nothing. -/
theorem IsWord.columns_nonneg {w : String} (h : IsWord w) (tabWidth : Int) :
    0 ≤ Text.columns tabWidth w :=
  Layout.columns_nonneg fun hmem => (h.solid _ hmem).2.1 rfl

/-- No blanks are dropped behind a word. -/
theorem IsWord.trimOutput {w : String} (h : IsWord w) (output : List Chunk) :
    trimOutput (.text w :: output) = .text w :: output := by
  have hlast : ∀ c ∈ w.toList.reverse.head?, Text.isBlank c = false := by
    -- the last character of a word is no blank, so that nothing is trimmed
    intro c hc
    have hmem := List.mem_reverse.1 (List.mem_of_head? hc)
    simp [Text.isBlank, h.solid c hmem]
  have hkept : Text.dropEndWhile Text.isBlank w.toList = w.toList := by
    rw [Text.dropEndWhile]
    cases hrev : w.toList.reverse with
    | nil => simpa using hrev.symm
    | cons c cs =>
      rw [List.dropWhile_cons_of_neg (by simp [hlast c (by simp [hrev])]), ← hrev,
        List.reverse_reverse]
  have hne : w.toList ≠ [] := by simpa using h.nonempty
  simp [Layout.trimOutput, hkept, hne, String.ofList_toList]

/-! ## Measuring -/

section Measuring

variable {tabWidth : Int} {p : Probe} {c : Command} {rest : List Command} {w v : String}

/-- A text without line ends takes its columns. -/
theorem fits_text (hw : '\n' ∉ w.toList) (hc : p.commands = c.as .flat (.text w) :: rest) :
    p.fits tabWidth true = (decide (0 ≤ p.width) && Probe.fits tabWidth true
      { p with commands := rest, width := p.width - Text.columns tabWidth w }) := by
  rw [Probe.fits_cons hc]
  simp [Probe.step, Command.as, hw, takeWhile_ne_newline hw, Text.columns]

/-- A flat space takes a column. -/
theorem fits_space (hc : p.commands = c.as .flat .space :: rest) :
    p.fits tabWidth true = (decide (0 ≤ p.width) && Probe.fits tabWidth true
      { p with commands := rest, width := p.width - 1 }) := by
  rw [Probe.fits_cons hc]
  simp [Probe.step, Command.as, Doc.space, LineKind.isHard]

/-- A word and the next one have room for both and for the space between them. -/
theorem fits_pair (settings : Settings) (column : Int) (c : Command) (hw : IsWord w)
    (hv : IsWord v) :
    (fillProbe settings column c [.text w, .space, .text v]).fits settings.tabWidth true =
      decide (column + Text.columns settings.tabWidth w + 1 + Text.columns settings.tabWidth v ≤
        settings.width) := by
  have hw' := hw.columns_nonneg settings.tabWidth
  have hv' := hv.columns_nonneg settings.tabWidth
  rw [fits_text hw.newline rfl, fits_space rfl, fits_text hv.newline rfl, Probe.fits_nil rfl,
    Bool.eq_iff_iff]
  -- a later check implies all earlier ones, for nothing takes less than no columns
  simp only [Bool.and_eq_true, decide_eq_true_eq]
  simp only [fillProbe]
  omega

end Measuring

/-! ## Printing -/

section Printing

variable {settings : Settings} {c : Command} {rest : List Command} {column : Int}
  {output : List Chunk} {remeasure : Bool}

/-- A word is printed in the same way whether it is flat or broken. -/
theorem run_word {w : String} (hw : IsWord w) (mode : Mode) :
    State.run settings { commands := c.as mode (.text w) :: rest, column, output, remeasure } =
      State.run settings
        { commands := rest
          column := column + Text.columns settings.tabWidth w
          output := .text w :: output
          remeasure } := by
  rw [State.run_cons rfl]
  simp [State.step, Command.as, columnAfter_eq hw.newline, Text.columns]

/-- A flat space prints a space. -/
theorem run_flat_space :
    State.run settings { commands := c.as .flat .space :: rest, column, output, remeasure } =
      State.run settings
        { commands := rest, column := column + 1, output := .text " " :: output, remeasure } := by
  rw [State.run_cons rfl]
  simp [State.step, Command.as, Doc.space, LineKind.isHard]

/-- Behind a word nothing is dropped when the line ends. -/
theorem run_broken_space {w : String} (hw : IsWord w) (hmargin : c.indentation = {}) :
    State.run settings
        { commands := c.as .broken .space :: rest
          column
          output := .text w :: output
          remeasure } =
      State.run settings
        { commands := rest, output := .text "\n" :: .text w :: output, remeasure } := by
  rw [State.run_cons rfl]
  simp [State.step, Command.as, Doc.space, LineKind.isHard, breakLine_ends, hw.trimOutput, hmargin,
    Indentation.margin, spaces, Text.repeated]

/-- A fill becomes its commands. -/
theorem run_fillCommands (parts : List Doc) :
    State.run settings
        { commands := c.on (.fill parts) :: rest, column, output, remeasure } =
      State.run settings
        { commands := fillCommands settings column (c.on (.fill parts)) parts ++ rest
          column
          output
          remeasure } := by
  rw [State.run_cons rfl]
  rfl

variable (settings c column) in
/-- The separator behind a word is flat if the next word has room. -/
theorem fillCommands_words {w v : String} (hw : IsWord w) (hv : IsWord v) (d : Doc)
    (words : List String) :
    ∃ mode, fillCommands settings column (c.on d) (spaced (w :: v :: words)) =
      [c.as mode (.text w),
        c.as (if column + Text.columns settings.tabWidth w + 1 +
          Text.columns settings.tabWidth v ≤ settings.width then .flat else .broken) .space,
        c.on (.fill (spaced (v :: words)))] := by
  -- the second word is the first part of what is left
  obtain ⟨parts, hparts⟩ : ∃ parts, spaced (v :: words) = .text v :: parts := by
    cases words <;> exact ⟨_, rfl⟩
  have hpair := fits_pair settings column (c.on d) hw hv
  rw [spaced_cons, hparts]
  simp only [fillCommands, hpair, decide_eq_true_eq]
  -- the pair is measured, and the blank between the words takes its mode
  by_cases hroom : column + Text.columns settings.tabWidth w + 1 +
      Text.columns settings.tabWidth v ≤ settings.width
  · rw [if_pos hroom, if_pos hroom]
    exact ⟨.flat, rfl⟩
  · rw [if_neg hroom, if_neg hroom]
    exact ⟨_, rfl⟩

/-- What a fill of words prints behind a column. -/
theorem run_fill (w : String) (words : List String) (hwords : ∀ v ∈ w :: words, IsWord v)
    (hmargin : c.indentation = {}) :
    outputText (State.run settings
        { commands := [c.on (.fill (spaced (w :: words)))], column, output, remeasure }
      ).output.reverse =
      outputText output.reverse ++
        (w ++ wrapBehind settings (column + Text.columns settings.tabWidth w) words) := by
  induction words generalizing w column output with
  | nil =>
    have hw := hwords w List.mem_cons_self
    obtain ⟨mode, hcommands⟩ : ∃ mode, fillCommands settings column
        (c.on (.fill (spaced [w]))) (spaced [w]) = [c.as mode (.text w)] := ⟨_, rfl⟩
    rw [run_fillCommands, hcommands, List.append_nil, run_word hw, State.run_nil rfl rfl]
    simp [outputText_append, outputText, wrapBehind]
  | cons v words ih =>
    have hw := hwords w List.mem_cons_self
    have hv := hwords v (List.mem_cons_of_mem _ List.mem_cons_self)
    have hrest : ∀ u ∈ v :: words, IsWord u := fun u hu => hwords u (List.mem_cons_of_mem _ hu)
    obtain ⟨mode, hcommands⟩ := fillCommands_words settings c column hw hv
      (.fill (spaced (w :: v :: words))) words
    rw [run_fillCommands, hcommands, List.append_nil, run_word hw]
    -- the rest of the fill starts behind the separator
    by_cases hroom : column + Text.columns settings.tabWidth w + 1 +
        Text.columns settings.tabWidth v ≤ settings.width
    · rw [if_pos hroom, run_flat_space, ih v hrest]
      simp [outputText_append, outputText, wrapBehind, hroom, String.append_assoc]
    · rw [if_neg hroom, run_broken_space hw hmargin, ih v hrest]
      simp [outputText_append, outputText, wrapBehind, hroom, String.append_assoc]

end Printing

/-- Words with spaces between them do not break by themselves. -/
theorem anyWillBreak_spaced (words : List String) : Doc.anyWillBreak (spaced words) = false := by
  induction words with
  | nil => rfl
  | cons w words ih =>
    cases words with
    | nil => rfl
    | cons v words => simpa [Doc.anyWillBreak, Doc.willBreak, Doc.space, LineKind.isHard] using ih

/-- A fill of words that are separated by spaces is laid out greedily: the first word stands at the
start of the line, and each further one stands on the line behind a space if it ends within the
width there, and on a new line otherwise. -/
theorem render_fill_words (settings : Settings) (words : List String)
    (hwords : ∀ w ∈ words, IsWord w) :
    render settings (.fill (spaced words)) = wrap settings words := by
  -- no mark is set, because words and blanks hold no break
  have hgroups : Doc.breakGroups (.fill (spaced words)) = .fill (spaced words) :=
    Doc.breakGroups_of_willBreak (anyWillBreak_spaced words)
  rw [render, renderWithCursor, chunks, State.start, hgroups]
  cases words with
  -- without a word the fill is empty
  | nil =>
    have hstart : State.run settings { commands := [⟨{}, .broken, .fill []⟩] } =
        State.run settings { commands := [] } :=
      run_fillCommands (c := ⟨{}, .broken, .fill []⟩) []
    simp only [spaced, List.map_nil, List.intersperse_nil]
    rw [hstart, State.run_nil rfl rfl]
    rfl
  | cons w words =>
    refine (run_fill (c := ⟨{}, .broken, .fill []⟩) w words hwords rfl).trans ?_
    simp [outputText, wrap]

/-- In seven columns a word of three and one of two go on a line; the next one would need an eighth
column. -/
theorem render_fill_words_three :
    (∀ w ∈ ["aaa", "bb", "cc"], IsWord w) ∧
    render { width := 7 } (.fill (spaced ["aaa", "bb", "cc"])) =
      wrap { width := 7 } ["aaa", "bb", "cc"] ∧
    wrap { width := 7 } ["aaa", "bb", "cc"] = "aaa bb\ncc" := by
  have hwords : ∀ w ∈ ["aaa", "bb", "cc"], IsWord w := by
    simp only [List.forall_mem_cons, List.not_mem_nil, false_implies, implies_true, and_true]
    exact ⟨⟨by decide, by simp⟩, ⟨by decide, by simp⟩, ⟨by decide, by simp⟩⟩
  exact ⟨hwords, render_fill_words _ _ hwords, by decide +kernel⟩

end Reflow.Layout
