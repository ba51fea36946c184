import Mathlib.Data.List.DropRight
import Reflow.Layout.Render
import Reflow.Proofs.Text.Order
import Reflow.Proofs.Text.Solid

/-!
# What the layout engine prints

The output of the engine is a list of pieces, the last one first.  Where a line is ended, blanks at
the end of it are taken back and a margin is put behind the line end.

## Key results

- `charsOf_trimOutput`, `endsBlank_trimOutput`: only blanks are taken back, and without a mark all of
  them are
- `forall_margin`: the characters of a margin
-/

namespace Reflow.Layout

open Text (endsBlank)

variable {settings : Settings} {output : List Chunk}

/-- The text of the output is put together chunk by chunk. -/
theorem outputText_append (a b : List Chunk) :
    outputText (a ++ b) = outputText a ++ outputText b := by
  induction a with
  | nil => simp [outputText]
  | cons piece a ih => cases piece <;> simp [outputText, ih, String.append_assoc]

/-- The characters of an output. -/
def charsOf (output : List Chunk) : List Char := (outputText output.reverse).toList

/-- A text that is printed comes behind what was printed before. -/
theorem charsOf_text (t : String) (output : List Chunk) :
    charsOf (.text t :: output) = charsOf output ++ t.toList := by
  simp [charsOf, outputText_append, outputText]

/-- A mark has no characters. -/
theorem charsOf_cursor (output : List Chunk) : charsOf (.cursor :: output) = charsOf output := by
  simp [charsOf, outputText_append, outputText]

/-! ## Blanks at the end -/

/-- Only blanks are dropped at the end of the output. -/
theorem charsOf_trimOutput (output : List Chunk) : ∃ blanks,
    (∀ c ∈ blanks, Text.isBlank c = true) ∧
      charsOf output = charsOf (trimOutput output) ++ blanks := by
  induction output with
  | nil => exact ⟨[], nofun, rfl⟩
  | cons piece output ih =>
    cases piece with
    | cursor => exact ⟨[], nofun, (List.append_nil _).symm⟩
    | text s =>
      have hsplit : Text.dropEndWhile Text.isBlank s.toList ++ s.toList.rtakeWhile Text.isBlank =
          s.toList := List.rdropWhile_append_rtakeWhile
      have hblanks : ∀ c ∈ s.toList.rtakeWhile Text.isBlank, Text.isBlank c = true := fun c hc =>
        List.mem_rtakeWhile_imp hc
      obtain ⟨blanks, hall, hkept⟩ := ih
      simp only [trimOutput]
      split
      · -- a text of nothing but blanks goes, and the one in front of it is next
        rename_i hempty
        rw [List.isEmpty_iff.1 hempty, List.nil_append] at hsplit
        rw [hsplit] at hblanks
        refine ⟨blanks ++ s.toList, List.forall_mem_append.2 ⟨hall, hblanks⟩, ?_⟩
        rw [charsOf_text, hkept, List.append_assoc]
      · refine ⟨s.toList.rtakeWhile Text.isBlank, hblanks, ?_⟩
        rw [charsOf_text, charsOf_text, String.toList_ofList, List.append_assoc, hsplit]

/-- Without a mark all blanks at the end are dropped. -/
theorem endsBlank_trimOutput (h : .cursor ∉ output) :
    endsBlank (charsOf (trimOutput output)) = false := by
  -- induction on the output, from its last chunk back
  induction output with
  | nil => rfl
  | cons piece output ih =>
    cases piece with
    | cursor => exact absurd List.mem_cons_self h
    | text t =>
      simp only [trimOutput]
      -- a text of blanks is dropped, and the one before it is the last
      split
      · exact ih fun hmem => h (List.mem_cons_of_mem _ hmem)
      · -- a text that is kept ends in a character that is no blank
        rename_i hkept
        have hne : t.toList.rdropWhile Text.isBlank ≠ [] := fun hnil =>
          hkept (List.isEmpty_iff.2 hnil)
        have hlast := List.rdropWhile_last_not Text.isBlank t.toList hne
        rw [charsOf_text, String.toList_ofList]
        change endsBlank (_ ++ t.toList.rdropWhile Text.isBlank) = false
        rw [endsBlank, List.getLast?_append_of_ne_nil _ hne, List.getLast?_eq_some_getLast hne]
        simpa using hlast

/-- Trimming adds no mark. -/
theorem not_mem_trimOutput (h : .cursor ∉ output) : .cursor ∉ trimOutput output := by
  induction output with
  | nil => exact h
  | cons piece output ih =>
    have hrest : .cursor ∉ output := fun hmem => h (List.mem_cons_of_mem _ hmem)
    cases piece with
    | cursor => exact absurd List.mem_cons_self h
    | text t =>
      simp only [trimOutput]
      split
      · exact ih hrest
      · simpa using hrest

/-! ## Margins -/

section Margin

variable {r : Char → Prop}

/-- Spaces are spaces. -/
theorem forall_spaces (hspace : r ' ') (n : Int) : ∀ a ∈ (spaces n).toList, r a := by
  intro a ha
  obtain rfl : a = ' ' := by simpa using Text.mem_of_mem_repeated ha
  exact hspace

/-- What is pending is made of spaces and tabs. -/
theorem forall_flush (settings : Settings) (hspace : r ' ') (htab : r '\t') {u : Unfinished}
    (hu : ∀ a ∈ u.text.toList, r a) : ∀ a ∈ (u.flush settings).text.toList, r a := by
  have htabs : ∀ a ∈ (Text.repeated u.pending.steps "\t").toList, r a := fun a ha => by
    obtain rfl : a = '\t' := by simpa using Text.mem_of_mem_repeated ha
    exact htab
  unfold Unfinished.flush
  split
  · simpa [or_imp, forall_and] using ⟨hu, htabs⟩
  · simpa [or_imp, forall_and] using ⟨hu, forall_spaces hspace _⟩

/-- A step of the indentation adds spaces, tabs and its text. -/
theorem forall_add (hspace : r ' ') (htab : r '\t') {u : Unfinished}
    (hu : ∀ a ∈ u.text.toList, r a) {step : IndentStep}
    (hstep : ∀ text, step = .text text → ∀ a ∈ text.toList, r a) :
    ∀ a ∈ (u.add settings step).text.toList, r a := by
  have hflush := forall_flush settings hspace htab hu
  -- a step of a text adds its characters, a unit adds tabs or blanks
  cases step with
  | unit =>
    have hunit : ∀ a ∈ (if settings.useTabs then "\t" else spaces settings.tabWidth).toList,
        r a := by
      split
      · simpa using htab
      · exact forall_spaces hspace _
    rw [Unfinished.add, String.toList_append]
    exact List.forall_mem_append.2 ⟨hflush, hunit⟩
  | text s =>
    rw [Unfinished.add, String.toList_append]
    exact List.forall_mem_append.2 ⟨hflush, hstep s rfl⟩
  | columns n => exact hu

/-- The characters of a margin are spaces, tabs and those of the texts among its steps. -/
theorem forall_margin (settings : Settings) (hspace : r ' ') (htab : r '\t') {i : Indentation}
    (hi : ∀ text, .text text ∈ i.steps → ∀ a ∈ text.toList, r a) :
    ∀ a ∈ (i.margin settings).text.toList, r a := by
  obtain ⟨steps⟩ := i
  have hsteps : ∀ a ∈ (steps.foldr (fun step u => Unfinished.add settings u step)
      ({} : Unfinished)).text.toList, r a := by
    -- the steps are added from the innermost on
    induction steps with
    | nil => simp
    | cons step steps ih =>
      apply forall_add hspace htab (ih fun text htext => hi text (List.mem_cons_of_mem _ htext))
      rintro text rfl
      exact hi text List.mem_cons_self
  rw [Indentation.margin, String.toList_append]
  exact List.forall_mem_append.2 ⟨hsteps, forall_spaces hspace _⟩

end Margin

end Reflow.Layout
