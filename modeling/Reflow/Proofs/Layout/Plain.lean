import Reflow.Proofs.Layout.Order
import Reflow.Proofs.Layout.Output

/-!
# Texts and hard lines

A document of texts and hard lines leaves the layout engine nothing to choose: its text follows from
the document, whatever the width.  Every line takes back the blanks in front of it and goes to the
margin.

## Key results

- `Typesets`: the text that such documents make of another
- `Typesets.run`: the engine makes the same text
- `toList_render`: what is rendered
- `Puts`, `PutsBehind`: documents that put the same behind every text
-/

namespace Reflow.Layout

open Text (endsBlank)

/-- Documents, put at an indentation behind a text, make another text of it. -/
inductive Typesets (settings : Settings) : Indentation → List Char → List Doc → List Char → Prop
  | nil (i : Indentation) (out : List Char) : Typesets settings i out [] out
  | text {i : Indentation} {out result : List Char} {s : String} {rest : List Doc}
    (h : Typesets settings i (out ++ s.toList) rest result) :
    Typesets settings i out (.text s :: rest) result
  | line {i : Indentation} {out result : List Char} {rest : List Doc}
    (h : Typesets settings i
      (Text.dropEndWhile Text.isBlank out ++ '\n' :: (i.margin settings).text.toList) rest result) :
    Typesets settings i out (.line .hard :: rest) result
  | breakParent {i : Indentation} {out result : List Char} {rest : List Doc}
    (h : Typesets settings i out rest result) : Typesets settings i out (.breakParent :: rest) result
  | concat {i : Indentation} {out result : List Char} {parts rest : List Doc}
    (h : Typesets settings i out (parts ++ rest) result) :
    Typesets settings i out (.concat parts :: rest) result
  | indent {i : Indentation} {out mid result : List Char} {body : Doc} {rest : List Doc}
    (hbody : Typesets settings i.indent out [body] mid)
    (h : Typesets settings i mid rest result) : Typesets settings i out (.indent body :: rest) result

namespace Typesets

variable {settings : Settings} {i : Indentation} {out mid result : List Char} {a b ds : List Doc}
  {d : Doc}

/-- Documents are typeset one behind the other. -/
theorem append (ha : Typesets settings i out a mid) (hb : Typesets settings i mid b result) :
    Typesets settings i out (a ++ b) result := by
  induction ha with
  | nil => exact hb
  | text _ ih => exact .text (ih hb)
  | line _ ih => exact .line (ih hb)
  | breakParent _ ih => exact .breakParent (ih hb)
  | concat _ ih =>
    have hall := ih hb
    rw [List.append_assoc] at hall
    exact .concat hall
  | indent hbody _ _ ih => exact .indent hbody (ih hb)

/-- Two documents are typeset by way of a text between. -/
theorem split (h : Typesets settings i out (a ++ b) result) : ∃ mid,
    Typesets settings i out a mid ∧ Typesets settings i mid b result := by
  -- induction on how the whole list is set, with the border somewhere in it
  generalize hall : a ++ b = all at h
  induction h generalizing a with
  | nil i out =>
    obtain ⟨rfl, rfl⟩ := List.append_eq_nil_iff.1 hall
    exact ⟨out, .nil i out, .nil i out⟩
  | @text i out result s rest h ih =>
    -- the border is in front of the document, or in what follows it
    rcases List.append_eq_cons_iff.1 hall with ⟨rfl, rfl⟩ | ⟨a, rfl, heq⟩
    · exact ⟨out, .nil i out, .text h⟩
    · obtain ⟨mid, ha, hb⟩ := ih heq.symm
      exact ⟨mid, .text ha, hb⟩
  | @line i out result rest h ih =>
    rcases List.append_eq_cons_iff.1 hall with ⟨rfl, rfl⟩ | ⟨a, rfl, heq⟩
    · exact ⟨out, .nil i out, .line h⟩
    · obtain ⟨mid, ha, hb⟩ := ih heq.symm
      exact ⟨mid, .line ha, hb⟩
  | @breakParent i out result rest h ih =>
    rcases List.append_eq_cons_iff.1 hall with ⟨rfl, rfl⟩ | ⟨a, rfl, heq⟩
    · exact ⟨out, .nil i out, .breakParent h⟩
    · obtain ⟨mid, ha, hb⟩ := ih heq.symm
      exact ⟨mid, .breakParent ha, hb⟩
  | @concat i out result parts rest h ih =>
    rcases List.append_eq_cons_iff.1 hall with ⟨rfl, rfl⟩ | ⟨a, rfl, heq⟩
    · exact ⟨out, .nil i out, .concat h⟩
    · -- the parts stand in front of what is left of the first list
      obtain ⟨mid, ha, hb⟩ := @ih (parts ++ a) (by rw [heq, List.append_assoc])
      exact ⟨mid, .concat ha, hb⟩
  | @indent i out mid result body rest hbody h _ ih =>
    rcases List.append_eq_cons_iff.1 hall with ⟨rfl, rfl⟩ | ⟨a, rfl, heq⟩
    · exact ⟨out, .nil i out, .indent hbody h⟩
    · obtain ⟨mid, ha, hb⟩ := ih heq.symm
      exact ⟨mid, .indent hbody ha, hb⟩

/-- An empty document leaves the text as it is. -/
theorem eq_of_isEmpty (hd : d.isEmpty = true) (h : Typesets settings i out [d] result) :
    result = out := by
  cases h with
  -- an empty text adds nothing
  | @text _ _ _ s _ h =>
    have hs : s = "" := by simpa [Doc.isEmpty] using hd
    cases h
    simp [hs]
  | line | breakParent | indent => cases hd
  -- a list that is empty has no part
  | @concat _ _ _ parts _ h =>
    cases parts with
    | nil =>
      cases h
      rfl
    | cons => cases hd

/-- Empty parts can be dropped. -/
theorem cat (h : Typesets settings i out ds result) : Typesets settings i out [.cat ds] result := by
  apply Typesets.concat
  rw [List.append_nil]
  -- the parts that are empty are left out, and they add nothing
  induction ds generalizing out with
  | nil => exact h
  | cons d ds ih =>
    rw [← List.singleton_append] at h
    obtain ⟨mid, hd, hds⟩ := h.split
    rw [List.filter_cons]
    split
    · exact hd.append (ih hds)
    · rename_i hempty
      have hmid := eq_of_isEmpty (by simpa using hempty) hd
      rw [← hmid]
      exact ih hds

/-- Breaking groups changes nothing. -/
theorem spreadAll (h : Typesets settings i out ds result) :
    Typesets settings i out (Doc.spreadAll false ds).1 result := by
  induction h with
  | nil i out => exact .nil i out
  | text _ ih => exact .text ih
  | line _ ih => exact .line ih
  | breakParent _ ih => exact .breakParent ih
  | concat _ ih =>
    rw [Bears.spreadAll_append] at ih
    exact .concat ih
  | indent _ _ ihbody ih => exact .indent ihbody ih

end Typesets

/-! ## Runs -/

variable {settings : Settings} {i : Indentation} {out result : List Char} {ds : List Doc}

/-- Blanks behind a text that ends in none are all that is dropped. -/
theorem dropEndWhile_blanks {blanks : List Char} (hout : endsBlank out = false)
    (hblanks : ∀ c ∈ blanks, Text.isBlank c = true) :
    Text.dropEndWhile Text.isBlank (out ++ blanks) = out := by
  show List.rdropWhile Text.isBlank (out ++ blanks) = out
  rw [List.rdropWhile, List.reverse_append, List.dropWhile_append_of_pos (by simpa using hblanks)]
  apply List.rdropWhile_eq_self_iff.2
  intro hne
  simpa [endsBlank, List.getLast?_eq_some_getLast hne] using hout

/-- Where no mark stands, all blanks at the end of the output are dropped. -/
theorem charsOf_trimOutput_eq {output : List Chunk} (h : .cursor ∉ output) :
    charsOf (trimOutput output) = Text.dropEndWhile Text.isBlank (charsOf output) := by
  obtain ⟨blanks, hblanks, hsplit⟩ := charsOf_trimOutput output
  rw [hsplit, dropEndWhile_blanks (endsBlank_trimOutput h) hblanks]

/-- The engine has written a text; there is no mark in it and nothing is put off. -/
structure State.Wrote (s : State) (out : List Char) : Prop where
  suffixes : s.suffixes = []
  noCursor : .cursor ∉ s.output
  chars : charsOf s.output = out

/-- What was written does not depend on what is to be done. -/
theorem State.Wrote.on {s : State} (hs : s.Wrote out) (commands : List Command) :
    ({ s with commands } : State).Wrote out :=
  ⟨hs.suffixes, hs.noCursor, hs.chars⟩

/-- A text is written behind what was written. -/
theorem State.Wrote.text {s : State} (hs : s.Wrote out) (i : Indentation) (mode : Mode)
    (text : String) :
    (s.step settings ⟨i, mode, .text text⟩).Wrote (out ++ text.toList) := by
  refine ⟨hs.suffixes, ?_, ?_⟩
  · simpa [State.step] using hs.noCursor
  · simp [State.step, charsOf_text, hs.chars]

/-- A hard line drops the blanks in front of it and writes the margin. -/
theorem step_hard {s : State} (hs : s.suffixes = []) (i : Indentation) (mode : Mode) :
    s.step settings ⟨i, mode, .line .hard⟩ = { s with
      remeasure := mode = .flat || s.remeasure
      output := .text ("\n" ++ (i.margin settings).text) :: trimOutput s.output
      column := (i.margin settings).columns } := by
  change (if mode = .flat && !LineKind.hard.isHard then _ else _) = _
  rw [if_neg (by simp [LineKind.isHard]), breakLine_ends hs]
  rfl

/-- So the line ends without blanks, and the next one starts at the margin. -/
theorem State.Wrote.line {s : State} (hs : s.Wrote out) (i : Indentation) (mode : Mode) :
    (s.step settings ⟨i, mode, .line .hard⟩).Wrote
      (Text.dropEndWhile Text.isBlank out ++ '\n' :: (i.margin settings).text.toList) := by
  rw [step_hard hs.suffixes]
  refine ⟨hs.suffixes, ?_, ?_⟩
  · simpa using not_mem_trimOutput hs.noCursor
  · simp [charsOf_text, charsOf_trimOutput_eq hs.noCursor, hs.chars]

/-- The engine makes of its output what the documents on top of its stack make of it. -/
theorem Typesets.run (h : Typesets settings i out ds result) {s : State} {rest : List Command}
    {mode : Mode} (hcommands : s.commands = ds.map (⟨i, mode, ·⟩) ++ rest) (hs : s.Wrote out) :
    ∃ t : State, t.commands = rest ∧ t.Wrote result ∧ s.run settings = t.run settings := by
  -- induction on how the documents are set, one step of the run for each
  induction h generalizing s rest with
  | nil => exact ⟨s, hcommands, hs, rfl⟩
  | @text i _ _ _ _ _ ih =>
    rw [State.run_cons hcommands]
    refine ih ?_ ((hs.on _).text i mode _)
    rfl
  -- a hard line trims the output, because nothing is deferred
  | @line i _ _ _ _ ih =>
    rw [State.run_cons hcommands]
    refine ih ?_ ((hs.on _).line i mode)
    rw [step_hard (hs.on _).suffixes]
    rfl
  | breakParent _ ih =>
    rw [State.run_cons hcommands]
    refine ih ?_ (hs.on _)
    rfl
  | concat _ ih =>
    rw [State.run_cons hcommands]
    refine ih ?_ (hs.on _)
    simp [State.step, pushParts, Command.on]
  | @indent i out mid result body ds _ _ ihbody ih =>
    -- the body is carried out at its own indentation, and then what follows it
    rw [State.run_cons hcommands]
    obtain ⟨t, ht, hwrote, hrun⟩ :=
      ihbody (s := { s with commands := ⟨i.indent, mode, body⟩ :: (ds.map (⟨i, mode, ·⟩) ++ rest) })
        rfl (hs.on _)
    obtain ⟨t', ht', hwrote', hrun'⟩ := ih ht hwrote
    exact ⟨t', ht', hwrote', hrun.trans hrun'⟩

/-- A document of texts and hard lines is rendered as the text that it makes. -/
theorem toList_render {d : Doc} (h : Typesets settings {} [] [d] result) :
    (render settings d).toList = result := by
  have hstart : (State.start d).commands = [d.breakGroups].map (⟨{}, .broken, ·⟩) ++ [] := rfl
  obtain ⟨t, ht, hwrote, hrun⟩ := h.spreadAll.run hstart ⟨rfl, nofun, rfl⟩
  rw [State.run_nil ht hwrote.suffixes] at hrun
  rw [render, renderWithCursor, chunks, hrun]
  exact hwrote.chars

/-! ## What is put behind a text -/

/-- Behind every text the documents put the same. -/
def Puts (settings : Settings) (i : Indentation) (ds : List Doc) (back : List Char) : Prop :=
  ∀ out, Typesets settings i out ds (out ++ back)

/-- Behind every text that does not end in a blank the documents put the same. -/
def PutsBehind (settings : Settings) (i : Indentation) (ds : List Doc) (back : List Char) : Prop :=
  ∀ out, endsBlank out = false → Typesets settings i out ds (out ++ back)

variable {a b : List Doc} {s t : List Char}

/-- The end of two texts is that of the second, unless that is empty. -/
theorem endsBlank_append_of_ne_nil (ht : t ≠ []) : endsBlank (s ++ t) = endsBlank t := by
  rw [endsBlank, endsBlank, List.getLast?_append_of_ne_nil s ht]

/-- Two texts that do not end blank do not together. -/
theorem endsBlank_append_of_not (hs : endsBlank s = false) (ht : endsBlank t = false) :
    endsBlank (s ++ t) = false := by
  by_cases hne : t = []
  · rwa [hne, List.append_nil]
  · rwa [endsBlank_append_of_ne_nil hne]

namespace Puts

/-- A text puts its characters. -/
theorem text (settings : Settings) (i : Indentation) (s : String) :
    Puts settings i [.text s] s.toList := fun _ => .text (.nil ..)

/-- Texts are put one behind the other. -/
theorem texts (settings : Settings) (i : Indentation) (ss : List String) :
    Puts settings i (ss.map .text) (ss.flatMap String.toList) := by
  intro out
  induction ss generalizing out with
  | nil =>
    rw [List.flatMap_nil, List.append_nil]
    exact .nil ..
  | cons s ss ih =>
    rw [List.flatMap_cons, ← List.append_assoc]
    exact .text (ih _)

/-- Documents put their characters one behind the other. -/
theorem append (ha : Puts settings i a s) (hb : Puts settings i b t) :
    Puts settings i (a ++ b) (s ++ t) := by
  intro out
  rw [← List.append_assoc]
  exact (ha out).append (hb _)

/-- A sequence puts what its parts put. -/
theorem cat (h : Puts settings i ds t) : Puts settings i [.cat ds] t := fun out => (h out).cat

/-- Texts are joined by what is put for the separator. -/
theorem join {separator : Doc} (hgap : Puts settings i [separator] t) (ss : List String) :
    Puts settings i [.join separator (ss.map .text)] (t.intercalate (ss.map String.toList)) := by
  -- enough for the documents with the separator between them, which `cat` puts together
  suffices h : Puts settings i ((ss.map Doc.text).intersperse separator)
      (t.intercalate (ss.map String.toList)) from h.cat
  induction ss with
  | nil => exact texts settings i []
  | cons s ss ih =>
    -- the separator stands only before another text
    cases ss with
    | nil => simpa [List.intercalate] using texts settings i [s]
    | cons s' ss =>
      rw [List.map_cons, List.map_cons, List.intersperse_cons_cons, List.map_cons, List.map_cons,
        List.intercalate_cons_cons]
      have hall := (text settings i s).append (hgap.append ih)
      simpa using hall

/-- What is put behind a text that does not end in a blank may follow such a text. -/
theorem append_behind (ha : Puts settings i a s) (hne : s ≠ []) (hs : endsBlank s = false)
    (hb : PutsBehind settings i b t) : Puts settings i (a ++ b) (s ++ t) := by
  intro out
  rw [← List.append_assoc]
  refine (ha out).append (hb _ ?_)
  rw [endsBlank_append_of_ne_nil hne, hs]

end Puts

namespace PutsBehind

/-- Nothing is put behind a text by no documents. -/
theorem nil (settings : Settings) (i : Indentation) : PutsBehind settings i [] [] := by
  intro out _
  rw [List.append_nil]
  exact .nil ..

/-- What is put behind a text that was put behind another. -/
theorem append (ha : PutsBehind settings i a s) (hs : endsBlank s = false)
    (hb : PutsBehind settings i b t) : PutsBehind settings i (a ++ b) (s ++ t) := by
  intro out hout
  rw [← List.append_assoc]
  exact (ha out hout).append (hb _ (endsBlank_append_of_not hout hs))

/-- What may stand anywhere may stand behind a text. -/
theorem append_puts (ha : PutsBehind settings i a s) (hb : Puts settings i b t) :
    PutsBehind settings i (a ++ b) (s ++ t) := by
  intro out hout
  rw [← List.append_assoc]
  exact (ha out hout).append (hb _)

/-- A sequence puts behind a text what its parts do. -/
theorem cat (h : PutsBehind settings i ds t) : PutsBehind settings i [.cat ds] t :=
  fun out hout => (h out hout).cat

/-- So does an indented document, at its own margin. -/
theorem indent {d : Doc} (h : PutsBehind settings i.indent [d] t) :
    PutsBehind settings i [.indent d] t :=
  fun out hout => .indent (h out hout) (.nil ..)

/-- A hard line puts a line end and the margin. -/
theorem hardline (settings : Settings) (i : Indentation) :
    PutsBehind settings i [.hardline] ('\n' :: (i.margin settings).text.toList) := by
  intro out hout
  have hkept : Text.dropEndWhile Text.isBlank out = out := by
    have hnone : ∀ c ∈ [], Text.isBlank c = true := nofun
    simpa using dropEndWhile_blanks hout hnone
  apply Typesets.concat
  apply Typesets.line
  rw [hkept]
  exact .breakParent (.nil ..)

/-- The margin of an empty line is taken back. -/
theorem emptyLine (hmargin : ∀ c ∈ (i.margin settings).text.toList, Text.isBlank c = true) :
    PutsBehind settings i [.hardline, .hardline]
      ('\n' :: '\n' :: (i.margin settings).text.toList) := by
  intro out hout
  -- the second break trims the margin that the first one wrote
  have hfirst := hardline settings i out hout
  have hline : endsBlank (out ++ ['\n']) = false := by
    rw [endsBlank_append_of_ne_nil (by simp)]
    decide
  have hsecond : Typesets settings i (out ++ '\n' :: (i.margin settings).text.toList) [.hardline]
      (out ++ '\n' :: '\n' :: (i.margin settings).text.toList) := by
    have hkept := dropEndWhile_blanks hline hmargin
    rw [List.append_assoc, List.singleton_append] at hkept
    apply Typesets.concat
    apply Typesets.line
    rw [hkept, List.append_assoc, List.singleton_append]
    exact .breakParent (.nil ..)
  exact hfirst.append hsecond

end PutsBehind

/-- No step of the indentation is a text. -/
def Indentation.IsPlain (i : Indentation) : Prop := ∀ text, IndentStep.text text ∉ i.steps

/-- An indented margin stays plain. -/
theorem Indentation.IsPlain.indent (h : i.IsPlain) : i.indent.IsPlain := by
  intro text htext
  rcases List.mem_cons.1 htext with heq | htext
  · cases heq
  · exact h text htext

/-- A plain margin is blank. -/
theorem Indentation.IsPlain.margin (h : i.IsPlain) (settings : Settings) :
    ∀ c ∈ (i.margin settings).text.toList, Text.isBlank c = true :=
  forall_margin settings (by decide) (by decide) fun text htext => absurd htext (h text)

end Reflow.Layout
