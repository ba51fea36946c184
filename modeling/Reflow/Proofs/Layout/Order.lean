import Reflow.Layout.Render
import Reflow.Proofs.Layout.Run
import Reflow.Proofs.Layout.Width
import Reflow.Proofs.Text.Order

/-!
# Texts stand in order

A document of texts and lines is laid out from its first text to its last, and all that happens to
what was written is that blanks at the ends of lines are dropped.  So whatever stands in its texts
and ends in no blank stands in the output, in the same order.

## Key results

- `Bears`: what stands in the texts of a stack of documents
- `step_bears`, `visits_bears`: a step, and a run, write what the stack bears
- `render_bears`: what stands in a document stands in its output
-/

namespace Reflow.Layout

open Text (InOrder EndsSolid)

/-- What stands in the texts of documents of texts and lines that are laid out one after the
other. -/
inductive Bears : List Doc → List (List Char) → Prop
  | nil : Bears [] []
  | text {s : String} {ts us : List (List Char)} {ds : List Doc} (h : InOrder ts s.toList)
    (hts : ∀ t ∈ ts, EndsSolid t) (hds : Bears ds us) : Bears (.text s :: ds) (ts ++ us)
  | line (kind : LineKind) {ds : List Doc} {ts : List (List Char)} (hds : Bears ds ts) :
    Bears (.line kind :: ds) ts
  | breakParent {ds : List Doc} {ts : List (List Char)} (hds : Bears ds ts) :
    Bears (.breakParent :: ds) ts
  | concat {parts ds : List Doc} {ts : List (List Char)} (h : Bears (parts ++ ds) ts) :
    Bears (.concat parts :: ds) ts
  | indent {body : Doc} {ds : List Doc} {ts : List (List Char)} (h : Bears (body :: ds) ts) :
    Bears (.indent body :: ds) ts

namespace Bears

variable {ds es parts : List Doc} {d : Doc} {ts us : List (List Char)}

/-- Documents that bear texts may be put one behind the other. -/
theorem append (hd : Bears ds ts) (he : Bears es us) : Bears (ds ++ es) (ts ++ us) := by
  induction hd with
  | nil => exact he
  | text h hts _ ih =>
    rw [List.append_assoc]
    exact .text h hts ih
  | line kind _ ih => exact .line kind ih
  | breakParent _ ih => exact .breakParent ih
  | concat _ ih =>
    rw [List.append_assoc] at ih
    exact .concat ih
  | indent _ ih => exact .indent ih

/-- One document in front of others. -/
theorem cons (hd : Bears [d] ts) (hds : Bears ds us) : Bears (d :: ds) (ts ++ us) := hd.append hds

/-- A text bears the texts that stand in it in order. -/
theorem one {s : String} (h : InOrder ts s.toList) (hts : ∀ t ∈ ts, EndsSolid t) :
    Bears [.text s] ts := by
  simpa using Bears.text h hts .nil

/-- A text of which nothing is asked. -/
theorem any (s : String) : Bears [.text s] [] := one (.nil _) nofun

/-- What stands in two stacks stands in the first and then in the second. -/
theorem split (h : Bears (ds ++ es) ts) : ∃ us vs, ts = us ++ vs ∧ Bears ds us ∧ Bears es vs := by
  -- induction on how the whole list bears the texts, with the border somewhere in it
  generalize hall : ds ++ es = all at h
  induction h generalizing ds with
  | nil =>
    obtain ⟨rfl, rfl⟩ := List.append_eq_nil_iff.1 hall
    exact ⟨[], [], rfl, .nil, .nil⟩
  | @text s ts us rest h hts hrest ih =>
    -- the border is in front of the document, or in what follows it
    rcases List.append_eq_cons_iff.1 hall with ⟨rfl, rfl⟩ | ⟨ds, rfl, heq⟩
    · exact ⟨[], ts ++ us, rfl, .nil, .text h hts hrest⟩
    · obtain ⟨vs, ws, rfl, hds, hes⟩ := ih heq.symm
      exact ⟨ts ++ vs, ws, (List.append_assoc ..).symm, .text h hts hds, hes⟩
  | @line kind rest ts hrest ih =>
    rcases List.append_eq_cons_iff.1 hall with ⟨rfl, rfl⟩ | ⟨ds, rfl, heq⟩
    · exact ⟨[], ts, rfl, .nil, .line kind hrest⟩
    · obtain ⟨vs, ws, rfl, hds, hes⟩ := ih heq.symm
      exact ⟨vs, ws, rfl, .line kind hds, hes⟩
  | @breakParent rest ts hrest ih =>
    rcases List.append_eq_cons_iff.1 hall with ⟨rfl, rfl⟩ | ⟨ds, rfl, heq⟩
    · exact ⟨[], ts, rfl, .nil, .breakParent hrest⟩
    · obtain ⟨vs, ws, rfl, hds, hes⟩ := ih heq.symm
      exact ⟨vs, ws, rfl, .breakParent hds, hes⟩
  | @concat parts rest ts h ih =>
    rcases List.append_eq_cons_iff.1 hall with ⟨rfl, rfl⟩ | ⟨ds, rfl, heq⟩
    · exact ⟨[], ts, rfl, .nil, .concat h⟩
    · -- the parts stand in front of what is left of the first list
      obtain ⟨vs, ws, rfl, hds, hes⟩ := @ih (parts ++ ds) (by rw [heq, List.append_assoc])
      exact ⟨vs, ws, rfl, .concat hds, hes⟩
  | @indent body rest ts h ih =>
    rcases List.append_eq_cons_iff.1 hall with ⟨rfl, rfl⟩ | ⟨ds, rfl, heq⟩
    · exact ⟨[], ts, rfl, .nil, .indent h⟩
    · obtain ⟨vs, ws, rfl, hds, hes⟩ := @ih (body :: ds) (by rw [heq, List.cons_append])
      exact ⟨vs, ws, rfl, .indent hds, hes⟩

/-- Nothing stands in an empty document. -/
theorem eq_nil_of_isEmpty (hd : d.isEmpty = true) (h : Bears [d] ts) : ts = [] := by
  cases h with
  -- a text that is empty bears only empty texts
  | @text s ts us _ h hts hds =>
    have hs : s = "" := by simpa [Doc.isEmpty] using hd
    cases hds
    rw [List.append_nil]
    rw [hs] at h
    exact InOrder.eq_nil_of_empty hts h
  | line | breakParent | indent => cases hd
  | @concat parts _ _ h =>
    cases parts with
    | nil =>
      cases h
      rfl
    | cons => cases hd

/-- Dropping empty parts drops nothing that stands there. -/
theorem cat (h : Bears ds ts) : Bears [.cat ds] ts := by
  refine .concat ?_
  rw [List.append_nil]
  -- the parts that are empty are left out, and they bear nothing
  induction ds generalizing ts with
  | nil => exact h
  | cons d ds ih =>
    rw [← List.singleton_append] at h
    obtain ⟨us, vs, rfl, hd, hds⟩ := h.split
    rw [List.filter_cons]
    split
    · exact hd.append (ih hds)
    · rename_i hempty
      have hnone := eq_nil_of_isEmpty (by simpa using hempty) hd
      rw [hnone]
      exact ih hds

/-- Breaks are spread in the parts of both lists. -/
theorem spreadAll_append (deep : Bool) (ds es : List Doc) :
    (Doc.spreadAll deep (ds ++ es)).1 = (Doc.spreadAll deep ds).1 ++ (Doc.spreadAll deep es).1 := by
  induction ds with
  | nil => rfl
  | cons d ds ih => exact congrArg _ ih

/-- Breaking groups changes none of the texts. -/
theorem spreadAll (h : Bears ds ts) : Bears (Doc.spreadAll false ds).1 ts := by
  induction h with
  | nil => exact .nil
  | text h hts _ ih => exact .text h hts ih
  | line kind _ ih => exact .line kind ih
  | breakParent _ ih => exact .breakParent ih
  | concat _ ih =>
    rw [spreadAll_append] at ih
    exact .concat ih
  | indent _ ih => exact .indent ih

end Bears

/-! ## Rendering -/

variable {settings : Settings} {s : State} {c : Command} {rest : List Command}
  {ts : List (List Char)}

/-- What is on the way: texts that stand in what was written, and those that the commands bear. -/
structure State.Bearing (ts : List (List Char)) (s : State) : Prop where
  suffixes : s.suffixes = []
  stands : ∃ done todo, ts = done ++ todo ∧ (∀ t ∈ done, EndsSolid t) ∧ InOrder done s.written ∧
    Bears (s.commands.map (·.doc)) todo

/-- Ending a line keeps what was written, but for blanks. -/
theorem written_breakLine (settings : Settings) (c : Command) {done : List (List Char)}
    (hs : s.suffixes = []) (hdone : ∀ t ∈ done, EndsSolid t) (h : InOrder done s.written)
    (kind : LineKind) :
    (s.breakLine settings c kind).suffixes = [] ∧
      (s.breakLine settings c kind).commands = s.commands ∧
      InOrder done (s.breakLine settings c kind).written := by
  rw [breakLine_ends hs]
  refine ⟨hs, rfl, ?_⟩
  -- a literal break keeps the line as it is, and the written text is a prefix
  by_cases hkind : kind = .literal
  · have hback := h.back ['\n']
    simpa [State.written, hkind, outputText_append, outputText] using hback
  · -- the blanks that are trimmed stand behind every text that ends solid
    obtain ⟨blanks, hblanks, hwritten⟩ := charsOf_trimOutput s.output
    have hkept : InOrder done (charsOf (trimOutput s.output)) := by
      refine InOrder.of_append_blanks hdone hblanks ?_
      rw [← hwritten]
      exact h
    have hback := hkept.back ('\n' :: (c.indentation.margin settings).text.toList)
    simpa [State.written, charsOf, hkind, outputText_append, outputText] using hback

/-- A step writes what its command bears. -/
theorem step_bears (h : s.Bearing ts) (hc : s.commands = c :: rest) :
    ({ s with commands := rest }.step settings c).Bearing ts := by
  obtain ⟨hsuffixes, done, todo, rfl, hdone, hstands, hbears⟩ := h
  rw [hc, List.map_cons] at hbears
  generalize hdoc : c.doc = d at hbears
  rw [State.step, hdoc]
  cases hbears with
  | @text t us vs _ ht hus hrest =>
    refine ⟨hsuffixes, done ++ us, vs, by rw [List.append_assoc], ?_, ?_, hrest⟩
    · exact fun u hu => (List.mem_append.1 hu).elim (hdone u) (hus u)
    · -- the texts of the command stand behind those that were written before it
      have happend := hstands.append ht
      simpa [State.written, outputText_append, outputText] using happend
  | line kind hrest =>
    -- a line bears nothing: it is left out, becomes a space, or ends the line
    dsimp only
    split
    · split
      · exact ⟨hsuffixes, done, todo, rfl, hdone, hstands, hrest⟩
      · have hback := hstands.back [' ']
        refine ⟨hsuffixes, done, todo, rfl, hdone, ?_, hrest⟩
        simpa [State.written, outputText_append, outputText] using hback
    · obtain ⟨hnone, hcommands, hwritten⟩ := written_breakLine settings c
        (s := { s with commands := rest }) hsuffixes hdone hstands kind
      refine ⟨hnone, done, todo, rfl, hdone, hwritten, ?_⟩
      rw [hcommands]
      exact hrest
  | breakParent hrest => exact ⟨hsuffixes, done, todo, rfl, hdone, hstands, hrest⟩
  | @concat parts _ _ hparts =>
    refine ⟨hsuffixes, done, todo, rfl, hdone, hstands, ?_⟩
    have hdocs : (pushParts c parts rest).map (·.doc) = parts ++ rest.map (·.doc) := by
      simp [pushParts, Command.on, Function.comp_def]
    show Bears ((pushParts c parts rest).map (·.doc)) todo
    rw [hdocs]
    exact hparts
  | indent hbody => exact ⟨hsuffixes, done, todo, rfl, hdone, hstands, hbody⟩

/-- A run writes what its commands bear. -/
theorem visits_bears {t : State} (h : Visits settings s t) (hs : s.Bearing ts) : t.Bearing ts := by
  induction h with
  | here s => exact hs
  | step hc _ ih => exact ih (step_bears hs hc)
  -- texts are put off to the end of a line by comments only, and these documents have none
  | flush _ hsuffixes _ _ => exact absurd hs.suffixes hsuffixes

/-- What stands in a document stands in its output, in the same order. -/
theorem render_bears (settings : Settings) {d : Doc} (h : Bears [d] ts) :
    InOrder ts (render settings d).toList := by
  have hstart : (State.start d).Bearing ts :=
    ⟨rfl, [], ts, rfl, nofun, .nil _, h.spreadAll⟩
  obtain ⟨hvisits, hcommands, -⟩ := State.run_visited settings (State.start d)
  obtain ⟨-, done, todo, rfl, -, hstands, hbears⟩ := visits_bears hvisits hstart
  rw [hcommands] at hbears
  cases hbears
  rw [List.append_nil]
  exact hstands

end Reflow.Layout
