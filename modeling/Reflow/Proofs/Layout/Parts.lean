import Reflow.Proofs.Doc.Pieces
import Reflow.Proofs.Layout.Run

/-!
# What a run hands down

The engine takes a document apart and puts its parts on the stack, chooses among them, defers some
and moves some to the right.  The only documents it makes up are fills of what is left of a fill, and
a line end in the place of a boundary.  So a test that all parts of a document pass is passed by all
commands of its run, and their indentations are made of units and of the alignments of that document.

## Key results

- `step_passes`: one command hands a test down to those that it leaves behind
- `passes_start`: a run starts with commands that pass what the parts of its document pass
-/

namespace Reflow

/-- The step that an alignment by a positive number of columns, or by a text, adds. -/
def Alignment.step : Alignment → Layout.IndentStep
  | .columns n => .columns n
  | .text s => .text s

namespace Layout

/-- A test on documents and one on indentation steps that a run hands down: the first one looks
neither at the parts of a fill nor at whether groups are broken, and the second one holds of all steps
that the documents can take. -/
structure HandsDown (p : Doc → Bool) (q : IndentStep → Bool) : Prop where
  spread (deep : Bool) (d : Doc) : p (d.spreadBreaks deep).1 = p d
  fill (parts others : List Doc) : p (.fill parts) = p (.fill others)
  lineEnd : p (.line .hard) = true
  unit : q .unit = true
  align {amount : Alignment} {body : Doc} (h : p (.align amount body) = true) : q amount.step = true

/-- All parts of a command's document, and all steps of its indentation, pass their tests. -/
structure Command.Passes (p : Doc → Bool) (q : IndentStep → Bool) (c : Command) : Prop where
  doc : c.doc.every p = true
  steps : ∀ step ∈ c.indentation.steps, q step = true

/-- All commands of a state, also the deferred ones, pass. -/
structure State.Passes (p : Doc → Bool) (q : IndentStep → Bool) (s : State) : Prop where
  commands : ∀ c ∈ s.commands, c.Passes p q
  suffixes : ∀ c ∈ s.suffixes, c.Passes p q

variable {p : Doc → Bool} {q : IndentStep → Bool} {settings : Settings} {s t : State} {c : Command}

/-! ## Commands -/

namespace Command.Passes

/-- A command passes on with another document that passes. -/
theorem as (hc : c.Passes p q) {d : Doc} (hd : d.every p = true) (mode : Mode) :
    (c.as mode d).Passes p q :=
  ⟨hd, hc.steps⟩

/-- So it does in the same mode. -/
theorem on (hc : c.Passes p q) {d : Doc} (hd : d.every p = true) : (c.on d).Passes p q :=
  ⟨hd, hc.steps⟩

/-- What is part of a command's document passes at its indentation. -/
theorem child (hc : c.Passes p q) {d e : Doc} (hdoc : c.doc = d) (he : e ∈ d.children) :
    e.every p = true :=
  Doc.every_child (hdoc ▸ hc.doc) he

/-- So it does indented. -/
theorem indent (h : HandsDown p q) (hc : c.Passes p q) {body : Doc} (hbody : body.every p = true) :
    Command.Passes p q { c with indentation := c.indentation.indent, doc := body } := by
  refine ⟨hbody, fun step hstep => ?_⟩
  rcases List.mem_cons.1 hstep with rfl | hstep
  · exact h.unit
  · exact hc.steps step hstep

/-- An alignment adds its step, takes the last one back or does nothing. -/
theorem align (h : HandsDown p q) (hc : c.Passes p q) {amount : Alignment} {body : Doc}
    (hdoc : c.doc = .align amount body) :
    Command.Passes p q { c with indentation := c.indentation.align amount, doc := body } := by
  have hstep : q amount.step = true := h.align (Doc.every_self (hdoc ▸ hc.doc))
  have hadded : ∀ step ∈ amount.step :: c.indentation.steps, q step = true :=
    List.forall_mem_cons.2 ⟨hstep, hc.steps⟩
  refine ⟨hc.child hdoc List.mem_cons_self, ?_⟩
  -- a number of columns may also take the last step away
  cases amount with
  | text s => exact hadded
  | columns n =>
    simp only [Indentation.align]
    split
    · exact hc.steps
    split
    · exact fun step hmem => hc.steps step (List.mem_of_mem_tail hmem)
    · exact hadded

/-- The commands for a fill are its first parts and a fill of the others. -/
theorem fill (h : HandsDown p q) (hc : c.Passes p q) {parts : List Doc} (hdoc : c.doc = .fill parts)
    (column : Int) : ∀ d ∈ fillCommands settings column c parts, d.Passes p q := by
  have hself : ∀ others, p (.fill others) = true := fun others => by
    rw [h.fill others parts]
    exact Doc.every_self (hdoc ▸ hc.doc)
  have hparts : ∀ e ∈ parts, e.every p = true := fun e he => hc.child hdoc he
  -- the cases of the fill, of which the last puts the rest of the fill back
  match parts with
  | [] => simp [fillCommands]
  | [d] => simpa [fillCommands] using hc.as (hparts d List.mem_cons_self) _
  | [d, e] =>
    simp only [List.forall_mem_cons] at hparts
    simpa [fillCommands] using ⟨hc.as hparts.1 _, hc.as hparts.2.1 _⟩
  | d :: e :: f :: rest =>
    simp only [List.forall_mem_cons] at hparts
    obtain ⟨hd, he, hf, hrest⟩ := hparts
    have hleft : (c.on (.fill (f :: rest))).Passes p q :=
      hc.on (Doc.every_of_children (hself _) (List.forall_mem_cons.2 ⟨hf, hrest⟩))
    unfold fillCommands
    dsimp only
    split <;> simpa using ⟨hc.as hd _, hc.as he _, hleft⟩

end Command.Passes

/-! ## States -/

namespace State.Passes

/-- Where the deferred commands go on top of others, all pass. -/
theorem flush (rest : List Command) (hs : s.Passes p q)
    (hcommands : t.commands = s.suffixes.reverse ++ rest) (hsuffixes : t.suffixes = [])
    (hrest : ∀ d ∈ rest, d.Passes p q) : t.Passes p q := by
  constructor
  · rw [hcommands]
    exact List.forall_mem_append.2 ⟨by simpa using hs.suffixes, hrest⟩
  · simp [hsuffixes]

/-- A broken line leaves the other commands as they were. -/
theorem breakLine (hc : c.Passes p q) (hs : s.Passes p q) (kind : LineKind) :
    (s.breakLine settings c kind).Passes p q := by
  by_cases hsuffixes : s.suffixes = []
  · rw [breakLine_ends hsuffixes]
    exact ⟨hs.commands, hs.suffixes⟩
  · rw [breakLine_flushes hsuffixes]
    exact hs.flush _ rfl rfl (List.forall_mem_cons.2 ⟨hc, hs.commands⟩)

end State.Passes

variable (settings) in
/-- A command hands the tests down to those that it leaves behind. -/
theorem step_passes (h : HandsDown p q) (hc : c.Passes p q) (hs : s.Passes p q) :
    (s.step settings c).Passes p q := by
  -- most documents leave commands on the stack and what is deferred as it was
  have hpush : ∀ {cs : List Command} {column : Int} {remeasure : Bool},
      (∀ d ∈ cs, d.Passes p q) → State.Passes p q { s with
        commands := cs ++ s.commands, column, remeasure } := fun hcs =>
    ⟨List.forall_mem_append.2 ⟨hcs, hs.commands⟩, hs.suffixes⟩
  have hone : ∀ {d : Command} {column : Int} {remeasure : Bool}, d.Passes p q →
      State.Passes p q { s with commands := d :: s.commands, column, remeasure } := fun hd =>
    ⟨List.forall_mem_cons.2 ⟨hd, hs.commands⟩, hs.suffixes⟩
  unfold State.step
  split
  case h_1 | h_2 => exact ⟨hs.commands, hs.suffixes⟩
  case h_13 => exact hs
  case h_3 parts hdoc =>
    apply hpush
    simp only [List.forall_mem_map]
    exact fun e he => hc.on (hc.child hdoc he)
  case h_4 body hdoc => exact hone (hc.indent h (hc.child hdoc List.mem_cons_self))
  case h_5 amount body hdoc => exact hone (hc.align h hdoc)
  case h_6 body broken hdoc =>
    apply hone
    constructor
    · rw [doc_groupCommand]
      exact hc.child hdoc List.mem_cons_self
    · rw [indentation_groupCommand]
      exact hc.steps
  case h_7 first others broken hdoc =>
    -- the shape comes with breaks spread in it, which the test does not see
    obtain ⟨d, hd, hshape⟩ := doc_alternativesCommand settings s c first others broken
    apply hone
    constructor
    · rw [hshape, Doc.breakGroups, Doc.every_spreadBreaks (h.spread false)]
      exact hc.child hdoc hd
    · rw [indentation_alternativesCommand]
      exact hc.steps
  case h_8 parts hdoc => exact hpush (hc.fill h hdoc s.column)
  case h_9 broken flat hdoc =>
    apply hone
    apply hc.on
    split
    · exact hc.child hdoc List.mem_cons_self
    · exact hc.child hdoc (List.mem_cons_of_mem _ List.mem_cons_self)
  case h_10 body hdoc =>
    have hbody := hc.on (hc.child hdoc List.mem_cons_self)
    exact ⟨hs.commands, List.forall_mem_cons.2 ⟨hbody, hs.suffixes⟩⟩
  case h_11 hdoc =>
    -- the one document that is not a part of another one
    have hline : (Doc.line .hard).every p = true :=
      Doc.every_of_children h.lineEnd (by simp [Doc.children])
    split
    · exact hs
    · exact hone (hc.on hline)
  case h_12 kind hdoc =>
    split
    · split
      · exact hs
      · exact ⟨hs.commands, hs.suffixes⟩
    · exact hs.breakLine hc kind

/-- A run starts with one command for its document, at no indentation. -/
theorem passes_start (h : HandsDown p q) {d : Doc} (hd : d.every p = true) :
    (State.start d).Passes p q := by
  have hdoc : d.breakGroups.every p = true := by
    rw [Doc.breakGroups, Doc.every_spreadBreaks (h.spread false), hd]
  constructor
  · intro c hc
    rw [List.mem_singleton.1 hc]
    exact ⟨hdoc, by simp⟩
  · simp [State.start]

end Layout

end Reflow
