import Reflow.Proofs.Doc.Leaves
import Reflow.Proofs.Layout.Output
import Reflow.Proofs.Layout.Parts

/-!
# Rendering conserves text

The layout engine chooses among the parts of a document, puts blanks and line ends between its texts
and takes blanks away, but it neither loses nor repeats nor changes anything else.  What it prints is
the leaves of one resolution of the document.  Deferred leaves come later than they stand; all others
keep their order.

## Key results

- `step_emits`: what one command prints, together with what is still to be printed, is what was to
  be printed before
- `run_emits`: the same for a whole run
- `render_conserves`: the statement about documents
-/

namespace Reflow.Layout

/-- Is the character one of those that the engine may add or take away? -/
def isLayoutChar (c : Char) : Bool := c == ' ' || c == '\t' || c == '\n'

/-- The characters that the engine has to keep. -/
def visible (cs : List Char) : List Char := cs.filter fun c => !isLayoutChar c

@[simp] theorem visible_nil : visible [] = [] := rfl

@[simp] theorem visible_append (a b : List Char) : visible (a ++ b) = visible a ++ visible b :=
  List.filter_append ..

/-- Nothing is visible of characters of the layout. -/
theorem visible_eq_nil {cs : List Char} : visible cs = [] ↔ ∀ c ∈ cs, isLayoutChar c = true := by
  simp [visible]

/-- The characters of leaves that the engine has to keep. -/
def visibleOf (ls : List Leaf) : List Char := ls.flatMap fun l => visible l.text.toList

@[simp] theorem visibleOf_nil : visibleOf [] = [] := rfl

@[simp] theorem visibleOf_append (a b : List Leaf) :
    visibleOf (a ++ b) = visibleOf a ++ visibleOf b := by
  simp [visibleOf]

/-! ## Margins -/

/-- A step that is not a text. -/
def IndentStep.isBlank : IndentStep → Bool
  | .text _ => false
  | .unit | .columns _ => true

/-- The margin of an indentation without texts is blank. -/
theorem visible_margin (settings : Settings) {i : Indentation}
    (hi : ∀ step ∈ i.steps, step.isBlank = true) : visible (i.margin settings).text.toList = [] := by
  have hnone : ∀ text, .text text ∈ i.steps → ∀ a ∈ text.toList, isLayoutChar a = true :=
    fun text htext => nomatch hi _ htext
  exact visible_eq_nil.2 (forall_margin settings (by decide) (by decide) hnone)

/-! ## Output -/

/-- The characters to be kept of an output whose last piece comes first. -/
def visibleOutput : List Chunk → List Char
  | [] => []
  | .text s :: rest => visibleOutput rest ++ visible s.toList
  | .cursor :: rest => visibleOutput rest

/-- What is visible of the output is what is visible of its characters. -/
theorem visibleOutput_eq (output : List Chunk) : visibleOutput output = visible (charsOf output) := by
  induction output with
  | nil => rfl
  | cons piece output ih =>
    cases piece with
    | text t => rw [visibleOutput, charsOf_text, visible_append, ih]
    | cursor => rw [visibleOutput, charsOf_cursor, ih]

/-- Only blanks are dropped at the end of the output. -/
theorem visibleOutput_trimOutput (output : List Chunk) :
    visibleOutput (trimOutput output) = visibleOutput output := by
  obtain ⟨blanks, hblanks, hkept⟩ := charsOf_trimOutput output
  have hnone : visible blanks = [] := visible_eq_nil.2 fun c hc => by
    have hblank := hblanks c hc
    simp only [Text.isBlank, isLayoutChar, Bool.or_eq_true] at hblank ⊢
    exact .inl hblank
  rw [visibleOutput_eq, visibleOutput_eq, hkept, visible_append, hnone, List.append_nil]

/-! ## Rearrangements -/

/-- The leaves of the second list, in an order in which those that are not deferred keep theirs. -/
structure Rearranges (order ls : List Leaf) : Prop where
  perm : order.Perm ls
  kept : order.filter (!·.deferred) = ls.filter (!·.deferred)

namespace Rearranges

variable {a b c ls ms : List Leaf}

/-- Leaves that stay where they are. -/
theorem refl (ls : List Leaf) : Rearranges ls ls := ⟨.refl ls, rfl⟩

/-- What is rearranged twice is rearranged. -/
theorem trans (h : Rearranges a b) (h' : Rearranges b c) : Rearranges a c :=
  ⟨h.perm.trans h'.perm, h.kept.trans h'.kept⟩

/-- Leaves in front may stay. -/
theorem append_left (a : List Leaf) (h : Rearranges ls ms) : Rearranges (a ++ ls) (a ++ ms) :=
  ⟨h.perm.append_left a, by simp only [List.filter_append, h.kept]⟩

/-- Deferred leaves may go to the other side of any others. -/
theorem swap {qs : List Leaf} (hq : ∀ l ∈ qs, l.deferred = true) (ls : List Leaf) :
    Rearranges (qs ++ ls) (ls ++ qs) := by
  have hnone : qs.filter (!·.deferred) = [] := by simpa using hq
  exact ⟨List.perm_append_comm, by simp [hnone]⟩

/-- The same the other way round. -/
theorem swap' {qs : List Leaf} (hq : ∀ l ∈ qs, l.deferred = true) (ls : List Leaf) :
    Rearranges (ls ++ qs) (qs ++ ls) := by
  have hnone : qs.filter (!·.deferred) = [] := by simpa using hq
  exact ⟨List.perm_append_comm, by simp [hnone]⟩

end Rearranges

/-! ## Commands -/

/-- A command that never moves by a text. -/
structure Command.Blank (c : Command) : Prop where
  doc : c.doc.every Doc.isColumnAligned = true
  margin : ∀ step ∈ c.indentation.steps, step.isBlank = true

/-- A stack of commands, each with a mark that tells whether it comes from a deferred part. -/
abbrev Marked := List (Bool × Command)

/-- The commands can be carried out so that they print these leaves in this order. -/
inductive Prints : Marked → List Leaf → Prop
  | nil : Prints [] []
  | cons {mark : Bool} {c : Command} {stack : Marked} {a b : List Leaf}
    (h : c.doc.Yields mark a) (hs : Prints stack b) : Prints ((mark, c) :: stack) (a ++ b)

/-- Commands that all have the same mark. -/
def marked (mark : Bool) (cs : List Command) : Marked := cs.map fun c => (mark, c)

@[simp] theorem map_snd_marked (mark : Bool) (cs : List Command) :
    (marked mark cs).map (·.2) = cs := by
  simp [marked, Function.comp_def]

namespace Prints

variable {mark : Bool} {c : Command} {stack : Marked} {ls : List Leaf}

/-- The leaves of a stack are those of its first command and those of the others. -/
theorem of_cons (h : Prints ((mark, c) :: stack) ls) :
    ∃ a b, c.doc.Yields mark a ∧ Prints stack b ∧ ls = a ++ b := by
  cases h with
  | cons h hs => exact ⟨_, _, h, hs, rfl⟩

/-- The leaves of two stacks are those of the first and those of the second. -/
theorem of_append {front : Marked} (h : Prints (front ++ stack) ls) :
    ∃ a b, Prints front a ∧ Prints stack b ∧ ls = a ++ b := by
  induction front generalizing ls with
  | nil => exact ⟨[], ls, .nil, h, rfl⟩
  | cons e front ih =>
    obtain ⟨a, b, ha, hb, rfl⟩ := of_cons h
    obtain ⟨b', d, hb', hd, rfl⟩ := ih hb
    exact ⟨a ++ b', d, .cons ha hb', hd, (List.append_assoc ..).symm⟩

/-- Commands for the parts of a sequence print what the sequence yields. -/
theorem of_parts {parts : List Doc} (f : Doc → Command) (hf : ∀ d, (f d).doc = d)
    (h : Prints (marked mark (parts.map f)) ls) : Doc.YieldsAll mark parts ls := by
  induction parts generalizing ls with
  | nil => cases h; exact .nil
  | cons d parts ih =>
    obtain ⟨a, b, ha, hb, rfl⟩ := of_cons h
    exact .cons (hf d ▸ ha) (ih hb)

/-- Deferred commands print deferred leaves. -/
theorem deferred {cs : List Command} (h : Prints (marked true cs) ls) :
    ∀ l ∈ ls, l.deferred = true := by
  induction cs generalizing ls with
  | nil => cases h; simp
  | cons c cs ih =>
    obtain ⟨a, b, ha, hb, rfl⟩ := of_cons h
    intro l hl
    rcases List.mem_append.1 hl with hl | hl
    · exact Doc.Yields.deferred ha l hl
    · exact ih hb l hl

end Prints

/-! ## One command -/

/-- The parts that a state defers, the first one first. -/
def State.deferredParts (s : State) : Marked := marked true s.suffixes.reverse

/-- All commands of a state, also the deferred ones, never move by a text. -/
structure State.Blank (s : State) : Prop where
  commands : ∀ c ∈ s.commands, c.Blank
  suffixes : ∀ c ∈ s.suffixes, c.Blank

/-- What a state is still to print and what it prints before it comes to another one: the leaves of
the second state, behind those printed on the way, are the leaves of the first. -/
def Emits (s : State) (stack : Marked) (t : State) : Prop :=
  ∃ stack' : Marked, stack'.map (·.2) = t.commands ∧
    ∀ ls' qs', Prints stack' ls' → Prints t.deferredParts qs' →
      ∃ ls qs new, Prints stack ls ∧ Prints s.deferredParts qs ∧
        visibleOutput t.output = visibleOutput s.output ++ visibleOf new ∧
        Rearranges (new ++ (ls' ++ qs')) (ls ++ qs)

variable {settings : Settings} {s : State} {c : Command} {mark : Bool} {stack : Marked}

/-- A command that is replaced by others, which print what it yields. -/
theorem emits_replace (cs : List Command) {t : State} (hstack : stack.map (·.2) = s.commands)
    (hcommands : t.commands = cs ++ s.commands) (hsuffixes : t.suffixes = s.suffixes)
    (hout : visibleOutput t.output = visibleOutput s.output)
    (hc : ∀ ls, Prints (marked mark cs) ls → c.doc.Yields mark ls) :
    Emits s ((mark, c) :: stack) t := by
  refine ⟨marked mark cs ++ stack, by simp [hstack, hcommands], ?_⟩
  intro ls' qs' hls hqs
  obtain ⟨a, b, ha, hb, rfl⟩ := hls.of_append
  have hqs : Prints s.deferredParts qs' := by rwa [State.deferredParts, ← hsuffixes]
  exact ⟨a ++ b, qs', [], .cons (hc a ha) hb, hqs, by simp [hout], .refl _⟩

/-- A command that is replaced by one other. -/
theorem emits_one {d : Command} {t : State} (hstack : stack.map (·.2) = s.commands)
    (hcommands : t.commands = d :: s.commands) (hsuffixes : t.suffixes = s.suffixes)
    (hout : visibleOutput t.output = visibleOutput s.output)
    (hc : ∀ ls, d.doc.Yields mark ls → c.doc.Yields mark ls) :
    Emits s ((mark, c) :: stack) t := by
  refine emits_replace [d] hstack hcommands hsuffixes hout fun ls hls => ?_
  obtain ⟨a, b, ha, hb, rfl⟩ := hls.of_cons
  cases hb
  simpa using hc a ha

/-- The commands for a fill print what the fill yields. -/
theorem yields_fillCommands {column : Int} {parts : List Doc} {ls : List Leaf}
    (h : Prints (marked mark (fillCommands settings column c parts)) ls) :
    (Doc.fill parts).Yields mark ls := by
  -- the cases of the fill, of which the third puts the rest of it back on the stack
  match parts with
  | [] => cases h; exact Doc.YieldsAll.nil.fill
  | [d] =>
    obtain ⟨a, b, ha, hb, rfl⟩ := h.of_cons
    cases hb
    exact (Doc.YieldsAll.cons ha .nil).fill
  | [d, e] =>
    obtain ⟨a, _, ha, h1, rfl⟩ := h.of_cons
    obtain ⟨b, _, hb, h2, rfl⟩ := h1.of_cons
    cases h2
    exact (Doc.YieldsAll.cons ha (.cons hb .nil)).fill
  | d :: e :: f :: rest =>
    -- whatever the two modes are, the commands are the two parts and the rest
    have hthree : ∀ m m', Prints (marked mark
        [c.as m d, c.as m' e, c.on (.fill (f :: rest))]) ls →
        (Doc.fill (d :: e :: f :: rest)).Yields mark ls := by
      intro m m' h
      obtain ⟨a, _, ha, h1, rfl⟩ := h.of_cons
      obtain ⟨b, _, hb, h2, rfl⟩ := h1.of_cons
      obtain ⟨k, _, hk, h3, rfl⟩ := h2.of_cons
      cases h3
      rw [List.append_nil]
      exact (Doc.YieldsAll.cons ha (.cons hb (.of_fill hk))).fill
    unfold fillCommands at h
    simp only at h
    split at h
    · exact hthree _ _ h
    · exact hthree _ _ h

/-- Ending a line prints the deferred parts first, and then nothing but blanks. -/
theorem emits_breakLine {kind : LineKind} (hdoc : c.doc = .line kind) (hc : c.Blank)
    (hstack : stack.map (·.2) = s.commands) :
    Emits s ((mark, c) :: stack) (s.breakLine settings c kind) := by
  have hnone : c.doc.Yields mark [] := by
    rw [hdoc]
    exact ⟨_, .line kind, rfl⟩
  by_cases hs : s.suffixes = []
  · -- the line ends here: a line end, and a margin behind it
    have hmargin : visible ("\n" ++ (c.indentation.margin settings).text).toList = [] := by
      rw [String.toList_append, visible_append, visible_margin settings hc.margin]
      rfl
    rw [breakLine_ends hs]
    refine emits_replace [] hstack rfl rfl ?_ fun ls hls => ?_
    · dsimp only
      split
      · exact List.append_nil _
      · rw [visibleOutput, visibleOutput_trimOutput, hmargin, List.append_nil]
    · cases hls
      exact hnone
  · -- the deferred parts come in front of the line, which is tried again
    rw [breakLine_flushes hs]
    refine ⟨s.deferredParts ++ (mark, c) :: stack, by simp [State.deferredParts, hstack],
      fun ls' qs' hls hqs => ?_⟩
    obtain ⟨qs, ls, hqs', hls', rfl⟩ := hls.of_append
    cases hqs
    refine ⟨ls, qs, [], hls', hqs', (List.append_nil _).symm, ?_⟩
    simpa using Rearranges.swap hqs'.deferred ls

variable (settings) in
/-- What one command prints, together with what is still to be printed, is what was to be printed
before. -/
theorem step_emits (hc : c.Blank) (hstack : stack.map (·.2) = s.commands) :
    Emits s ((mark, c) :: stack) (s.step settings c) := by
  -- case by case through what the command is, in the order of the step
  unfold State.step
  split
  case h_1 t hdoc =>
    refine ⟨stack, hstack, fun ls' qs' hls hqs => ?_⟩
    have ht : c.doc.Yields mark [⟨t, mark⟩] := by
      rw [hdoc]
      exact ⟨_, .text t, rfl⟩
    refine ⟨[⟨t, mark⟩] ++ ls', qs', [⟨t, mark⟩], .cons ht hls, hqs, ?_, ?_⟩
    · -- the text is printed, and nothing of it is deferred
      simp [visibleOutput, visibleOf]
    · rw [List.append_assoc]
      exact .refl _
  case h_2 hdoc =>
    -- the cursor prints nothing
    refine emits_replace [] hstack rfl rfl rfl fun ls hls => ?_
    cases hls
    rw [hdoc]
    exact ⟨_, .cursor, rfl⟩
  case h_3 parts hdoc =>
    refine emits_replace (parts.map c.on) hstack rfl rfl rfl fun ls hls => ?_
    rw [hdoc]
    exact (hls.of_parts c.on fun _ => rfl).concat
  case h_4 body hdoc =>
    -- one command takes the place of one, and what it may print the document may print
    refine emits_one hstack rfl rfl rfl fun ls hls => ?_
    rw [hdoc]
    exact hls.indent
  case h_5 amount body hdoc =>
    refine emits_one hstack rfl rfl rfl fun ls hls => ?_
    rw [hdoc]
    exact hls.align amount
  case h_6 body broken hdoc =>
    refine emits_one hstack rfl rfl rfl fun ls hls => ?_
    rw [doc_groupCommand] at hls
    rw [hdoc]
    exact hls.group broken
  case h_7 first others broken hdoc =>
    refine emits_one hstack rfl rfl rfl fun ls hls => ?_
    -- the shape is one of those of the choice, and its marks were set on the way
    obtain ⟨d, hd, hshape⟩ := doc_alternativesCommand settings s c first others broken
    rw [hshape] at hls
    rw [hdoc]
    exact (Doc.Yields.of_spreadBreaks d hls).shape broken hd
  case h_8 parts hdoc =>
    refine emits_replace _ hstack rfl rfl rfl fun ls hls => ?_
    rw [hdoc]
    exact yields_fillCommands hls
  case h_9 broken flat hdoc =>
    refine emits_one hstack rfl rfl rfl fun ls hls => ?_
    rw [hdoc]
    change Doc.Yields mark (if c.mode = .broken then broken else flat) ls at hls
    split at hls
    · -- either branch is a resolution of the two
      exact hls.broken
    · exact hls.flat
  case h_10 body hdoc =>
    -- what is deferred moves behind all that is still on the stack
    refine ⟨stack, hstack, fun ls' qs' hls hqs => ?_⟩
    have hparts : (State.deferredParts { s with suffixes := c.on body :: s.suffixes }) =
        s.deferredParts ++ [(true, c.on body)] := by
      simp [State.deferredParts, marked]
    obtain ⟨qs, _, hqs', hlast, rfl⟩ := Prints.of_append (hparts ▸ hqs)
    obtain ⟨b, _, hb, hnil, rfl⟩ := hlast.of_cons
    cases hnil
    have hbody : c.doc.Yields mark b := by
      rw [hdoc]
      exact Doc.Yields.lineSuffix hb
    refine ⟨b ++ ls', qs, [], .cons hbody hls, hqs', by simp, ?_⟩
    have hmove := Rearranges.swap' (Doc.Yields.deferred hb) (ls' ++ qs)
    simpa using hmove
  case h_11 hdoc =>
    -- a boundary prints nothing, and the line break it may cause prints no visible character
    have hnone : c.doc.Yields mark [] := by
      rw [hdoc]
      exact ⟨_, .suffixBoundary, rfl⟩
    split
    · refine emits_replace [] hstack rfl rfl rfl fun ls hls => ?_
      cases hls
      exact hnone
    · refine emits_one hstack rfl rfl rfl fun ls hls => ?_
      obtain ⟨_, hr, rfl⟩ := hls
      cases hr
      exact hnone
  case h_12 kind hdoc =>
    -- a flat line is at most a blank, and a broken one is the lemma above
    split
    · refine emits_replace [] hstack ?_ ?_ ?_ fun ls hls => ?_
      · split <;> rfl
      · split <;> rfl
      · split
        · rfl
        · simp [visibleOutput, visible_eq_nil, isLayoutChar]
      · cases hls
        rw [hdoc]
        exact ⟨_, .line kind, rfl⟩
    · exact emits_breakLine hdoc hc hstack
  case h_13 hdoc =>
    refine emits_replace [] hstack rfl rfl rfl fun ls hls => ?_
    cases hls
    rw [hdoc]
    exact ⟨_, .breakParent, rfl⟩

/-! ## Whole runs -/

/-- Alignment by columns is handed down to the parts of a document. -/
theorem handsDown_isColumnAligned : HandsDown Doc.isColumnAligned IndentStep.isBlank where
  spread deep d := by
    cases d with
    | alternatives => cases deep <;> rfl
    | align amount => cases amount <;> rfl
    | _ => rfl
  fill _ _ := rfl
  lineEnd := rfl
  unit := rfl
  align {amount _} h := by
    cases amount
    · rfl
    · cases h

/-- A command has only blank margins if its document and its indentation have. -/
theorem Command.blank_iff : c.Blank ↔ c.Passes Doc.isColumnAligned IndentStep.isBlank :=
  ⟨fun h => ⟨h.doc, h.margin⟩, fun h => ⟨h.doc, h.steps⟩⟩

/-- So it is for all commands of a state. -/
theorem State.blank_iff : s.Blank ↔ s.Passes Doc.isColumnAligned IndentStep.isBlank := by
  constructor
  · exact fun h => ⟨fun d hd => Command.blank_iff.1 (h.commands d hd),
      fun d hd => Command.blank_iff.1 (h.suffixes d hd)⟩
  · exact fun h => ⟨fun d hd => Command.blank_iff.2 (h.commands d hd),
      fun d hd => Command.blank_iff.2 (h.suffixes d hd)⟩

/-- A step keeps a state blank. -/
theorem step_blank (hc : c.Blank) (hs : s.Blank) : (s.step settings c).Blank :=
  State.blank_iff.2 <| step_passes settings handsDown_isColumnAligned (Command.blank_iff.1 hc)
    (State.blank_iff.1 hs)

/-- A run prints the leaves of its commands and of the deferred parts. -/
theorem run_emits (settings : Settings) (s : State) (hs : s.Blank) (stack : Marked)
    (hstack : stack.map (·.2) = s.commands) :
    ∃ ls qs order, Prints stack ls ∧ Prints s.deferredParts qs ∧ Rearranges order (ls ++ qs) ∧
      visibleOutput (s.run settings).output = visibleOutput s.output ++ visibleOf order := by
  -- induction along the run
  fun_induction State.run settings s generalizing stack with
  -- a command is on top of the stack
  | case1 s c rest hc ih =>
    obtain ⟨⟨mark, c'⟩, stack, rfl⟩ : ∃ e tail, stack = e :: tail := by
      cases stack with
      | nil => simp [hc] at hstack
      | cons e tail => exact ⟨e, tail, rfl⟩
    simp only [hc, List.map_cons, List.cons.injEq] at hstack
    obtain ⟨rfl, hstack⟩ := hstack
    have hblank : State.Blank { s with commands := rest } :=
      ⟨fun d hd => hs.commands d (hc ▸ List.mem_cons_of_mem _ hd), hs.suffixes⟩
    have hcBlank : c'.Blank := hs.commands c' (hc ▸ List.mem_cons_self)
    -- what the first command prints goes in front of what the rest of the run prints
    obtain ⟨stack', hstack', hback⟩ :=
      step_emits settings (s := { s with commands := rest }) hcBlank hstack
    obtain ⟨ls', qs', order, hls', hqs', hrearranges, hrun⟩ :=
      ih (step_blank hcBlank hblank) stack' hstack'
    obtain ⟨ls, qs, new, hls, hqs, hnew, hall⟩ := hback ls' qs' hls' hqs'
    refine ⟨ls, qs, new ++ order, hls, hqs, (hrearranges.append_left new).trans hall, ?_⟩
    rw [hrun, hnew, visibleOf_append, List.append_assoc]
  -- nothing is left, neither on the stack nor deferred
  | case2 s hc hempty =>
    have hstack : stack = [] := by simpa [hc] using hstack
    subst hstack
    refine ⟨[], [], [], .nil, ?_, .refl _, by simp⟩
    rw [State.deferredParts, List.isEmpty_iff.1 hempty]
    exact .nil
  -- what was deferred becomes the stack, in the order in which it was met
  | case3 s hc hsuffixes ih =>
    have hstack : stack = [] := by simpa [hc] using hstack
    subst hstack
    rw [List.unattach_reverse, List.unattach_attach] at ih
    have hflush := (State.blank_iff.1 hs).flush (t := { s with
      commands := s.suffixes.reverse, suffixes := [] }) [] (by simp) rfl (by simp)
    obtain ⟨qs, _, order, hqs, hnil, hrearranges, hrun⟩ :=
      ih (State.blank_iff.2 hflush) s.deferredParts (by simp [State.deferredParts])
    cases hnil
    refine ⟨[], qs, order, .nil, hqs, by simpa using hrearranges, hrun⟩

/-- What is printed is the leaves of a resolution, in an order that only moves deferred ones. -/
theorem render_rearranges (settings : Settings) {d : Doc}
    (hd : d.every Doc.isColumnAligned = true) :
    ∃ r order, d.Resolves r ∧ Rearranges order (r.leaves false) ∧
      visible (render settings d).toList = visibleOf order := by
  have hblank : (State.start d).Blank :=
    State.blank_iff.2 (passes_start handsDown_isColumnAligned hd)
  -- the run starts with one command, which is not deferred
  obtain ⟨ls, qs, order, hls, hqs, hrearranges, hrun⟩ :=
    run_emits settings (State.start d) hblank [(false, ⟨{}, .broken, d.breakGroups⟩)] rfl
  obtain ⟨a, _, ha, hnil, rfl⟩ := hls.of_cons
  cases hnil
  cases hqs
  -- the marks that were set before the run change no leaf
  obtain ⟨r, hr, rfl⟩ := Doc.Yields.of_spreadBreaks d ha
  refine ⟨r, order, hr, by simpa using hrearranges, ?_⟩
  exact (visibleOutput_eq _).symm.trans hrun

/-- Where there is nothing to choose and nothing is deferred, the leaves are printed in the order of
the document. -/
theorem visible_render_of_isFixed (settings : Settings) {d : Doc}
    (hd : d.every Doc.isColumnAligned = true) (hfixed : d.every Doc.isFixed = true) :
    visible (render settings d).toList = visibleOf (d.leaves false) := by
  obtain ⟨r, order, hr, hrearranges, htext⟩ := render_rearranges settings hd
  rw [hr.leaves_eq hfixed] at hrearranges
  -- nothing is deferred, so that the parts of the order are the whole of it
  have hnone := Doc.not_deferred_of_isFixed d hfixed
  have hleft : (d.leaves false).filter (!·.deferred) = d.leaves false :=
    List.filter_eq_self.2 fun l hl => by simp [hnone l hl]
  have hright : order.filter (!·.deferred) = order :=
    List.filter_eq_self.2 fun l hl => by simp [hnone l (hrearranges.perm.mem_iff.1 hl)]
  have horder := hrearranges.kept
  rw [hleft, hright] at horder
  rw [htext, horder]

/-- Rendering conserves text: what is printed, without spaces, tabs and line ends, is that of the
leaves of a resolution of the document, each printed once; those that are not deferred are printed
in order.  Where there is nothing to choose and nothing is deferred, it does not depend on the
settings. -/
theorem render_conserves (d : Doc) (hd : d.every Doc.isColumnAligned = true) :
    (∀ settings, ∃ r order, d.Resolves r ∧ order.Perm (r.leaves false) ∧
      order.filter (!·.deferred) = (r.leaves false).filter (!·.deferred) ∧
      visible (render settings d).toList = visibleOf order) ∧
    (d.every Doc.isFixed = true → ∀ settings settings',
      visible (render settings d).toList = visible (render settings' d).toList) := by
  refine ⟨fun settings => ?_, fun hfixed settings settings' => ?_⟩
  · obtain ⟨r, order, hr, hrearranges, htext⟩ := render_rearranges settings hd
    exact ⟨r, order, hr, hrearranges.perm, hrearranges.kept, htext⟩
  · rw [visible_render_of_isFixed settings hd hfixed, visible_render_of_isFixed settings' hd hfixed]

/-- A deferred comment, a choice and a group of two shapes: the comment is printed behind what follows
it on its line. -/
def commented : Doc :=
  .concat [.text "a(", .lineSuffix (.text " // c"), .ifBreak (.text "b,") (.text "b"),
    .alternatives (.text "d e") [.concat [.text "d", .line .hard, .text "e"]] false, .text ");"]

/-- A document with a deferred comment, which is printed behind its line. -/
theorem render_conserves_commented :
    commented.every Doc.isColumnAligned = true ∧
    render {} commented = "a(b,d e); // c" ∧
    ∃ r order, commented.Resolves r ∧ order.Perm (r.leaves false) ∧
      order.filter (!·.deferred) = (r.leaves false).filter (!·.deferred) ∧
      visible (render {} commented).toList = visibleOf order :=
  ⟨by decide, by decide +kernel, (render_conserves commented (by decide)).1 {}⟩

end Reflow.Layout
