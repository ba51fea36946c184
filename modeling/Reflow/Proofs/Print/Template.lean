import Reflow.Proofs.Print.Parts

/-!
# What templates mark

A template is printed with its texts and expressions.  One in another language is laid out by the
formatter of that language and brings the comments in its expressions only; if its text cannot be
read, what was marked on the way is forgotten, and it is printed like any other.

## Key results

- `Embeds`: what the printers of a template rely on
- `template_marks`: templates, in their own language or not
-/

namespace Reflow

variable {c : PrintContext} {F : FormatFault → Prop} {root : Node} {d : Nat} {p : Path}
  {print : PrintNode} {α β : Type} {S T : Set Comment}

namespace Embed

/-- A text in another language is laid out if it can be read and is unreadable if not, unless it is
nested deeper than the stack allows.  `fit` puts expressions in their places, which may fail. -/
def Lays (c : PrintContext) (F : FormatFault → Prop) (language : Language) (text : String)
    (fit : Doc → Except SpliceFault Doc) : Prop :=
  ∀ notes, match (c.textToDoc language text notes).1 with
    | .ok d => Print.reads language text = true ∧
        ∀ found, fit d = .error (.mismatch found) → F (.substitution found)
    | .error (.unreadable ..) => Print.reads language text = false
    | .error .tooDeep => F .tooDeep
    | .error _ => False

/-- Puts nothing in the places of a stylesheet's expressions. -/
def fitCss (count : Nat) (d : Doc) : Except SpliceFault Doc :=
  splice .css .css .all id (List.replicate count .empty) d

/-- Puts nothing in the places of the expressions in HTML. -/
def fitHtml (count : Nat) (d : Doc) : Except SpliceFault Doc :=
  splice .html .html .first Doc.grouped (List.replicate count .empty) d.stripTrailingHardline

/-- What the printers of a template rely on. -/
structure Embeds (c : PrintContext) (F : FormatFault → Prop) (quasis expressions : List Node) :
    Prop where
  /-- Only a text in another language is unreadable. -/
  readable : ∀ fault source, ¬F (.unreadable fault source)
  limit : ∀ passed, F (.limit passed)
  css : Lays c F .css (payload .css (quasis.map Node.rawText)) (fitCss expressions.length)
  html : Lays c F .html (payload .html (quasis.map Node.rawText)) (fitHtml expressions.length)

/-- Whether expressions can be put in their places depends on how many there are. -/
theorem splice_error_congr {m : Marker} {language : Language} {shapes : Shapes}
    {wrap wrap' : Doc → Doc} {printed printed' : List Doc} {doc : Doc} {e : SpliceFault}
    (hlength : printed.length = printed'.length)
    (h : splice m language shapes wrap printed doc = .error e) :
    splice m language shapes wrap' printed' doc = .error e := by
  unfold splice at h ⊢
  -- the numbers depend on how many expressions there are, not on how they are printed
  rw [hlength] at h
  dsimp only at h ⊢
  cases hnumbers : (placeholdersOf m shapes doc).mapM
      (placeholderNumber language printed'.length) with
  | error f =>
    rw [hnumbers] at h
    cases h
    rfl
  | ok numbers =>
    rw [hnumbers] at h
    simp only [bind, Except.bind] at h ⊢
    -- a number out of range is the fault, whatever is put in
    split at h
    next => cases h
    next hrange =>
      rw [if_neg hrange]
      exact h

end Embed

open Embed Print

/-- All results of a printer have a property. -/
def Gives (c : PrintContext) (m : Print α) (P : α → Prop) : Prop :=
  ∀ ⦃s s' : PrintedComments⦄ ⦃notes notes' : List Note⦄ ⦃a : α⦄,
    m c s notes = (.ok (a, s'), notes') → P a

/-- A printer behind one whose results have a property. -/
theorem Marks.bind_of {m : Print α} {f : α → Print β} {P : α → Prop} (hm : Marks c F m S)
    (hP : Gives c m P) (hf : ∀ a, P a → Marks c F (f a) T) : Marks c F (m >>= f) (S ∪ T) := by
  intro s notes
  rw [bind_apply]
  -- a fault of the first step is the fault of both
  rcases h : m c s notes with ⟨e | ⟨a, s'⟩, notes'⟩
  · exact hm.fault h
  · -- the second step starts with what the first one gives
    have hfa := hf a (hP h)
    simp only
    rcases h' : f a c s' notes' with ⟨e | ⟨b, s''⟩, notes''⟩
    · exact hfa.fault h'
    · intro k
      rw [hfa.ok h' k, hm.ok h k, or_assoc]
      simp only [Set.mem_union, or_and_right, exists_or]

/-- There is a result for every item. -/
theorem gives_mapM_length {l : List β} {g : β → Print α} :
    Gives c (l.mapM g) fun as => as.length = l.length := by
  -- by induction on the list, running one step at a time
  induction l with
  | nil =>
    intro s s' notes notes' a h
    cases h
    rfl
  | cons b rest ih =>
    intro s s' notes notes' a h
    rw [List.mapM_cons, Marks.bind_apply] at h
    rcases hb : g b c s notes with ⟨e | ⟨x, s₁⟩, notes₁⟩
    · rw [hb] at h
      cases h
    · rw [hb] at h
      simp only [Marks.bind_apply] at h
      rcases hrest : rest.mapM g c s₁ notes₁ with ⟨e | ⟨xs, s₂⟩, notes₂⟩
      · rw [hrest] at h
        cases h
      · rw [hrest] at h
        cases h
        rw [List.length_cons, List.length_cons, ih hrest]

namespace Print

/-! ### Templates as they are -/

/-- To put a document on one line marks nothing, but may pass a limit. -/
theorem onOneLine_marks (hlimit : ∀ passed, F (.limit passed)) (options : Options) (doc : Doc) :
    Marks c F (onOneLine options doc) ∅ := by
  unfold onOneLine
  cases Layout.renderWithin (unlimited options) doc with
  | error passed => exact fun _ _ => hlimit passed
  | ok rendered => exact .quiet fun _ _ => ⟨_, _, rfl⟩

/-- A template marks what is shown at its texts and expressions. -/
theorem templateLiteral_marks (hp : Prints c F root d print) {quasis expressions : List Node}
    (hlimit : ∀ passed, F (.limit passed)) (hquasis : ∀ n ∈ quasis, root.Below d n)
    (hexpressions : ∀ n ∈ expressions, root.Below d n) :
    Marks c F (templateLiteral print p quasis expressions)
      (seenAll c (p.items .expressions expressions) ∪ seenAll c (p.items .quasis quasis)) := by
  unfold templateLiteral
  refine .look _ (fun _ _ => rfl) (.look _ (fun _ _ => rfl) ?_)
  refine (items_marks hp hexpressions).bind fun printed => ?_
  extract_lets simple hole rest
  have hrest : ∀ printed, Marks c F (rest printed) (seenAll c (p.items .quasis quasis)) :=
    fun _ => (items_marks hp hquasis).last fun _ => .pure _
  clear_value rest
  refine .ite (fun _ => ?_) fun _ => hrest printed
  -- simple expressions are laid out on one line
  have hlines : Marks c F (printed.mapM (onOneLine c.options)) ∅ :=
    (Marks.mapM fun doc _ => onOneLine_marks hlimit c.options doc).congr (by simp)
  exact (hlines.bind hrest).congr (Set.empty_union _)

/-! ### Templates in other languages -/

/-- A splice marks nothing, but may find that the placeholders do not match. -/
theorem spliced_marks {result : Except SpliceFault Doc} (hlimit : ∀ passed, F (.limit passed))
    (hfit : ∀ found, result = .error (.mismatch found) → F (.substitution found)) :
    Marks c F (spliced result) ∅ := by
  unfold spliced
  split
  next => exact .pure _
  next found => exact .throw (hfit found rfl)
  next passed => exact .throw (hlimit passed)

/-- The printer gives up, because a text is unreadable or else by a fault in `F`. -/
def GivesUp (c : PrintContext) (F : FormatFault → Prop) (m : Print α) : Prop :=
  ∀ s notes, match (m c s notes).1 with
    | .ok _ => False
    | .error (.unreadable ..) => True
    | .error f => F f

/-- A text that can be read has a document, unless there is no outcome. -/
theorem textToDoc_of_reads {language : Language} {text : String}
    {fit : Doc → Except SpliceFault Doc} (hlays : Lays c F language text fit)
    (h : reads language text = true) (notes : List Note) :
    (∃ notes', c.textToDoc language text notes = (.error .tooDeep, notes') ∧ F .tooDeep) ∨
    ∃ doc notes', c.textToDoc language text notes = (.ok doc, notes') ∧
      ∀ found, fit doc = .error (.mismatch found) → F (.substitution found) := by
  have hlays := hlays notes
  rcases hrun : c.textToDoc language text notes with ⟨f | doc, notes'⟩
  · rw [hrun] at hlays
    cases f <;> simp_all
  · rw [hrun] at hlays
    exact .inr ⟨doc, notes', rfl, hlays.2⟩

/-- A text that cannot be read is unreadable, unless there is no outcome. -/
theorem textToDoc_of_not_reads {language : Language} {text : String}
    {fit : Doc → Except SpliceFault Doc} (hlays : Lays c F language text fit)
    (h : reads language text = false) (notes : List Note) :
    (∃ notes', c.textToDoc language text notes = (.error .tooDeep, notes') ∧ F .tooDeep) ∨
    ∃ fault source notes', c.textToDoc language text notes =
      (.error (.unreadable fault source), notes') := by
  have hlays := hlays notes
  rcases hrun : c.textToDoc language text notes with ⟨f | doc, notes'⟩
  · -- a text that does not read ends in its fault, unless the stack is too small
    rw [hrun] at hlays
    cases f with
    | unreadable fault source => exact .inr ⟨fault, source, notes', rfl⟩
    | tooDeep => exact .inl ⟨notes', rfl, hlays⟩
    | _ => exact hlays.elim
  · rw [hrun] at hlays
    simp [h] at hlays

/-- A run among printers leaves the marks alone. -/
theorem lift_apply (r : Run α) (s : PrintedComments) (notes : List Note) :
    (liftM r : Print α) c s notes = match r notes with
      | (.ok a, notes') => (.ok (a, s), notes')
      | (.error e, notes') => (.error e, notes') := by
  show (ExceptT.bind r fun a => pure (a, s)) notes = _
  simp only [ExceptT.bind, ExceptT.mk, bind, StateT.bind]
  rcases r notes with ⟨_ | _, _⟩ <;> rfl

/-- A text that can be read is laid out without marking anything. -/
theorem embedded_marks {language : Language} {text : String}
    {fit : Doc → Except SpliceFault Doc} (hlays : Lays c F language text fit)
    (h : reads language text = true) {k : Doc → Print α}
    (hk : ∀ doc, (∀ found, fit doc = .error (.mismatch found) → F (.substitution found)) →
      Marks c F (k doc) S) :
    Marks c F (do let doc ← (← read).textToDoc language text; k doc) S := by
  refine .look c (fun _ _ => rfl) ?_
  intro s notes
  rw [Marks.bind_apply, lift_apply]
  -- either the stack is too small, or the document of the text goes on
  rcases textToDoc_of_reads hlays h notes with ⟨notes', hrun, hdeep⟩ | ⟨doc, notes', hrun, hfit⟩
  · rw [hrun]
    exact hdeep
  · rw [hrun]
    exact hk doc hfit s notes'

/-- Where a text cannot be read, what would be put around its document is not reached. -/
theorem embedded_givesUp {language : Language} {text : String}
    {fit : Doc → Except SpliceFault Doc} (hlays : Lays c F language text fit)
    (h : reads language text = false) {k : Doc → Print α} :
    GivesUp c F (do let doc ← (← read).textToDoc language text; k doc) := by
  intro s notes
  -- the outcome of the rest does not matter, for it does not run
  rw [Marks.bind_apply]
  show match (((liftM (c.textToDoc language text) : Print Doc) >>= k) c s notes).1 with
    | .ok _ => False
    | .error (.unreadable ..) => True
    | .error f => F f
  rw [Marks.bind_apply, lift_apply]
  rcases textToDoc_of_not_reads hlays h notes with
    ⟨notes', hrun, hdeep⟩ | ⟨fault, source, notes', hrun⟩
  · rw [hrun]
    exact hdeep
  · rw [hrun]
    trivial

/-- A template that is read as a stylesheet marks what is shown at its expressions. -/
theorem stylesheet_marks (hp : Prints c F root d print) {quasis expressions : List Node}
    (hembeds : Embeds c F quasis expressions) (hexpressions : ∀ n ∈ expressions, root.Below d n)
    (hblank : isBlankTemplate (quasis.map Node.rawText) = false)
    (h : reads .css (payload .css (quasis.map Node.rawText)) = true) :
    Marks c F (stylesheet print p (quasis.map Node.rawText) expressions)
      (seenAll c (p.items .expressions expressions)) := by
  unfold stylesheet
  rw [hblank]
  -- the expressions are printed before they are put in
  refine ((Marks.quiet fun _ _ => ⟨_, _, rfl⟩).bind fun _ => ?_).congr (Set.empty_union _)
  refine embedded_marks hembeds.css h fun doc hfit => ?_
  refine ((items_marks hp hexpressions).bind_of gives_mapM_length fun printed hlength => ?_).congr
    (Set.union_empty _)
  -- a fault of the splice is the one that the payload has, as the numbers tell
  refine (spliced_marks hembeds.limit fun found hsplice => ?_).last fun _ => .pure _
  exact hfit found (splice_error_congr (by simpa [Path.items] using hlength) hsplice)

/-- So does one that is read as HTML. -/
theorem html_marks (hp : Prints c F root d print) {quasis expressions : List Node}
    (hembeds : Embeds c F quasis expressions) (hexpressions : ∀ n ∈ expressions, root.Below d n)
    (hblank : (expressions.isEmpty && isBlankTemplate (quasis.map Node.rawText)) = false)
    (h : reads .html (payload .html (quasis.map Node.rawText)) = true) :
    Marks c F (html print p (quasis.map Node.rawText) expressions)
      (seenAll c (p.items .expressions expressions)) := by
  unfold html
  rw [hblank]
  refine ((Marks.quiet fun _ _ => ⟨_, _, rfl⟩).bind fun _ => ?_).congr (Set.empty_union _)
  -- the expressions are printed before the payload is read
  refine ((items_marks hp hexpressions).bind_of gives_mapM_length fun printed hlength => ?_).congr
    (Set.union_empty _)
  refine embedded_marks hembeds.html h fun doc hfit => ?_
  -- a fault of the splice is the one that the payload has, as the numbers tell
  refine (spliced_marks hembeds.limit fun found hsplice => ?_).last fun _ => .pure _
  exact hfit found (splice_error_congr (by simpa [Path.items] using hlength) hsplice)

/-- A printer behind one that gives up, or that only fails by a fault in `F`. -/
theorem GivesUp.after {m : Print α} {f : α → Print β} (hm : Marks c F m S)
    (hf : ∀ a, GivesUp c F (f a)) : GivesUp c F (m >>= f) := by
  intro s notes
  rw [Marks.bind_apply]
  rcases h : m c s notes with ⟨e | ⟨a, s'⟩, notes'⟩
  · have hfault := hm.fault h
    cases e <;> trivial
  · exact hf a s' notes'

/-- A template that is no stylesheet gives up before anything is marked. -/
theorem stylesheet_givesUp {quasis expressions : List Node}
    (hembeds : Embeds c F quasis expressions)
    (hblank : isBlankTemplate (quasis.map Node.rawText) = false)
    (h : reads .css (payload .css (quasis.map Node.rawText)) = false) :
    GivesUp c F (stylesheet print p (quasis.map Node.rawText) expressions) := by
  unfold stylesheet
  rw [hblank]
  exact .after (.quiet fun _ _ => ⟨_, _, rfl⟩) fun _ => embedded_givesUp hembeds.css h

/-- One that is not HTML gives up, too. -/
theorem html_givesUp (hp : Prints c F root d print) {quasis expressions : List Node}
    (hembeds : Embeds c F quasis expressions) (hexpressions : ∀ n ∈ expressions, root.Below d n)
    (hblank : (expressions.isEmpty && isBlankTemplate (quasis.map Node.rawText)) = false)
    (h : reads .html (payload .html (quasis.map Node.rawText)) = false) :
    GivesUp c F (html print p (quasis.map Node.rawText) expressions) := by
  unfold html
  rw [hblank]
  refine .after (S := ∅) (.quiet fun _ _ => ⟨_, _, rfl⟩) fun _ => ?_
  exact .after (items_marks hp hexpressions) fun _ => embedded_givesUp hembeds.html h

/-! ### Trying another language -/

/-- A fault is handled with the comments that were marked before the attempt. -/
theorem tryCatch_apply (m : Print α) (handle : FormatFault → Print α) (s : PrintedComments)
    (notes : List Note) :
    (tryCatch m handle : Print α) c s notes = match m c s notes with
      | (.ok r, notes') => (.ok r, notes')
      | (.error e, notes') => handle e c s notes' := by
  show (ExceptT.tryCatch (m c s) fun e => handle e c s) notes = _
  simp only [ExceptT.tryCatch, ExceptT.mk, bind, StateT.bind]
  rcases m c s notes with ⟨_ | _, _⟩ <;> rfl

/-- What is done about a fault: an unreadable text is noted, and the printer gives nothing. -/
def noteUnreadable : FormatFault → Print (Option α)
  | .unreadable fault _ => do
    Print.note (.notEmbedded fault.message)
    return none
  | fault => throw fault

/-- Only unreadable texts are handled. -/
theorem noteUnreadable_other {f : FormatFault} (h : ∀ fault source, f ≠ .unreadable fault source) :
    noteUnreadable (α := α) f = throw f := by
  cases f with
  | unreadable fault source => exact absurd rfl (h fault source)
  | _ => rfl

/-- Prints something else where a text is unreadable. -/
def attempt (m rest : Print α) : Print α := do
  (← tryCatch (some <$> m) noteUnreadable).elim rest pure

/-- An attempt gives its document, or goes on with the rest. -/
theorem attempt_eq {m rest : Print α} {handle : FormatFault → Print (Option α)}
    {k : Option α → Print α} (hhandle : ∀ f, handle f = noteUnreadable f)
    (hk : ∀ o, k o = o.elim rest pure) : tryCatch (some <$> m) handle >>= k = attempt m rest := by
  rw [attempt, funext hhandle, funext hk]

/-- A template is read in another language first, and printed as it is if that fails. -/
theorem template_eq {quasis expressions : List Node} :
    template print p quasis expressions = (do
      let texts := quasis.map Node.rawText
      let rest := templateLiteral print p quasis expressions
      match p.embeddedLanguage? (← attachments) with
      | some .css => attempt (stylesheet print p texts expressions) rest
      | some .html => attempt (html print p texts expressions) rest
      | _ => rest) := by
  unfold template template?
  simp only [bind_assoc]
  congr 1
  funext a
  -- which languages are embedded
  cases p.embeddedLanguage? a with
  | none => rfl
  | some language =>
    cases language with
    | css | html => exact attempt_eq (fun f => by cases f <;> rfl) fun o => by cases o <;> rfl
    | visionx | script => rfl

/-- Where a printer does not give up, nothing is printed behind it. -/
theorem attempt_marks {m rest : Print α} (hreadable : ∀ fault source, ¬F (.unreadable fault source))
    (hm : Marks c F m S) :
    Marks c F (attempt m rest) S := by
  intro s notes
  rw [attempt, Marks.bind_apply, tryCatch_apply, ← bind_pure_comp, Marks.bind_apply]
  rcases h : m c s notes with ⟨f | ⟨a, s'⟩, notes'⟩
  · have hF := hm.fault h
    simp only
    rw [noteUnreadable_other fun fault source hf => hreadable fault source (hf ▸ hF)]
    exact hF
  · exact hm.ok h

/-- What was marked before a printer gave up is forgotten. -/
theorem attempt_givesUp {m rest : Print α} (hm : GivesUp c F m) (hrest : Marks c F rest S) :
    Marks c F (attempt m rest) S := by
  intro s notes
  rw [attempt, Marks.bind_apply, tryCatch_apply, ← bind_pure_comp, Marks.bind_apply]
  have hm := hm s notes
  rcases h : m c s notes with ⟨f | ⟨a, s'⟩, notes'⟩
  · rw [h] at hm
    -- only a text that does not read is given up; any other fault is passed on
    by_cases hf : ∃ fault source, f = .unreadable fault source
    · obtain ⟨fault, source, rfl⟩ := hf
      exact hrest s _
    · simp only [not_exists] at hf
      simp only
      rw [noteUnreadable_other hf]
      cases f with
      | unreadable fault source => exact absurd rfl (hf fault source)
      | _ => exact hm
  · -- with a text that does not read there is no other outcome
    rw [h] at hm
    exact hm.elim

section

-- where the printers go is read off the form
attribute [local simp] Visit.inner Visit.goesTo Visit.inlines Visit.showsInside Visit.borrowed
  Visit.earlyDecorators Form.exported? Path.inside_eq Path.ofField Form.fields Path.mem_items seen
  seenAll

/-- What is shown inside a template depends on how it is printed. -/
theorem inner_of_templateParts {quasis expressions : List Node} {inline : Bool}
    (hform : p.node.form = .templateLiteral quasis expressions) :
    Visit.inner c ⟨p, inline⟩ = match templateParts c.attachments p quasis expressions with
      | .all => seenAll c (p.items .expressions expressions) ∪ seenAll c (p.items .quasis quasis)
      | .expressions => seenAll c (p.items .expressions expressions)
      | .nothing => ∅ := by
  ext x
  -- by what the template prints
  cases hparts : templateParts c.attachments p quasis expressions
  · simp [hform, hparts]
    grind
  · simp [hform, hparts]
    grind [Path.slot?_item]
  · simp [hform, hparts]

end

/-- However a template is printed, it marks what is shown in it. -/
theorem template_marks (hp : Prints c F root d print) {quasis expressions : List Node}
    (hform : p.node.form = .templateLiteral quasis expressions)
    (hembeds : Embeds c F quasis expressions) (hquasis : ∀ n ∈ quasis, root.Below d n)
    (hexpressions : ∀ n ∈ expressions, root.Below d n) :
    Marks c F (template print p quasis expressions) (Visit.inner c { path := p }) := by
  have hplain := templateLiteral_marks (p := p) hp hembeds.limit hquasis hexpressions
  rw [inner_of_templateParts hform, template_eq]
  refine .look c.attachments (fun _ _ => rfl) ?_
  unfold templateParts
  -- by the language, whether the payload is blank, and whether it reads
  cases hlanguage : p.embeddedLanguage? c.attachments with
  | none => exact hplain
  | some language =>
    cases language with
    | css =>
      dsimp only
      cases hblank : isBlankTemplate (quasis.map Node.rawText) with
      | true =>
        -- a blank template prints nothing of its own
        have hempty : Marks c F (stylesheet print p (quasis.map Node.rawText) expressions) ∅ := by
          unfold stylesheet
          rw [hblank]
          exact .pure _
        exact attempt_marks hembeds.readable hempty
      | false =>
        cases hreads : reads .css (payload .css (quasis.map Node.rawText)) with
        | true =>
          exact attempt_marks hembeds.readable
            (stylesheet_marks hp hembeds hexpressions hblank hreads)
        -- what does not read is printed as the template that it is
        | false => exact attempt_givesUp (stylesheet_givesUp hembeds hblank hreads) hplain
    | html =>
      dsimp only
      cases hblank : expressions.isEmpty && isBlankTemplate (quasis.map Node.rawText) with
      | true =>
        have hempty : Marks c F (html print p (quasis.map Node.rawText) expressions) ∅ := by
          unfold html
          rw [hblank]
          exact .pure _
        exact attempt_marks hembeds.readable hempty
      | false =>
        cases hreads : reads .html (payload .html (quasis.map Node.rawText)) with
        | true =>
          exact attempt_marks hembeds.readable
            (html_marks hp hembeds hexpressions hblank hreads)
        | false =>
          exact attempt_givesUp (html_givesUp hp hembeds hexpressions hblank hreads) hplain
    | _ => exact hplain

end Print

end Reflow
