import Reflow.Proofs.Grammar.Html
import Reflow.Proofs.Print.Node
import Reflow.Proofs.Stylesheet.Places

/-!
# When formatting gives up

A script that can be read is formatted unless one of its comments is not shown.  The texts of
templates in other languages never get in the way: those that cannot be read are printed as they are,
and the trees of the others have no comments to lose.

## Key results

- `printParsed_outcome`: a parsed source is printed if all its comments are shown
- `textToDoc_reads`: the texts of templates in other languages
- `format_ends`: what a format call can end with
-/

namespace Reflow

variable {F : FormatFault → Prop} {options : Options} {embed : Language → String → Run Doc}
  {fragment html : Bool} {cursorNode : Option Nat} {parsed : Grammar.Parsed} {source : Source}

namespace Format

/-- What the printers of a parsed source share. -/
def contextOf (embed : Language → String → Run Doc) (options : Options) (fragment : Bool)
    (cursorNode : Option Nat) (parsed : Grammar.Parsed) : PrintContext :=
  { options, source := parsed.source, comments := parsed.comments
    attachments := attachComments parsed.root parsed.comments parsed.source
    fragment, cursorNode, textToDoc := embed }

/-- A run that keeps the first of two results keeps it of either outcome. -/
theorem Run.map_fst {α β : Type} (r : Run (α × β)) (notes : List Note) :
    ((r >>= fun x => pure x.1 : Run α) notes).1 = (r notes).1.map (·.1) := by
  rw [Course.bind_apply]
  rcases r notes with ⟨_ | _, _⟩ <;> rfl

/-- A tree is printed behind a note of how many comments there are. -/
theorem printParsed_apply (notes : List Note) :
    (printParsed embed options fragment cursorNode parsed notes).1 =
      (Print.tree parsed.root (contextOf embed options fragment cursorNode parsed) {}
        (notes ++ [.attachedComments parsed.comments.length])).1.map (·.1) := by
  show ((Print.tree parsed.root (contextOf embed options fragment cursorNode parsed) {}
    >>= fun r => pure r.1 : Run Doc) (notes ++ [.attachedComments parsed.comments.length])).1 = _
  exact Run.map_fst _ _

/-- Only comments of the source are attached. -/
theorem attached_mem (h : parsed.InOrder) (n : Node) :
    ∀ a ∈ (attachComments parsed.root parsed.comments source).of n, a.comment ∈ parsed.comments := by
  intro a ha
  have hordered : Attach.Ordered parsed.root source parsed.comments
      ⟨attachComments parsed.root parsed.comments source, []⟩ :=
    Attach.attachComments_ordered h.tree h.comments fun c hc => Nat.le_of_lt (h.extent c hc)
  have hperm := hordered.perm
  rw [List.map_nil, List.append_nil] at hperm
  exact hperm.mem_iff.1 (List.mem_map.2 ⟨a, (List.mem_filter.1 ha).1, rfl⟩)

/-- Two comments that start at one place are the same. -/
theorem eq_of_start (h : parsed.InOrder) : ∀ x ∈ parsed.comments, ∀ y ∈ parsed.comments,
    x.start = y.start → x = y := by
  intro x hx y hy heq
  have hnodup : (parsed.comments.map (·.start)).Nodup :=
    List.pairwise_map.2 (h.comments.imp Nat.ne_of_lt)
  exact List.inj_on_of_nodup_map hnodup hx hy heq

/-- A parsed source is printed if all its comments are shown, and given up on for one that is not. -/
theorem printParsed_outcome (h : parsed.InOrder)
    (hembeds : Print.EmbedsAll (contextOf embed options fragment cursorNode parsed) F parsed.root)
    (notes : List Note) :
    Print.Outcome F parsed.comments
      (Shown (contextOf embed options fragment cursorNode parsed) { path := .ofRoot parsed.root })
      (printParsed embed options fragment cursorNode parsed notes).1 := by
  have houtcome := Print.tree_outcome h.tree hembeds (attached_mem h) (eq_of_start h)
    (notes ++ [.attachedComments parsed.comments.length])
  rw [printParsed_apply]
  exact houtcome.map (·.1)

/-! ### Templates in other languages -/

/-- What comes of reading a source on the stack, as a run. -/
theorem parse_apply (options : Options) (source : Source) (notes : List Note) :
    parse options source notes =
      (match Grammar.parseOn stackSize source (options.parser == .html) with
      | some (.ok parsed) => .ok parsed
      | some (.error fault) => .error (.unreadable fault source)
      | none => .error .tooDeep, notes) := by
  unfold parse
  rcases Grammar.parseOn stackSize source (options.parser == .html) with _ | _ | _ <;> rfl

/-- HTML is read before it is printed, in a document that holds no other language. -/
theorem docWithin_html (options : Options) (depth : Nat) (text : String) (notes : List Note) :
    docWithin (depth + 1) { options with parser := .html } text notes =
      (parse { options with parser := .html } (.ofString text) >>=
        printParsed (fun language => docWithin depth { options with parser := language })
          { options with parser := .html } false none : Run Doc)
            (notes ++ [.readingSource .html (Source.ofString text).size]) := by
  rw [docWithin]
  rfl

/-- HTML is printed whenever it can be read: there are no comments to lose, and no templates. -/
theorem printParsed_html (h : Grammar.parse source true = .ok parsed) (notes : List Note) :
    ∃ doc, (printParsed embed options fragment cursorNode parsed notes).1 = .ok doc := by
  obtain ⟨hcomments, hplain⟩ := Grammar.parse_html h
  -- in HTML there is no template that could embed anything
  have hembeds : Print.EmbedsAll (contextOf embed options fragment cursorNode parsed)
      (fun _ => False) parsed.root :=
    fun n quasis expressions hn hform => absurd hform (hplain n hn quasis expressions)
  have houtcome := printParsed_outcome (Grammar.parse_inOrder h) hembeds notes
  -- the printing ends with a comment that was lost, of which there is none, or with a document
  rcases hrun : (printParsed embed options fragment cursorNode parsed notes).1 with f | doc
  · rw [hrun] at houtcome
    rcases houtcome with hfalse | ⟨x, hx, -⟩
    · exact hfalse.elim
    · simp [hcomments] at hx
  · exact ⟨doc, rfl⟩

/-- A stylesheet has a document if it can be read, and is unreadable if not, unless it is nested too
deeply for the stack. -/
theorem textToDoc_css (options : Options) (text : String) (notes : List Note) :
    (Format.textToDoc { options with parser := .css } text notes).1 = .error .tooDeep ∨
    (Print.reads .css text = true ∧
      ∃ doc, (Format.textToDoc { options with parser := .css } text notes).1 = .ok doc) ∨
    (Print.reads .css text = false ∧
      ∃ fault source, (Format.textToDoc { options with parser := .css } text notes).1 =
        .error (.unreadable fault source)) := by
  rw [Stylesheet.textToDoc_apply rfl]
  -- what the outcome says about the reading
  have hreads := Stylesheet.outcomeOf_reads (.ofString text)
  show _ ∨ (Stylesheet.read (.ofString text)).isOk = true ∧ _ ∨
    (Stylesheet.read (.ofString text)).isOk = false ∧ _
  -- the stylesheet gives a document, is too deep, or cannot be read
  cases houtcome : Stylesheet.outcomeOf (.ofString text) with
  | ok doc =>
    rw [houtcome] at hreads
    obtain ⟨statements, hread, -, -⟩ := hreads
    exact .inr (.inl ⟨by rw [hread]; rfl, doc, rfl⟩)
  | error fault =>
    rw [houtcome] at hreads
    cases fault with
    | tooDeep => exact .inl rfl
    | unreadable fault place => exact .inr (.inr ⟨by rw [hreads.1]; rfl, fault, place, rfl⟩)
    | _ => exact hreads.elim

/-- HTML has a document if it can be read, and is unreadable if not, unless reading it has no
outcome. -/
theorem textToDoc_html (options : Options) (text : String) (notes : List Note) :
    (Format.textToDoc { options with parser := .html } text notes).1 = .error .tooDeep ∨
    (Print.reads .html text = true ∧
      ∃ doc, (Format.textToDoc { options with parser := .html } text notes).1 = .ok doc) ∨
    (Print.reads .html text = false ∧
      ∃ fault source, (Format.textToDoc { options with parser := .html } text notes).1 =
        .error (.unreadable fault source)) := by
  have hrun := congrArg Prod.fst (docWithin_html options 1 text notes)
  rw [Course.bind_apply, parse_apply] at hrun
  -- on the stack the text reads as it does without one
  have hreads : ∀ {outcome}, Grammar.parseOn stackSize (.ofString text) true = some outcome →
      Print.reads .html text = outcome.isOk := by
    intro outcome hread
    show (Grammar.parse (.ofString text) true).isOk = _
    rw [Grammar.parse_of_parseOn hread]
  rw [show (Language.html == .html) = true from rfl] at hrun
  -- the stack is exceeded, the text cannot be read, or there is a tree
  rcases hread : Grammar.parseOn stackSize (.ofString text) true with _ | fault | parsed
  · rw [hread] at hrun
    exact .inl hrun
  · -- the fault is that of the reader
    rw [hread] at hrun
    exact .inr (.inr ⟨hreads hread, fault, _, hrun⟩)
  · rw [hread] at hrun
    -- the tree of a markup text is always printed
    obtain ⟨doc, hdoc⟩ := printParsed_html (Grammar.parse_of_parseOn hread) _
    exact .inr (.inl ⟨hreads hread, doc, hrun.trans hdoc⟩)

/-- A text in another language has a document if it can be read, and is unreadable if not, unless there
is no outcome. -/
theorem textToDoc_reads (options : Options) {language : Language}
    (hlanguage : language = .css ∨ language = .html) (text : String) (notes : List Note) :
    (Format.textToDoc { options with parser := language } text notes).1 = .error .tooDeep ∨
    (Print.reads language text = true ∧
      ∃ doc, (Format.textToDoc { options with parser := language } text notes).1 = .ok doc) ∨
    (Print.reads language text = false ∧
      ∃ fault source, (Format.textToDoc { options with parser := language } text notes).1 =
        .error (.unreadable fault source)) := by
  rcases hlanguage with rfl | rfl
  · exact textToDoc_css options text notes
  · exact textToDoc_html options text notes

/-- The expressions of a template do not match the placeholders in the document of its text. -/
def Misfits (c : PrintContext) (quasis expressions : List Node) (found : Embed.Mismatch) : Prop :=
  ∃ notes doc,
    ((c.textToDoc .css (Embed.payload .css (quasis.map Node.rawText)) notes).1 = .ok doc ∧
      Embed.fitCss expressions.length doc = .error (.mismatch found)) ∨
    ((c.textToDoc .html (Embed.payload .html (quasis.map Node.rawText)) notes).1 = .ok doc ∧
      Embed.fitHtml expressions.length doc = .error (.mismatch found))

/-- There is a template in the tree whose texts and expressions have a property. -/
def HasTemplate (root : Node) (P : List Node → List Node → Prop) : Prop :=
  ∃ n quasis expressions, root.Reaches n ∧ n.form = .templateLiteral quasis expressions ∧
    P quasis expressions

/-- What can keep a tree from being printed besides its comments: a template whose expressions do
not match its placeholders, that passes a limit, or that is nested too deeply for the stack. -/
def IsTemplateFault (c : PrintContext) (root : Node) : FormatFault → Prop
  | .substitution found => HasTemplate root fun quasis expressions =>
      Misfits c quasis expressions found
  | .limit _ | .tooDeep => HasTemplate root fun _ _ => True
  | _ => False

/-- What formats embedded text in a template is the formatter itself, for the parser of the
language. -/
theorem embedsAll {c : PrintContext} {root : Node}
    (hc : c.textToDoc = fun language => Format.textToDoc { options with parser := language }) :
    Print.EmbedsAll c (IsTemplateFault c root) root := by
  intro n quasis expressions hn hform
  -- a language that is embedded, and the fit of its document
  have hlays : ∀ {language : Language} {text : String} {fit : Doc → Except Embed.SpliceFault Doc},
      (language = .css ∨ language = .html) →
      (∀ notes doc found, (c.textToDoc language text notes).1 = .ok doc →
        fit doc = .error (.mismatch found) → Misfits c quasis expressions found) →
      Embed.Lays c (IsTemplateFault c root) language text fit := by
    intro language text fit hlanguage hfit notes
    have hfit := hfit notes
    rw [hc] at hfit ⊢
    -- the text is too deep, is read and laid out, or cannot be read
    rcases textToDoc_reads options hlanguage text notes with
      hdeep | ⟨hreads, doc, hdoc⟩ | ⟨hreads, fault, source, hfault⟩
    · simp only [hdeep]
      exact ⟨n, quasis, expressions, hn, hform, trivial⟩
    · simp only [hdoc] at hfit ⊢
      -- what does not fit has the wrong placeholders
      exact ⟨hreads, fun found hfound =>
        ⟨n, quasis, expressions, hn, hform, hfit doc found rfl hfound⟩⟩
    · simp only [hfault]
      exact hreads
  exact {
    readable := fun _ _ h => h
    limit := fun _ => ⟨n, quasis, expressions, hn, hform, trivial⟩
    css := hlays (.inl rfl) fun notes doc found hdoc hfit => ⟨notes, doc, .inl ⟨hdoc, hfit⟩⟩
    html := hlays (.inr rfl) fun notes doc found hdoc hfit => ⟨notes, doc, .inr ⟨hdoc, hfit⟩⟩ }

/-- The surroundings in which a script is printed. -/
def scriptContext (options : Options) (fragment : Bool) (parsed : Grammar.Parsed) : PrintContext :=
  contextOf (fun language => textToDoc { options with parser := language }) options fragment none
    parsed

/-- How a call for a script can end.  It succeeds only if all comments are shown, and fails for a
comment only if that is not shown.  Otherwise a template does not give its placeholders back or is
nested too deeply for the stack, or a limit is passed: by a template, or one for which `passes`
holds. -/
def Ends {α : Type} (c : PrintContext) (root : Node) (passes : Limit → Prop) :
    Except FormatFault α → Prop
  | .ok _ => ∀ x ∈ c.comments, Shown c { path := .ofRoot root } x
  | .error (.lostComment x) => x ∈ c.comments ∧ ¬Shown c { path := .ofRoot root } x
  | .error (.substitution found) => HasTemplate root fun quasis expressions =>
      Misfits c quasis expressions found
  | .error (.limit passed) => (HasTemplate root fun _ _ => True) ∨ passes passed
  | .error .tooDeep => HasTemplate root fun _ _ => True
  | .error _ => False

/-- How printing a tree ends is how formatting it ends: with a document in which every comment is
shown, or with a fault of a template or of a comment that is not printed. -/
theorem Ends.of_outcome {α : Type} {c : PrintContext} {root : Node} {passes : Limit → Prop}
    {r : Except FormatFault α}
    (h : Print.Outcome (IsTemplateFault c root) c.comments (Shown c { path := .ofRoot root }) r) :
    Ends c root passes r := by
  -- the printing gave a document, or failed
  cases r with
  | ok a => exact h
  | error f =>
    -- a fault of a template, or a comment that was not printed
    rcases h with hfault | ⟨x, hx, rfl, hlost⟩
    · cases f with
      | substitution found => exact hfault
      | limit passed => exact .inl hfault
      | tooDeep => exact hfault
      | _ => exact hfault.elim
    · exact ⟨hx, hlost⟩

/-- So the document of a text that is parsed ends in one of these ways. -/
theorem treeToDoc_ends {text : String} (h : Grammar.parse (.ofString text) html = .ok parsed)
    (passes : Limit → Prop) (notes : List Note) :
    Ends (scriptContext options fragment parsed) parsed.root passes
      (treeToDoc options fragment none parsed notes).1 :=
  .of_outcome (printParsed_outcome (Grammar.parse_inOrder h) (embedsAll rfl) notes)

/-- What a document is laid out to. -/
def laidOut (options : Options) (doc : Doc) : Except FormatFault String :=
  match Layout.renderWithin options.settings doc with
  | .ok rendered => .ok rendered.text
  | .error passed => .error (.limit passed)

/-- What follows the document of a run is its layout. -/
theorem laidOut_apply (r : Run Doc) (notes : List Note) :
    ((r >>= fun doc => do
        let rendered ← Run.within (Layout.renderWithin options.settings doc)
        Run.note (.laidOut rendered.text.length options.printWidth)
        return ⟨rendered.text, none⟩ : Run Formatted) notes).1.map (·.text) =
      (r notes).1.bind (laidOut options) := by
  rw [Course.bind_apply]
  -- a fault goes through, and a document is laid out
  rcases r notes with ⟨f | doc, notes'⟩
  · rfl
  · show Except.map _ (Prod.fst ((Run.within (Layout.renderWithin options.settings doc) >>= _ :
      Run Formatted) notes')) = laidOut options doc
    -- the layout meets a limit or not
    unfold laidOut
    cases Layout.renderWithin options.settings doc <;> rfl

/-- A script that is parsed is formatted by printing its tree and laying it out. -/
theorem formatTree_apply (fragment : Bool) {text : String}
    (h : Grammar.parseOn stackSize (.ofString text) (options.parser == .html) = some (.ok parsed))
    (notes : List Note) :
    (formatTree options fragment none text notes).1.map (·.text) =
      (treeToDoc options fragment none parsed
        (notes ++ [.foundComments parsed.comments.length])).1.bind (laidOut options) := by
  rw [← laidOut_apply]
  unfold formatTree parse
  rw [h]
  rfl

/-- So is a text of either script parser, from the start. -/
theorem format_eq (hparser : options.parser = .visionx ∨ options.parser = .script) {text : String}
    (h : Grammar.parseOn stackSize (.ofString text) false = some (.ok parsed)) :
    format options text =
      (treeToDoc options false none parsed [.foundComments parsed.comments.length]).1.bind
        (laidOut options) := by
  -- the run is read off by its first component
  have hhtml : (options.parser == .html) = false := by
    rcases hparser with hparser | hparser <;> rw [hparser] <;> rfl
  have htree := formatTree_apply false (hhtml ▸ h) []
  rw [← List.nil_append [Note.foundComments _], ← htree]
  -- a script is no stylesheet
  have hcss : (options.parser == .css) = false := by
    rcases hparser with hparser | hparser <;> rw [hparser] <;> rfl
  have hsource : (formatSource options false none text).result =
      (formatTree options false none text []).1 := by
    unfold formatSource Run.result formatText
    rw [hcss]
    rfl
  show (formatSource options false none text).result.map (·.text) = _
  rw [hsource]

/-- The document of a script passes a limit when it is laid out. -/
def PassesLimit (options : Options) (parsed : Grammar.Parsed) (passed : Limit) : Prop :=
  ∃ notes doc, (treeToDoc options false none parsed notes).1 = .ok doc ∧
    Layout.firstLimit? options.settings doc = some passed

/-- Layout adds one more way to end: a limit that the document does not keep. -/
theorem laidOut_ends {c : PrintContext} {notes : List Note}
    (h : Ends c parsed.root (PassesLimit options parsed)
      (treeToDoc options false none parsed notes).1) :
    Ends c parsed.root (PassesLimit options parsed)
      ((treeToDoc options false none parsed notes).1.bind (laidOut options)) := by
  -- without a document the fault is that of the printing
  cases hrun : (treeToDoc options false none parsed notes).1 with
  | error f =>
    rw [hrun] at h
    cases f <;> exact h
  | ok doc =>
    rw [hrun] at h
    show Ends c parsed.root (PassesLimit options parsed) (laidOut options doc)
    unfold laidOut Layout.renderWithin
    -- with one the layout may meet a limit
    cases hlimit : Layout.firstLimit? options.settings doc with
    | none => exact h
    | some passed => exact .inr ⟨notes, doc, hrun, hlimit⟩

/-- The document of a script that is parsed is that of its tree. -/
theorem documentOf_eq (hparser : options.parser = .visionx ∨ options.parser = .script)
    {text : String} (h : Grammar.parseOn stackSize (.ofString text) false = some (.ok parsed)) :
    documentOf options fragment text = (treeToDoc options fragment none parsed []).1 := by
  have hhtml : (options.parser == .html) = false := by
    rcases hparser with hparser | hparser <;> rw [hparser] <;> rfl
  have hcss : (options.parser == .css) = false := by
    rcases hparser with hparser | hparser <;> rw [hparser] <;> rfl
  unfold documentOf parse
  rw [hcss, hhtml, h]
  rfl

end Format

/-- A script that can be read on the stack is printed and formatted if all its comments are shown, and
given up on for a comment that is not. -/
theorem format_ends {options : Options} {text : String} {parsed : Grammar.Parsed}
    (hparser : options.parser = .visionx ∨ options.parser = .script)
    (h : Grammar.parseOn Format.stackSize (.ofString text) false = some (.ok parsed)) :
    (∀ fragment, Format.Ends (Format.scriptContext options fragment parsed) parsed.root
      (fun _ => False) (documentOf options fragment text)) ∧
    Format.Ends (Format.scriptContext options false parsed) parsed.root
      (Format.PassesLimit options parsed) (format options text) := by
  constructor
  · intro fragment
    rw [Format.documentOf_eq hparser h]
    exact Format.treeToDoc_ends (Grammar.parse_of_parseOn h) _ _
  · rw [Format.format_eq hparser h]
    exact Format.laidOut_ends (Format.treeToDoc_ends (Grammar.parse_of_parseOn h) _ _)

set_option maxRecDepth 100000 in
/-- A comment behind an empty statement is lost: a source that can be read is not formatted. -/
theorem format_loses_comment :
    (Grammar.parse (.ofString ";// c") false).isOk = true ∧
      ∃ x, format { parser := .script } ";// c" = .error (.lostComment x) := by
  refine ⟨by decide +kernel, ⟨.line, " c", ⟨⟨1, 2, 1⟩, ⟨1, 6, 5⟩⟩⟩, ?_⟩
  decide +kernel

set_option maxRecDepth 100000 in
/-- Without semicolons, a formatted class cannot be read again: the method whose name loses its quotes
continues the property before it. -/
theorem format_joins_members :
    let source := "class A \x7b x = y; 'in'()\x7b\x7d \x7d"
    (∃ text, format { parser := .script } source = .ok text ∧
      (Grammar.parse (.ofString text) false).isOk = true) ∧
    ∃ text, format { parser := .script, semi := false } source = .ok text ∧
      (Grammar.parse (.ofString text) false).isOk = false := by
  refine ⟨⟨"class A \x7b\n  x = y;\n  in() \x7b\x7d\n\x7d\n", ?_, ?_⟩,
    ⟨"class A \x7b\n  x = y\n  in() \x7b\x7d\n\x7d\n", ?_, ?_⟩⟩ <;> decide +kernel

set_option maxRecDepth 100000 in
/-- A formatted decorator cannot be read again: its expression has lost its parentheses. -/
theorem format_bares_decorator :
    let text := "@a[b]\nclass A \x7b\x7d\n"
    format { parser := .script } "@(a[b])\nclass A \x7b\x7d" = .ok text ∧
      (format { parser := .script } text).isOk = false := by
  refine ⟨?_, ?_⟩ <;> decide +kernel

set_option maxRecDepth 100000 in
/-- A comment in a hole of an array goes on over the bracket that closes it, so that the formatted
array cannot be read again. -/
theorem format_swallows_bracket :
    let text := "[,// hole];\n"
    format { parser := .script } "[, // hole\n]" = .ok text ∧
      (Grammar.parse (.ofString text) false).isOk = false := by
  refine ⟨?_, ?_⟩ <;> decide +kernel

end Reflow
