import Reflow.Proofs.Grammar.Steps
import Reflow.Proofs.Token.Rescan

/-!
# The parser follows a plain scan

Outside of markup and templates the parser reads all tokens in script mode.  It tries arrow functions
and looks one token ahead, but it comes back to the scanner that it left, comments and all.  So from
one state of the parser to a later one it takes the tokens that a scanner without a parser would take.

Two things keep a parser from this: nodes that are read in other modes, and decorators in front of an
export that is not a class, which are read and then dropped, whatever is in them.  A tree without
either is a `Script`.

`Followed o l s` says that if the nodes `l`, which were built since state `o`, are scripts, the parser
took one token after the other on the way.  `Follows` is the specification of a part of the grammar.

## Key results

- `Follows.after`: what a part of the grammar reads goes behind what was read before
- `node_followed`: the nodes become one node
- `leadingDecorator_of_first`, `leadingDecorator_of_second`, `leadingDecorator_of_third`: an at sign
  that the parser sees in front of an export is seen in the source
-/

namespace Reflow

/-- Where the first decorator stands in an export: before it, behind its first word or behind
`default`. -/
def Scan.leadingDecorator : Scan (Option Position) := do
  let first ← next .script
  if first.text == "@" then return some first.span.start
  let second ← next .script
  if second.text == "@" then return some second.span.start
  if second.text != "default" then return none
  let third ← next .script
  if third.text == "@" then return some third.span.start else return none

/-- Where the first decorator stands in an export that starts at a position. -/
def Source.leadingDecorator? (source : Source) (position : Position) : Option Position :=
  match (Scan.leadingDecorator { source, position }).1 with
  | .ok found => found
  | .error _ => none

/-- What an export declares, if it is one. -/
def Form.exportOf? {α : Type} : Form α → Option (Option α)
  | .exportDefaultDeclaration declaration => some (some declaration)
  | .exportNamedDeclaration declaration _ _ => some declaration
  | _ => none

namespace Node

/-- Is it a template without a tag? -/
def isTemplateLiteral (n : Node) : Bool := n.form matches .templateLiteral ..

/-- Does what is exported start with the decorators that stand in front of it? -/
def keepsDecorators (source : Source) (n : Node) : Bool :=
  match n.form.exportOf?, source.leadingDecorator? n.span.start with
  | some declaration, some position =>
    declaration.any (·.form.decorators.head?.any (·.span.start == position))
  | _, _ => true

/-- Do a node and all nodes below it have a property? -/
def all (p : Node → Bool) (n : Node) : Bool :=
  p n && n.placedChildren.attach.all fun ⟨c, _⟩ => c.2.all p
termination_by sizeOf n
decreasing_by exact sizeOf_placedChild_lt (by assumption)

/-- A test of all nodes is a test of the node and of all nodes in its children. -/
theorem all_iff {p : Node → Bool} {n : Node} :
    n.all p = true ↔ p n = true ∧ ∀ m ∈ n.form.children.map (·.2), m.all p = true := by
  rw [all, Bool.and_eq_true, List.all_eq_true]
  refine and_congr_right fun _ => ⟨fun h m hm => ?_, fun h c _ => ?_⟩
  · obtain ⟨c, hc, rfl⟩ := List.mem_map.1 hm
    exact h ⟨c, hc⟩ (List.mem_attach ..)
  · exact h c.1.2 (List.mem_map_of_mem c.2)

/-- A tree that was read in script mode from its start to its end. -/
def Script (source : Source) (n : Node) : Prop :=
  n.all (fun m => !m.isMarkup && !m.isTemplateLiteral && m.keepsDecorators source) = true

instance (source : Source) (n : Node) : Decidable (n.Script source) :=
  inferInstanceAs (Decidable (_ = true))

namespace Script

variable {source : Source} {n m : Node}

/-- The children of a script are scripts. -/
theorem child (h : n.Script source) (hm : m ∈ n.form.children.map (·.2)) : m.Script source :=
  (all_iff.1 h).2 m hm

/-- A script is no markup and no template, and keeps its decorators. -/
theorem here (h : n.Script source) :
    n.isMarkup = false ∧ n.isTemplateLiteral = false ∧ n.keepsDecorators source = true := by
  simpa [and_assoc] using (all_iff.1 h).1

end Script

end Node

namespace Grammar

/-- From one state to another by taking tokens in script mode. -/
inductive Reads (a : State) : State → Prop
  | same {b : State} (hscanner : b.scanner = a.scanner) (htoken : b.token = a.token) : Reads a b
  | take {b c : State} (h : Reads a b)
      (hnext : Scan.nextScript b.scanner = (.ok c.token, c.scanner)) : Reads a c

/-- The token ahead was read in script mode. -/
def State.Fresh (s : State) : Prop :=
  ∃ before, before.source = s.scanner.source ∧ Scan.nextScript before = (.ok s.token, s.scanner)

namespace Reads

variable {a b c : State}

/-- Tokens that are read one after the other. -/
theorem trans (h : Reads a b) (h' : Reads b c) : Reads a c := by
  induction h' with
  | same hscanner htoken =>
    cases h with
    | same hscanner' htoken' => exact .same (hscanner.trans hscanner') (htoken.trans htoken')
    | take h hnext => exact .take h (by rw [hnext, hscanner, htoken])
  | take _ hnext ih => exact .take ih hnext

/-- The scanner stands behind the token ahead as long as tokens are read in script mode. -/
theorem fresh (h : Reads a b) (ha : a.Fresh) : b.Fresh := by
  induction h with
  | same hscanner htoken =>
    obtain ⟨before, hsource, hnext⟩ := ha
    exact ⟨before, hscanner ▸ hsource, hscanner ▸ htoken ▸ hnext⟩
  | take _ hnext ih => exact ⟨_, (Scan.nextScript_source hnext).symm, hnext⟩

end Reads

/-- If the nodes built since state `o` are scripts, the parser took one token after the other. -/
structure Followed (o : State) (l : List Node) (s : State) : Prop where
  kept : o.Kept s
  reads : o.Fresh → (∀ n ∈ l, n.Script o.scanner.source) → Reads o s

/-- Wherever it starts, a part of the grammar that succeeds takes one token after the other, if the
nodes that it builds are scripts. -/
def Follows {α : Type} (x : Parse α) (nodesOf : α → List Node) : Prop :=
  ∀ s : State, s.Ready → course.Leads x s fun a s' => Followed s (nodesOf a) s'

/-- The steps that take tokens and build nothing. -/
def Passes {α : Type} (x : Parse α) : Prop := Follows x fun _ => []

variable {α : Type} {o s s' : State} {l l' : List Node} {n : Node} {nodesOf : α → List Node}

namespace Followed

/-- Whoever was followed may go on. -/
theorem ready (f : Followed o l s) : s.Ready := f.kept.ready

/-- Nothing was built and no token taken yet. -/
theorem start (hs : s.Ready) : Followed s [] s := ⟨.refl hs, fun _ _ => .same rfl rfl⟩

/-- What is built later is followed from where the earlier nodes have led. -/
theorem append (f : Followed o l s) (f' : Followed s l' s') : Followed o (l ++ l') s' where
  kept := f.kept.trans f'.kept
  reads ho hscript := by
    have h := f.reads ho fun n hn => hscript n (List.mem_append_left _ hn)
    refine h.trans (f'.reads (h.fresh ho) fun n hn => ?_)
    rw [f.kept.scanner.source]
    exact hscript n (List.mem_append_right _ hn)

/-- Nothing is read on the way to a state with the same scanner and token. -/
theorem same (f : Followed o l s) (h : s.Kept s') (hscanner : s'.scanner = s.scanner)
    (htoken : s'.token = s.token) : Followed o l s' :=
  ⟨f.kept.trans h, fun ho hl => (f.reads ho hl).trans (.same hscanner htoken)⟩

/-- One more token is taken, the next one of the scanner. -/
theorem take (f : Followed o l s) (h : s.Kept s')
    (hnext : Scan.nextScript s.scanner = (.ok s'.token, s'.scanner)) : Followed o l s' :=
  ⟨f.kept.trans h, fun ho hl => .take (f.reads ho hl) hnext⟩

/-- Nothing needs to be known of the way to a node that is no script. -/
theorem of_not_script (h : o.Kept s) (hn : ∀ source, ¬n.Script source) (hl : n ∈ l) :
    Followed o l s :=
  ⟨h, fun _ hscript => (hn _ (hscript n hl)).elim⟩

end Followed

/-- What a part of the grammar reads goes behind what was read before. -/
theorem Follows.after {x : Parse α} (h : Follows x nodesOf) (f : Followed o l s) :
    course.Leads x s fun a s' => Followed o (l ++ nodesOf a) s' :=
  (h s f.ready).mono fun _ _ _ f' => f.append f'

/-- So does what is read without making nodes. -/
theorem Passes.after {x : Parse α} (h : Passes x) (f : Followed o l s) :
    course.Leads x s fun _ s' => Followed o l s' :=
  (Follows.after h f).mono fun _ _ _ f' => by simpa using f'

/-! ### Taking tokens -/

/-- To take a token is to have the scanner read the next one in script mode. -/
theorem take_next (hs : s.Ready) :
    course.Leads take s fun t s' =>
      t = s.token ∧ Scan.nextScript s.scanner = (.ok s'.token, s'.scanner) := by
  refine (take_leads hs).with_run.mono fun t s' _ ⟨hrun, ht, _⟩ => ⟨ht, ?_⟩
  rw [take, advance_apply] at hrun
  rcases h : Scan.next .script s.scanner with ⟨fault | token, scanner⟩ <;> rw [h] at hrun
  · cases hrun
  · cases hrun
    exact h

/-- So it is to skip one. -/
theorem skip_next (hs : s.Ready) :
    course.Leads skip s fun _ s' => Scan.nextScript s.scanner = (.ok s'.token, s'.scanner) :=
  .discard ((take_next hs).mono fun _ _ _ h => h.2)

/-- What is taken ends where the token ahead ended. -/
theorem take_stop (s : State) :
    (Course.free State).Leads take s fun _ s' => s'.back = s.token.span.stop.offset := by
  have hrun := advance_apply .script s
  rcases h : Scan.next .script s.scanner with ⟨fault | token, scanner⟩ <;> rw [h] at hrun
  · exact .of_error hrun trivial
  · exact .of_ok hrun trivial rfl

/-- To take a token makes no nodes. -/
theorem take_passes : Passes take := fun _ hs =>
  (take_next hs).mono fun _ _ h hnext => Followed.take (.start hs) h hnext.2

/-- Nor does it to skip one. -/
theorem skip_passes : Passes skip := fun s hs => .discard (take_passes s hs)

/-- Behind a token that is skipped, at least its end was taken. -/
theorem skip_stops (hs : s.Ready) :
    course.Leads skip s fun _ s' => Followed s [] s' ∧ s.token.span.stop.offset ≤ s'.back :=
  .discard ((take_passes s hs).with_run.mono fun _ _ _ ⟨hrun, f⟩ =>
    ⟨f, Nat.le_of_eq ((take_stop s).ok hrun).2.symm⟩)

/-- A token with one of a single text has that text. -/
theorem text_of_isOne {t : Token} {value : String} (h : isOne t [value] = true) :
    t.text = value := by
  simp only [isOne, Bool.and_eq_true, List.contains_eq_mem, List.mem_singleton,
    decide_eq_true_eq] at h
  exact h.2

/-- Behind a token that has to be there, the scanner has read the next one. -/
theorem expect_next (hs : s.Ready) (value : String) :
    course.Leads (expect value) s fun _ s' =>
      s.token.text = value ∧ Scan.nextScript s.scanner = (.ok s'.token, s'.scanner) := by
  refine .look _ rfl (.ite (fun hat => ?_) fun _ => want_leads _)
  exact (skip_next hs).mono fun _ _ _ hnext => ⟨text_of_isOne hat, hnext⟩

/-- An optional token is skipped if it is there. -/
theorem eat_next (hs : s.Ready) (value : String) :
    course.Leads (eat value) s fun found s' =>
      if found then
        s.token.text = value ∧ Scan.nextScript s.scanner = (.ok s'.token, s'.scanner)
      else s' = s := by
  refine .look _ rfl (.ite (fun hat => ?_) fun _ => pure_leads hs rfl)
  exact (skip_next hs).bind fun _ _ h hnext => pure_leads h.ready ⟨text_of_isOne hat, hnext⟩

/-- A step that only looks at the state. -/
theorem passes_of_look {x : Parse α} (h : ∀ s, ∃ a, x s = (.ok a, s)) : Passes x := by
  intro s hs
  obtain ⟨a, ha⟩ := h s
  exact .of_ok ha (.refl hs) (.start hs)

/-- To pass over an optional token makes no nodes. -/
theorem eat_passes (value : String) : Passes (eat value) := fun s hs =>
  .look _ rfl (.ite (fun _ => (skip_passes s hs).bind fun _ _ h f => pure_leads h.ready f) fun _ =>
    pure_leads hs (.start hs))

/-- Nor does a token that has to be there. -/
theorem expect_passes (value : String) : Passes (expect value) := fun s hs =>
  .look _ rfl (.ite (fun _ => skip_passes s hs) fun _ => want_leads _)

/-- Nor does a semicolon. -/
theorem semicolon_passes : Passes semicolon := by
  intro s hs
  refine (eat_passes ";" s hs).bind fun found s' _ f => ?_
  refine .ite (fun _ => .look _ rfl ?_) fun _ => pure_leads f.ready f
  exact .ite (fun _ => want_leads _) fun _ => pure_leads f.ready f

/-- To look at the token behind the next one leaves no trace. -/
theorem second_passes : Passes second := fun _ hs =>
  (second_leads hs).mono fun _ _ h hsame => Followed.same (.start hs) h hsame.1 hsame.2

/-- Nor does it to look at its text. -/
theorem secondText_passes : Passes secondText := fun s hs =>
  (second_passes s hs).bind fun _ _ _ f => pure_leads f.ready f

/-- A step that is made or not before what goes on. -/
theorem when_follows {c : Prop} [Decidable c] {x : Parse PUnit} {f : PUnit → Parse α}
    {Q : α → State → Prop} (hx : Passes x) (b : Followed o l s)
    (h : ∀ s', Followed o l s' → course.Leads (f ⟨⟩) s' Q) :
    course.Leads (if c then x >>= f else f ⟨⟩) s Q :=
  .ite (fun _ => (hx.after b).bind fun _ s' _ b' => h s' b') fun _ => h s b

/-! ### Decorators in front of an export -/

/-- A step behind the next token. -/
theorem next_bind {a b : Scanner} {t : Token} {f : Token → Scan α}
    (h : Scan.nextScript a = (.ok t, b)) : (Scan.next .script >>= f) a = f t b := by
  have hnext : Scan.next .script a = (.ok t, b) := h
  rw [Course.bind_apply, hnext]

/-- The token ahead is found again from its start on. -/
theorem State.Fresh.again (hs : s.Fresh) (comments : List Comment) :
    ∃ comments', Scan.nextScript ⟨s.scanner.source, s.token.span.start, comments⟩ =
      (.ok { s.token with newlineBefore := false }, { s.scanner with comments := comments' }) := by
  obtain ⟨before, hsource, hnext⟩ := hs
  exact hsource ▸ Scan.nextScript_again hnext comments

/-- An at sign that the parser sees first is seen in the source. -/
theorem leadingDecorator_of_first (hs : s.Fresh) (htext : s.token.text = "@") :
    s.scanner.source.leadingDecorator? s.token.span.start = some s.token.span.start := by
  obtain ⟨comments, hfirst⟩ := hs.again []
  rw [Source.leadingDecorator?, Scan.leadingDecorator, next_bind hfirst]
  simp only [htext, beq_self_eq_true, if_true]
  rfl

/-- So is one behind the first word of an export. -/
theorem leadingDecorator_of_second {s1 : State} (hs : s.Fresh) (htext : s.token.text ≠ "@")
    (hnext : Scan.nextScript s.scanner = (.ok s1.token, s1.scanner))
    (htext1 : s1.token.text = "@") :
    s.scanner.source.leadingDecorator? s.token.span.start = some s1.token.span.start := by
  obtain ⟨comments, hfirst⟩ := hs.again []
  obtain ⟨comments', hsecond⟩ := Scan.nextScript_comments hnext comments
  rw [Source.leadingDecorator?, Scan.leadingDecorator, next_bind hfirst]
  simp only [beq_false_of_ne htext, Bool.false_eq_true, if_false, next_bind hsecond, htext1,
    beq_self_eq_true, if_true]
  rfl

/-- So is one behind the word for the default. -/
theorem leadingDecorator_of_third {s1 s2 : State} (hs : s.Fresh) (htext : s.token.text ≠ "@")
    (hnext : Scan.nextScript s.scanner = (.ok s1.token, s1.scanner))
    (htext1 : s1.token.text = "default")
    (hnext1 : Scan.nextScript s1.scanner = (.ok s2.token, s2.scanner))
    (htext2 : s2.token.text = "@") :
    s.scanner.source.leadingDecorator? s.token.span.start = some s2.token.span.start := by
  -- the comments that the scanner has met do not matter for the tokens
  obtain ⟨comments, hfirst⟩ := hs.again []
  obtain ⟨comments', hsecond⟩ := Scan.nextScript_comments hnext comments
  obtain ⟨comments'', hthird⟩ := Scan.nextScript_comments hnext1 comments'
  rw [Source.leadingDecorator?, Scan.leadingDecorator, next_bind hfirst]
  -- three tokens: the export, its `default`, and the sign of the decorator
  have hdefault : ("default" == "@") = false := by decide
  simp only [beq_false_of_ne htext, Bool.false_eq_true, if_false, next_bind hsecond, htext1, hdefault,
    bne_self_eq_false, next_bind hthird, htext2, beq_self_eq_true, if_true]
  rfl

/-! ### Making nodes -/

variable {start : Position} {form : Form Node}

/-- The nodes `l` become children of a new node. -/
theorem nodeAt_made (f : Followed o l s) (span : Span)
    (hl : ∀ m ∈ l, m ∈ form.children.map (·.2)) :
    course.Leads (nodeAt span form) s fun n s' =>
      n.form = form ∧ n.span = span ∧ Followed o [n] s' := by
  refine (nodeAt_leads f.ready span).mono ?_
  rintro _ _ h ⟨rfl, rfl⟩
  refine ⟨rfl, rfl, f.kept.trans h, fun ho hscript => ?_⟩
  have hn := hscript _ List.mem_cons_self
  exact (f.reads ho fun m hm => hn.child (hl m hm)).trans (.same rfl rfl)

/-- A node is followed if it is made of the nodes that were built, all of which are its children. -/
theorem node_made (f : Followed o l s)
    (hl : ∀ m ∈ l, m ∈ form.children.map (·.2)) :
    course.Leads (node start form) s fun n s' =>
      n.form = form ∧ n.span.start = start ∧ Followed o [n] s' := by
  have hmade : course.Leads (node start form) s fun n s' =>
      n.form = form ∧ n.span = ⟨start, s.lastEnd⟩ ∧ Followed o [n] s' := nodeAt_made f _ hl
  exact hmade.mono fun _ _ _ ⟨hform, hspan, f'⟩ => ⟨hform, by rw [hspan], f'⟩

/-- The same without its form and its start. -/
theorem node_followed (f : Followed o l s)
    (hl : ∀ m ∈ l, m ∈ form.children.map (·.2)) :
    course.Leads (node start form) s fun n s' => Followed o [n] s' :=
  (node_made f hl).mono fun _ _ _ h => h.2.2

/-- The token ahead becomes a node. -/
theorem leaf_follows {form : Token → Form Node} (hs : s.Ready) :
    course.Leads (take >>= fun token => node start (form token)) s fun n s' =>
      Followed s [n] s' :=
  (take_passes s hs).bind fun _ _ _ f => node_followed f (by simp)

/-- An identifier takes one token. -/
theorem identifier_follows : Follows identifier ([·]) := fun _ hs =>
  .look _ rfl (unless_leads (want_leads _) (.look _ rfl (leaf_follows hs)))

/-- So does the name of a module. -/
theorem moduleName_follows : Follows moduleName ([·]) := fun _ hs =>
  .look _ rfl (unless_leads (want_leads _) (.look _ rfl (leaf_follows hs)))

/-- So does the name of a property. -/
theorem propertyName_follows : Follows propertyName ([·]) := fun _ hs =>
  .look _ rfl (.look _ rfl (.ite (fun _ => leaf_follows hs) fun _ =>
    .look _ rfl (.ite (fun _ => leaf_follows hs) fun _ => want_leads _)))

/-! ### Going deeper -/

/-- Whether the parser has stalled does not matter to the tokens. -/
theorem Followed.noted (f : Followed o l s) (noted : Bool) :
    Followed o l { s with stalled := s.stalled || noted } :=
  f.same (.noted (.refl f.ready) noted) rfl rfl

/-- Nor does it how deep the calls were. -/
theorem Followed.deepest (f : Followed o l s) {deepest : Nat} (h : s.Before { s with deepest }) :
    Followed o l { s with deepest } :=
  f.same ⟨h, ⟨f.ready.tidy, f.ready.front, f.ready.token, f.ready.scanner⟩⟩ rfl rfl

/-- One level deeper the same tokens are taken. -/
theorem nested_follows {x : Parse α} (hx : Follows x nodesOf) : Follows (nested x) nodesOf := by
  intro s hs
  apply nested_leads (hx _ ⟨hs.tidy, hs.front, hs.token, hs.scanner⟩)
  intro a s' h f
  -- how deep the parser is does not tell what it read
  have hdown : Reads s { s with depth := s.depth + 1 } := .same rfl rfl
  have hup : Reads s' { s' with depth := s'.depth - 1 } := .same rfl rfl
  exact ⟨kept_leave h, fun hfresh hscript => hdown.trans ((f.reads hfresh hscript).trans hup)⟩

/-! ### Loops -/

/-- A loop takes the tokens of its items, one after the other. -/
theorem collect_follows {more : Parse Bool} {item : Parse (α × Bool)} (hmore : Passes more)
    (hitem : Follows item fun r => nodesOf r.1) :
    Follows (collect more item) fun as => as.flatMap nodesOf := fun _ hs =>
  .look _ rfl (collectUpTo_leads (R := Followed _) _ (fun _ _ f => f.ready)
    (fun _ _ f => f.noted) (fun _ _ f => hmore.after f) (fun _ _ f => hitem.after f) _ (.start hs))

/-- So does a loop over items between commas. -/
theorem separated_follows {item : Parse α} (close : String) (hitem : Follows item nodesOf) :
    Follows (separated close item) fun as => as.flatMap nodesOf := by
  refine collect_follows (passes_of_look fun s => ⟨_, rfl⟩) fun s hs => ?_
  refine (hitem s hs).bind fun a s1 _ f1 => ?_
  exact ((eat_passes ",").after f1).bind fun _ _ _ f2 => pure_leads f2.ready f2

/-- Loops over single nodes build the list that they give. -/
theorem collect_each {more : Parse Bool} {item : Parse (Node × Bool)} (hmore : Passes more)
    (hitem : Follows item fun r => [r.1]) : Follows (collect more item) id := by
  have hcollect : Follows (collect more item) fun as => as.flatMap ([·]) :=
    collect_follows hmore hitem
  exact fun s hs => (hcollect s hs).mono fun _ _ _ f => by simpa using f

/-- The same of items that are nodes themselves. -/
theorem separated_each {item : Parse Node} (close : String) (hitem : Follows item ([·])) :
    Follows (separated close item) id := fun s hs =>
  (separated_follows close hitem s hs).mono fun _ _ _ f => by simpa using f

end Grammar

end Reflow
