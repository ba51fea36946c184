import Reflow.Grammar.Parse
import Reflow.Proofs.Grammar.Statement

/-!
# What is known of a parsed tree

All rules build rows, by induction on how deep they call each other.  Hence in a parsed tree all
numbers are different and every node is sound, and the comments come in the order of the source.

## Key results

- `parseRule_builds`: every rule builds a node, whatever the depth
- `parse_inOrder`: what is known of a tree and its comments
- `parseOn_eq`: only the calls and endless loops keep a source from being parsed
-/

namespace Reflow.Grammar

/-- A rule that is called builds what it builds. -/
theorem called_builds {parse : Rule → Parse Node} (hp : BuildRules parse) (caller : Rule)
    (before : Nat) : BuildRules (called parse caller before) := by
  -- the note of a call changes none of the places
  have hcalled : ∀ r, Builds (parse r) ([·]) → Builds (called parse caller before r) ([·]) :=
    fun r h s hs =>
      note_leads fun _ => h _ ⟨hs.tidy, hs.front, hs.token, hs.scanner⟩
  exact {
    statement := hcalled _ hp.statement
    expression := hcalled _ hp.expression
    assignment := hcalled _ hp.assignment
    binary := fun least => hcalled _ (hp.binary least)
    unary := hcalled _ hp.unary
    callMember := fun allowCall => hcalled _ (hp.callMember allowCall)
    bindingTarget := hcalled _ hp.bindingTarget
    element := fun after b hback => note_leads fun noted =>
      hp.element after (b.noted noted) hback }

/-- Every rule builds one node, however deep rules may call one another. -/
theorem parseRule_builds (fuel : Nat) : BuildRules (parseRule fuel) := by
  induction fuel with
  | zero =>
    exact ⟨fun _ _ => exhausted_leads, fun _ _ => exhausted_leads, fun _ _ => exhausted_leads,
      fun _ _ _ => exhausted_leads, fun _ _ => exhausted_leads, fun _ _ _ => exhausted_leads,
      fun _ _ => exhausted_leads, fun _ _ _ => exhausted_leads⟩
  | succ fuel ih =>
    -- before its rule, a parser only looks where it stands and notes how deep it is
    have hrule : ∀ r, (∀ before, Builds (rule (called (parseRule fuel) r before) r) ([·])) →
        Builds (parseRule (fuel + 1) r) ([·]) := fun r h s hs =>
      .look _ rfl (noteDepth_leads fun _ _ => h _ _ ⟨hs.tidy, hs.front, hs.token, hs.scanner⟩)
    exact {
      statement := hrule _ fun _ => statement_builds (called_builds ih _ _)
      expression := hrule _ fun _ => expression_builds (called_builds ih _ _)
      assignment := hrule _ fun _ => assignment_builds (called_builds ih _ _)
      binary := fun least => hrule _ fun _ => binary_builds (called_builds ih _ _) least
      unary := hrule _ fun _ => unary_builds (called_builds ih _ _)
      callMember := fun allowCall => hrule _ fun _ =>
        callMember_builds (called_builds ih _ _) allowCall
      bindingTarget := hrule _ fun _ => bindingTarget_builds (called_builds ih _ _)
      element := fun after b hback => .look _ rfl (noteDepth_leads fun deepest _ =>
        elementBody_leads (called_builds ih _ _) after (b.deepest deepest) hback) }

/-- The contents of a source are nodes one after the other. -/
theorem contents_builds (html : Bool) {parse : Rule → Parse Node} (hp : BuildRules parse) :
    Builds (contents html parse) id := by
  refine collect_nodes (moves_of_look fun s => ⟨_, rfl⟩) fun s hs => ?_
  exact either_leads (child_builds hp _ _ s hs) (hp.statement s hs) fun _ _ _ b =>
    pure_leads b.ready b

/-- The root is one node, around the contents, with tidy comments. -/
theorem root_leads (html : Bool) (source : Source) :
    course.Leads (root html) { scanner := .start source, html } fun n s' =>
      n.WellBuilt ∧ n.stop = s'.scanner.position.offset := by
  have htidy : (Scanner.start source).Tidy := trivial
  -- the first token is scanned before any rule
  refine scan_leads (Scan.next_leads htidy _) fun first scanner htidy hprecedes hspan => ?_
  refine modify_leads ⟨Nat.le_refl _, Nat.le_refl _, Nat.zero_le _, .refl _, id,
    .same rfl rfl, Nat.le_max_left _ _⟩ (.get_bind ?_)
  have hs : State.Ready { scanner, token := first, html } :=
    ⟨htidy, Nat.zero_le _, hspan.order, hspan.stop⟩
  have b := (Built.start hs).earlier (Nat.zero_le _)
  -- the statements, from the start of the source
  refine ((contents_builds html (parseRule_builds _)).after b).bind fun nodes s1 h1 b1 => ?_
  refine .get_bind ((nodeAt_leads h1.ready _).bind ?_)
  rintro _ _ h2 ⟨rfl, rfl⟩
  -- the root takes the whole row, from the first character on
  have hwell : ∀ form : Form Node, form.isPlain = true → form.children.map (·.2) = nodes →
      Node.WellBuilt (.mk s1.nextId ⟨{}, s1.scanner.position⟩ form) := by
    intro form hform hl
    have hrow : Row 0 (Position.offset {}) [.mk s1.nextId ⟨{}, s1.scanner.position⟩ form]
        (s1.nextId + 1) s1.scanner.position.offset :=
      b1.row.node hform hl b1.ids (Nat.le_refl _) (Nat.zero_le _) h1.ready.inText.back
    exact ⟨hrow.nodes_nodup, by simpa using hrow.sound, hrow.encloses _ List.mem_cons_self,
      Nat.zero_le _⟩
  split
  · exact fail_leads _ _
  · refine pure_leads h2.ready ?_
    cases html <;> exact ⟨hwell _ rfl (by simp [Form.children, Form.fields]), rfl⟩

/-- A parsed tree is well built, and its comments are not empty and come in the order of the
source. -/
structure Parsed.InOrder (parsed : Parsed) : Prop where
  tree : parsed.root.WellBuilt
  comments : parsed.comments.Pairwise fun a b => a.start < b.start
  extent : ∀ c ∈ parsed.comments, c.start < c.stop

/-- In a parsed tree the nodes and the comments are in order. -/
theorem parse_inOrder {source : Source} {html : Bool} {parsed : Parsed}
    (h : parse source html = .ok parsed) : parsed.InOrder := by
  have hroot := root_leads html source
  unfold parse at h
  rcases hr : root html { scanner := .start source, html } with ⟨fault | n, s⟩
  · simp [hr, Except.map] at h
  · simp only [hr, Except.map, Except.ok.injEq] at h
    subst h
    obtain ⟨hs, hn⟩ := hroot.ok hr
    have htidy := hs.ready.tidy
    exact ⟨hn.1, htidy.pairwise_reverse, fun c hc => htidy.start_lt_stop (List.mem_reverse.1 hc)⟩

/-- On a stack that holds the calls, what is parsed is what would be parsed on any. -/
theorem parse_of_parseOn {stack : Nat} {source : Source} {html : Bool}
    {outcome : Except SourceFault Parsed} (h : parseOn stack source html = some outcome) :
    parse source html = outcome := by
  unfold parseOn at h
  split at h
  next =>
    split at h
    · cases h
    · exact Option.some.inj h
  next => cases h

/-- Without a loop that goes round for ever, only the calls keep a source from being parsed. -/
theorem parseOn_eq {source : Source} {html : Bool}
    (h : ∀ span, parse source html ≠ .error (.grammar .exhausted span)) (stack : Nat) :
    parseOn stack source html =
      if callsOf source html ≤ stack then some (parse source html) else none := by
  unfold parseOn
  split
  next =>
    split
    next span heq => exact absurd heq (h span)
    next => rfl
  next => rfl

end Reflow.Grammar
