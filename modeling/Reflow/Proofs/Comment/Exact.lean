import Reflow.Proofs.Grammar.FollowRules

/-!
# The comments of a source are exact

However often the parser tries something and comes back, the comments that it hands out are those of
the source: one behind the other, each copied from its place, and where the tree is a script, just the
comments that a scanner meets which reads the source in script mode from the start to the end.

## Key results

- `parse_comments_exact`: what is known of the comments of a parsed source
- `comments_differ`: decorators that an export drops may hold a template, and in it the scanner takes
  text for a comment
-/

namespace Reflow

/-- The scanner reads one token of a script after the other, up to the end of the source. -/
inductive Scan.ToEnd : Scanner → Scanner → Prop
  | last {s s' : Scanner} {t : Token} (hnext : next .script s = (.ok t, s'))
      (ht : t.kind = .endOfInput) : ToEnd s s'
  | more {s s1 s' : Scanner} {t : Token} (hnext : next .script s = (.ok t, s1))
      (ht : t.kind ≠ .endOfInput) (h : ToEnd s1 s') : ToEnd s s'

/-- The scanner at the end of the source, if it is not more than some tokens away. -/
def Scan.toEnd? : Nat → Scanner → Option Scanner
  | 0, _ => none
  | n + 1, s =>
    match next .script s with
    | (.ok t, s') => if t.kind = .endOfInput then some s' else toEnd? n s'
    | (.error _, _) => none

/-- The run that is computed is a run. -/
theorem Scan.toEnd_of_toEnd? {n : Nat} {s s' : Scanner} (h : toEnd? n s = some s') :
    ToEnd s s' := by
  -- induction on the tokens that may still be read
  induction n generalizing s with
  | zero => cases h
  | succ n ih =>
    unfold toEnd? at h
    split at h
    next t s1 hnext =>
      -- the last token is the end
      split at h
      next ht =>
        cases h
        exact .last hnext ht
      -- another token follows
      next ht => exact .more hnext ht (ih h)
    next => cases h

namespace Grammar

variable {parse : Rule → Parse Node} {s : State}

/-- Who takes one token after the other, from the first one to the end of the source, reads the source
as a scanner does. -/
theorem Reads.toEnd {a b : State} (h : Reads a b) {before : Scanner}
    (hfirst : Scan.nextScript before = (.ok a.token, a.scanner)) :
    (b.token.kind = .endOfInput → Scan.ToEnd before b.scanner) ∧
    (b.token.kind ≠ .endOfInput → ∀ z, Scan.ToEnd b.scanner z → Scan.ToEnd before z) := by
  have ha : a.Fresh := ⟨before, (Scan.nextScript_source hfirst).symm, hfirst⟩
  induction h with
  | same hscanner htoken =>
    rw [hscanner, htoken]
    exact ⟨.last hfirst, fun ht z hz => .more hfirst ht hz⟩
  | take h hnext ih =>
    rename_i b c
    by_cases hb : b.token.kind = .endOfInput
    · -- the end was reached before, and nothing has changed since
      obtain ⟨x, -, hx⟩ := h.fresh ha
      obtain ⟨hc, hsame⟩ := Scan.nextScript_end hx hb hnext
      exact ⟨fun _ => hsame ▸ ih.1 hb, fun hne => (hne hc).elim⟩
    · exact ⟨fun hc => ih.2 hb _ (.last hnext hc), fun hc z hz => ih.2 hb z (.more hnext hc hz)⟩

/-- The nodes of a script reach to the end of the source. -/
theorem contents_end : (Course.free State).Leads (contents false parse) s fun _ s' =>
    s'.token.kind = .endOfInput := by
  refine .look _ rfl ?_
  -- the turns are bounded, and the bound is of no matter
  generalize s.scanner.source.size + 2 = n
  -- induction on the turns
  induction n generalizing s with
  -- without a turn the reading gives up
  | zero => exact .of_error rfl trivial
  | succ n ih =>
    refine .look _ rfl (.look _ rfl (.ite (fun _ => ?_) fun hend =>
      .pure trivial (by simpa using hend)))
    -- a statement always goes on
    refine Course.Leads.bind (P := fun (r : Node × Bool) _ => r.2 = true)
      (Course.free_bind fun _ _ => .pure trivial rfl) fun ⟨n, goOn⟩ s1 _ hr => ?_
    refine Course.free_bind fun _ s2 => .ite (fun _ => ?_) fun h => (h hr).elim
    exact ih.bind fun _ _ _ h => .pure trivial h

/-- The contents of a script take the tokens of its statements. -/
theorem contents_follows (hp : FollowRules parse) : Follows (contents false parse) id :=
  collect_each (passes_of_look fun _ => ⟨_, rfl⟩) fun s hs =>
    (hp.statement s hs).bind fun _ _ _ f => pure_leads f.ready f

/-- A tree that is a script was read as a scanner reads the source. -/
theorem root_toEnd (source : Source) :
    course.Leads (root false) { scanner := .start source, html := false } fun n s' =>
      n.Script source → Scan.ToEnd (.start source) s'.scanner := by
  have htidy : (Scanner.start source).Tidy := trivial
  -- the first token is read, as by the scanner alone
  refine scan_leads (P := fun t s' => t.span.Between (.start source) s' ∧
      Scan.nextScript (.start source) = (.ok t, s'))
    ((Scan.next_leads htidy _).with_run.mono fun _ _ _ h => h.symm) ?_
  intro first scanner htidy hprecedes ⟨hspan, hfirst⟩
  refine modify_leads ⟨Nat.le_refl _, Nat.le_refl _, Nat.zero_le _, .refl _, id,
    .same rfl rfl, Nat.le_max_left _ _⟩ (.get_bind ?_)
  have hs : State.Ready { scanner, token := first, html := false } :=
    ⟨htidy, Nat.zero_le _, hspan.order, hspan.stop⟩
  -- the contents are read from there, and end at the end
  refine (contents_follows (parseRule_follows _) _ hs).with_run.bind fun nodes s1 h1 ⟨hrun, f1⟩ => ?_
  have hend := (contents_end.ok hrun).2
  refine .get_bind ((nodeAt_leads h1.ready _).bind ?_)
  rintro _ _ h2 ⟨rfl, rfl⟩
  -- the tree may be too deep
  split
  · exact fail_leads _ _
  · refine pure_leads h2.ready fun hscript => ?_
    -- what the parser read is what the scanner reads in one go, if the tree has scripts alone
    have hreads := f1.reads ⟨_, hprecedes.source.symm, hfirst⟩ fun n hn => ?_
    · exact (hreads.toEnd hfirst).1 hend
    · rw [hprecedes.source]
      exact hscript.child (by simpa [Node.form, Form.children, Form.fields] using hn)

/-- The comments of a parsed source come one behind the other, do not overlap and are copied from
their places.  Where the tree is a script, they are the comments that a scanner meets on its way to
the end of the source. -/
theorem parse_comments_exact {source : Source} {parsed : Parsed}
    (h : Grammar.parse source false = .ok parsed) :
    parsed.comments.Pairwise (fun a b => a.start < b.start) ∧
    parsed.comments.Pairwise (fun a b => a.stop ≤ b.start) ∧
    (∀ c ∈ parsed.comments, c.start < c.stop ∧ c.text = source.text c.start c.stop) ∧
    (parsed.root.Script source →
      ∃ s, Scan.ToEnd (.start source) s ∧ s.comments.reverse = parsed.comments) := by
  have hroot := root_toEnd source
  unfold Grammar.parse at h
  -- the parser failed, or gave the root and the state
  rcases hr : root false { scanner := .start source, html := false } with ⟨fault | n, s⟩
  · simp [hr, Except.map] at h
  · simp only [hr, Except.map, Except.ok.injEq] at h
    subst h
    obtain ⟨hkept, hend⟩ := hroot.ok hr
    have htidy := hkept.ready.tidy
    -- each comment was met where it stands
    obtain ⟨new, hnew, hmet⟩ := hkept.scanner.comments
    refine ⟨htidy.pairwise_reverse, htidy.disjoint_reverse, fun c hc => ?_, fun hscript =>
      ⟨s.scanner, hend hscript, rfl⟩⟩
    have hc := List.mem_reverse.1 hc
    refine ⟨htidy.start_lt_stop hc, (hmet c ?_).2⟩
    rw [hnew] at hc
    simpa [Scanner.start] using hc

set_option maxRecDepth 100000 in
/-- Two attempts at arrow functions are given up with comments in them, and a class keeps the
decorator in front of its export. -/
theorem parse_comments_exact_attempts :
    let source : Source := .ofString "(/*a*/ b, async /*c*/); // d\n@e export class F \x7b\x7d"
    ∃ parsed s, Grammar.parse source false = .ok parsed ∧ parsed.comments.length = 3 ∧
      Scan.ToEnd (.start source) s ∧ s.comments.reverse = parsed.comments := by
  intro source
  have hfacts : (Grammar.parse source false).toOption.map (fun parsed =>
      (parsed.comments.length, decide (parsed.root.Script source))) = some (3, true) := by
    decide +kernel
  cases h : Grammar.parse source false with
  -- the source is read
  | error fault => simp [h, Except.toOption] at hfacts
  | ok parsed =>
    obtain ⟨hlength, hscript⟩ : parsed.comments.length = 3 ∧ parsed.root.Script source := by
      simpa [h, Except.toOption] using hfacts
    obtain ⟨s, hend, hsame⟩ := (parse_comments_exact h).2.2.2 hscript
    exact ⟨parsed, s, rfl, hlength, hend, hsame⟩

set_option maxRecDepth 100000 in
/-- The decorator of an export that is not a class is dropped, and with it a template; the tree has
neither markup nor templates, but a scanner that knows nothing of the template meets a comment. -/
theorem comments_differ :
    let source : Source := .ofString "@(`//`)\nexport \x7ba\x7d;"
    ∃ parsed s, Grammar.parse source false = .ok parsed ∧
      parsed.root.all (fun n => !n.isMarkup && !n.isTemplateLiteral) = true ∧
      Scan.ToEnd (.start source) s ∧ s.comments.reverse ≠ parsed.comments := by
  intro source
  -- the parser and the scanner, both run on the source
  have hfacts : (Grammar.parse source false).toOption.map (fun parsed => (parsed.comments,
      parsed.root.all fun n => !n.isMarkup && !n.isTemplateLiteral)) = some ([], true) := by
    decide +kernel
  have hend : (Scan.toEnd? 20 (.start source)).map (·.comments.length) = some 1 := by
    decide +kernel
  cases h : Grammar.parse source false with
  | error fault => simp [h, Except.toOption] at hfacts
  | ok parsed =>
    obtain ⟨hcomments, hplain⟩ : parsed.comments = [] ∧
        parsed.root.all (fun n => !n.isMarkup && !n.isTemplateLiteral) = true := by
      simpa [h, Except.toOption] using hfacts
    obtain ⟨s, hs, hlength⟩ := Option.map_eq_some_iff.1 hend
    -- the scanner has the comment that the parser lost
    refine ⟨parsed, s, rfl, hplain, Scan.toEnd_of_toEnd? hs, fun hsame => ?_⟩
    have hnone := congrArg List.length hsame
    rw [List.length_reverse, hlength, hcomments] at hnone
    cases hnone

end Grammar

end Reflow
