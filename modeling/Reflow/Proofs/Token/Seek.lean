import Reflow.Proofs.Token.Scanner

/-!
# Going back

Going back to a position takes away the comments that start there or later.  For that to give the
scanner that was there, all comments that it had have to start in front of its position, and all that
it has met since behind it.

Steps may fail halfway, and the scanner may be moved to any position, also into the middle of a
comment, so comments need not lie one behind the other.  What all of this keeps is that each comment
starts in front of those that were met after it.

## Key results

- `Sorted.moves`, `Sorted.seek`: a scanner with sorted comments stays one
- `seek_afterAll`: going back gives the scanner that was there
-/

namespace Reflow

/-- What can be asked of the scanner: the next token in a mode, a piece of template text, or to move
to a position. -/
inductive ScanStep where
  | next (mode : ScanMode)
  | template
  | seek (position : Position)
  deriving Repr, DecidableEq

namespace Scanner

/-- The scanner after a step, also if the step fails. -/
def after (s : Scanner) : ScanStep → Scanner
  | .next mode => (Scan.next mode s).2
  | .template => (Scan.templateChunk s).2
  | .seek position => s.seek position

/-- The scanner after some steps. -/
def afterAll (s : Scanner) (steps : List ScanStep) : Scanner := steps.foldl after s

@[simp] theorem afterAll_nil (s : Scanner) : s.afterAll [] = s := rfl

@[simp] theorem afterAll_cons (s : Scanner) (step : ScanStep) (steps : List ScanStep) :
    s.afterAll (step :: steps) = (s.after step).afterAll steps := rfl

/-- The scanner has moved where a step that is made of moves ends. -/
theorem moves_of_leads {α : Type} {x : Scan α} {s : Scanner} {Q : α → Scanner → Prop}
    (hx : moving.Leads x s Q) : Moves s (x s).2 := by
  rcases hr : x s with ⟨_ | a, s'⟩
  · exact hx.error hr
  · exact (hx.ok hr).1

/-- All steps but going elsewhere are made of moves. -/
theorem after_moves {s : Scanner} {step : ScanStep} (h : ∀ p, step ≠ .seek p) :
    Moves s (s.after step) := by
  cases step with
  | next mode => exact moves_of_leads (Scan.next_moves mode)
  | template => exact moves_of_leads Scan.templateChunk_moves
  | seek p => exact absurd rfl (h p)

/-- The comments start in front of the position, and each in front of those met after it. -/
structure Sorted (s : Scanner) : Prop where
  behind : s.Behind
  pairwise : s.comments.Pairwise fun a b => b.start < a.start

namespace Follows

variable {a b c : Scanner}

/-- A scanner follows itself. -/
theorem refl (a : Scanner) : Follows a a := ⟨rfl, Nat.le_refl _, [], rfl, by simp⟩

/-- Scanners along a run follow one another. -/
theorem trans (h : Follows a b) (h' : Follows b c) : Follows a c := by
  obtain ⟨new, hnew, hmet⟩ := h.comments
  obtain ⟨new', hnew', hmet'⟩ := h'.comments
  refine ⟨h'.source.trans h.source, Nat.le_trans h.position h'.position, new' ++ new, ?_, ?_⟩
  · rw [hnew', hnew, List.append_assoc]
  · exact List.forall_mem_append.2 ⟨fun c hc => Nat.le_trans h.position (hmet' c hc), hmet⟩

/-- A scanner that goes back, but not to before another one, still follows that one: it forgets only
comments that it has met since. -/
theorem seek (ha : a.Behind) (h : Follows a b) {p : Position} (hp : a.position.offset ≤ p.offset) :
    Follows a (b.seek p) := by
  obtain ⟨new, hnew, hmet⟩ := h.comments
  refine ⟨h.source, hp, new.dropWhile fun c => p.offset ≤ c.start, ?_, ?_⟩
  · rw [Scanner.seek, hnew, dropWhile_behind ha hp]
  · exact fun c hc => hmet c ((List.dropWhile_sublist _).subset hc)

end Follows

namespace Sorted

variable {s t : Scanner}

/-- At the start there are no comments to be in order. -/
theorem start (source : Source) : (start source).Sorted where
  behind _ hc := nomatch hc
  pairwise := .nil

/-- Passing over characters takes the scanner away from its comments. -/
theorem advance (hs : s.Sorted) (n : Nat) : (s.advance n).Sorted := by
  refine ⟨fun c hc => ?_, hs.pairwise⟩
  have hlt := hs.behind c hc
  rw [offset_advance]
  omega

/-- A comment that was just passed over starts where the scanner stood, behind all others. -/
theorem record (hs : s.Sorted) {n : Nat} {kind : CommentKind} {value : List Char}
    (htext : ∀ span, (Comment.mk kind (String.ofList value) span).text =
      String.ofList (s.rest.take n)) :
    ((s.advance n).record kind value s.position).Sorted ∧
      Follows s ((s.advance n).record kind value s.position) := by
  have hlt := lt_advance_of_text (htext default)
  rw [record_advance hs.behind]
  refine ⟨⟨?_, ?_⟩, rfl, Nat.le_of_lt hlt, [_], rfl, by simp [Comment.start]⟩
  · exact List.forall_mem_cons.2 ⟨hlt, fun c hc => Nat.lt_trans (hs.behind c hc) hlt⟩
  · exact .cons hs.behind hs.pairwise

/-- Moving keeps comments sorted and adds comments ahead of where the scanner was. -/
theorem moves (hs : s.Sorted) (h : Moves s t) : t.Sorted ∧ Follows s t := by
  induction h with
  | stay => exact ⟨hs, .refl _⟩
  | @pass s t n _ ih =>
    obtain ⟨ht, hfollows⟩ := ih (hs.advance n)
    have hpass : Follows s (s.advance n) :=
      ⟨rfl, (Moves.advance s n).position_le, [], rfl, by simp⟩
    exact ⟨ht, hpass.trans hfollows⟩
  | comment n kind value htext _ ih =>
    obtain ⟨hrecord, hnew⟩ := hs.record htext
    obtain ⟨ht, hfollows⟩ := ih hrecord
    exact ⟨ht, hnew.trans hfollows⟩

/-- Going anywhere keeps comments sorted: the first one that is kept starts in front of the new
position, and all below it start in front of that one. -/
theorem seek (hs : s.Sorted) (p : Position) : (s.seek p).Sorted := by
  have hkept : ∀ l : List Comment, l.Pairwise (fun a b => b.start < a.start) →
      ∀ c ∈ l.dropWhile (fun c => p.offset ≤ c.start), c.start < p.offset := by
    intro l hl
    induction l with
    | nil => simp
    | cons c rest ih =>
      -- `c` is dropped, too, or it is kept, and those below it start in front of it
      obtain ⟨hc, hrest⟩ := List.pairwise_cons.1 hl
      rw [List.dropWhile_cons]
      split
      · exact ih hrest
      · rename_i hlt
        have hlt : c.start < p.offset := by simpa using hlt
        exact List.forall_mem_cons.2 ⟨hlt, fun d hd => Nat.lt_trans (hc d hd) hlt⟩
  exact ⟨hkept s.comments hs.pairwise, hs.pairwise.sublist (List.dropWhile_sublist _)⟩

/-- Every step keeps the comments in order. -/
theorem after (hs : s.Sorted) (step : ScanStep) : (s.after step).Sorted := by
  cases step with
  | seek p => exact hs.seek p
  | _ => exact (hs.moves (after_moves (by simp))).1

/-- So do all steps of a run. -/
theorem afterAll (hs : s.Sorted) (steps : List ScanStep) : (s.afterAll steps).Sorted := by
  induction steps generalizing s with
  | nil => exact hs
  | cons step steps ih => exact ih (hs.after step)

/-- A scanner follows where it was as long as it does not go back to before that. -/
theorem follows_afterAll (hs : s.Sorted) {b : Scanner} (hb : b.Sorted) (h : Follows s b)
    {steps : List ScanStep} (hsteps : ∀ p, .seek p ∈ steps → s.position.offset ≤ p.offset) :
    Follows s (b.afterAll steps) := by
  induction steps generalizing b with
  | nil => exact h
  | cons step steps ih =>
    have hrest : ∀ p, .seek p ∈ steps → s.position.offset ≤ p.offset := fun p hp =>
      hsteps p (List.mem_cons_of_mem _ hp)
    apply ih (hb.after step) _ hrest
    -- only going elsewhere can lose comments, and it does not go as far back as those of `s`
    cases step with
    | seek p => exact h.seek hs.behind (hsteps p List.mem_cons_self)
    | _ => exact h.trans (hb.moves (after_moves (by simp))).2

end Sorted

/-- Going back gives the scanner that was there: whatever steps lead to a scanner and whatever steps
it takes then, failing ones among them, if it did not go back to before its position in the meantime,
it has its position and its comments again. -/
theorem seek_afterAll (source : Source) (steps later : List ScanStep) {s : Scanner}
    (hs : (Scanner.start source).afterAll steps = s)
    (hlater : ∀ p, .seek p ∈ later → s.position.offset ≤ p.offset) :
    (s.afterAll later).seek s.position = s := by
  have hsorted : s.Sorted := hs ▸ (Sorted.start source).afterAll steps
  exact seek_of_follows hsorted.behind (hsorted.follows_afterAll hsorted (.refl s) hlater)

/-- A scanner behind a comment and a name, in front of a comment that starts twice and a string that
does not end. -/
def behindName : Scanner :=
  (Scanner.start (Source.ofString "/**/a /* /*b*/ 'c")).afterAll [.next .script]

/-- The scanner fails in the string, goes back into the middle of the comment, where there is another
one, fails again and fails in a template. -/
def failingSteps : List ScanStep := [.next .script, .seek ⟨1, 10, 9⟩, .next .tag, .template]

/-- Steps that fail are gone back over like others. -/
theorem seek_afterAll_failing :
    (∀ p, ScanStep.seek p ∈ failingSteps → behindName.position.offset ≤ p.offset) ∧
      (behindName.afterAll failingSteps).seek behindName.position = behindName := by
  have hlater : ∀ p, ScanStep.seek p ∈ failingSteps → behindName.position.offset ≤ p.offset := by
    intro p hp
    obtain rfl : p = ⟨1, 10, 9⟩ := by simpa [failingSteps] using hp
    decide +kernel
  exact ⟨hlater, seek_afterAll _ [.next .script] failingSteps rfl hlater⟩

end Scanner

end Reflow
