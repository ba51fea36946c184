import Reflow.Proofs.Source.Places
import Reflow.Proofs.Token.Scanner

/-!
# The scanner's positions are counted

A scanner moves over the characters of its source one after the other, so its position is always the
counted one.  Tokens start where the scanner stood before them, and its faults lie where it stood
before what is broken or where it stopped.

## Key results

- `Scan.next_confined`, `Scan.templateChunk_confined`: what the scanner gives, and what it fails
  with, is located
-/

namespace Reflow

instance : HasPlaces Scanner :=
  ⟨fun source s => s.source = source ∧ source.Counts s.position⟩

instance : HasPlaces Token := ⟨fun source token => source.Locates token.span⟩

instance : HasPlaces Scan.TemplateChunk := ⟨fun source chunk => source.Locates chunk.span⟩

variable {source : Source} {s : Scanner}

/-- At the start of a source the scanner stands at its first place. -/
theorem Scanner.locates_start (source : Source) : source.Locates (Scanner.start source) :=
  ⟨rfl, source.counts_start⟩

/-- To move over characters leads from place to place. -/
theorem Scanner.locates_advance (hs : source.Locates s) (n : Nat) :
    source.Locates (s.advance n) := by
  obtain ⟨rfl, hs⟩ := hs
  exact ⟨rfl, placed_advance hs n⟩

/-- Keeping a comment does not move the scanner. -/
theorem Scanner.locates_record (hs : source.Locates s) (kind : CommentKind) (value : List Char)
    (start : Position) : source.Locates (s.record kind value start) := by
  unfold record
  split
  · split <;> exact hs
  · exact hs

/-- To go back to a place of the source forgets comments, but gives no other places. -/
theorem Scanner.locates_seek (hs : source.Locates s) {position : Position}
    (h : source.Locates position) : source.Locates (s.seek position) :=
  ⟨hs.1, h⟩

namespace Scan

/-- A fault at a place of the source. -/
theorem fault_confined {α : Type} [HasPlaces α] (cause : ScanFault) {position : Position}
    (h : source.Locates position) : Confined source (fault cause position : Scan α) :=
  .throw ⟨h, h⟩

/-- To move ahead keeps to the source. -/
theorem advance_confined (n : Nat) : Confined source (advance n) :=
  .modify fun _ hs => Scanner.locates_advance hs n

/-- Each piece that is passed over ends at a place, and a comment is between two of them. -/
theorem skipPieces_confined (newline : Bool) (pieces : List Trivia) :
    Confined source (skipPieces newline pieces) := by
  -- induction on the trivia, of which each comment is recorded where it stands
  induction pieces generalizing newline with
  | nil => exact .pure trivial
  | cons piece rest ih =>
    cases piece with
    | space c => exact (advance_confined 1).bind fun _ _ => ih _
    | lineComment value =>
      refine Confined.get.bind fun s _ => (advance_confined _).bind fun _ _ => ?_
      exact (Confined.modify fun _ hs => Scanner.locates_record hs _ _ _).bind fun _ _ => ih _
    | blockComment value =>
      refine Confined.get.bind fun s _ => (advance_confined _).bind fun _ _ => ?_
      exact (Confined.modify fun _ hs => Scanner.locates_record hs _ _ _).bind fun _ _ => ih _
    | unterminated => exact Confined.get.bind fun s hs => fault_confined _ hs.2

/-- So all that stands between tokens keeps to the source. -/
theorem skipTrivia_confined : Confined source skipTrivia :=
  Confined.get.bind fun _ _ => skipPieces_confined _ _

/-- So does white space. -/
theorem skipSpace_confined : Confined source skipSpace :=
  Confined.get.bind fun _ _ => advance_confined _

/-- A token starts where the scanner stood. -/
theorem take_confined (kind : TokenKind) (length : Nat) (newline : Bool) :
    Confined source (take kind length newline) := by
  refine Confined.get.bind fun s hs => (advance_confined _).bind fun _ _ => ?_
  exact Confined.get.bind fun _ hs' => .pure ⟨hs.2, hs'.2⟩

/-- A token that is broken is reported at a place of the source. -/
theorem takeReach_confined (kind : TokenKind) (reach : Reach) (newline : Bool)
    {position : Option Position} (h : source.Locates position) :
    Confined source (takeReach kind reach newline position) := by
  cases reach with
  | closed length => exact take_confined kind length newline
  | broken length cause =>
    refine (advance_confined length).bind fun _ _ => Confined.get.bind fun s hs => ?_
    cases position with
    | none => exact fault_confined cause hs.2
    | some position => exact fault_confined cause (h position rfl)

/-- A token of a script goes from the place of the scanner to another place. -/
theorem scriptToken_confined (newline : Bool) : Confined source (scriptToken newline) := by
  refine Confined.get.bind fun s hs => ?_
  split
  · exact take_confined _ _ _
  · refine .ite (fault_confined _ hs.2) (.ite (take_confined _ _ _) (.ite ?_ (.ite ?_ ?_)))
    · exact takeReach_confined _ _ _ Source.locates_none
    · exact takeReach_confined _ _ _ (Source.locates_some.2 hs.2)
    · refine .ite (take_confined _ _ _) (.ite (take_confined _ _ _) ?_)
      split
      · exact take_confined _ _ _
      · exact fault_confined _ hs.2

/-- So does one behind what stands between tokens. -/
theorem nextScript_confined : Confined source nextScript :=
  skipTrivia_confined.bind fun _ _ => scriptToken_confined _

/-- So does a value in quotes. -/
theorem nextQuoted_confined (quote : Char) : Confined source (nextQuoted quote) := by
  refine Confined.get.bind fun s hs => ?_
  split
  · exact take_confined _ _ _
  · exact (advance_confined 1).bind fun _ _ => fault_confined _ hs.2

/-- So does a token inside a tag. -/
theorem nextTag_confined (html : Bool) : Confined source (nextTag html) := by
  unfold nextTag
  extract_lets part token
  have htoken : ∀ u, source.Locates u → Confined source (token u) := by
    refine fun u _ => Confined.get.bind fun s hs => ?_
    split
    · exact take_confined _ _ _
    · refine .ite (.ite (.throw ⟨hs.2, hs.2⟩) (take_confined _ _ _)) (.ite (nextQuoted_confined _) ?_)
      exact .ite (take_confined _ _ _) (fault_confined _ hs.2)
  exact .either skipSpace_confined skipTrivia_confined.discard htoken

/-- So does a value in HTML. -/
theorem nextHtmlValue_confined : Confined source nextHtmlValue := by
  refine skipSpace_confined.bind fun _ _ => Confined.get.bind fun s hs => ?_
  split
  · exact .ite (fault_confined _ hs.2) (take_confined _ _ _)
  · refine .ite (nextQuoted_confined _) (.ite (fault_confined _ hs.2) ?_)
    exact (take_confined _ _ _).bind fun token htoken => .pure htoken

/-- So does a comment. -/
theorem nextMarkupComment_confined (ending : List Char) :
    Confined source (nextMarkupComment ending) := by
  refine Confined.get.bind fun s hs => ?_
  split
  · exact take_confined _ _ _
  · exact fault_confined _ hs.2

/-- So does a token between tags. -/
theorem nextChild_confined (html : Bool) : Confined source (nextChild html) := by
  refine Confined.get.bind fun s hs => ?_
  split
  · exact take_confined _ _ _
  · refine .ite (nextMarkupComment_confined _) (.ite (nextMarkupComment_confined _) ?_)
    exact .ite (take_confined _ _ _) (takeReach_confined _ _ _ Source.locates_none)

/-- In every mode the next token is located, and so is a fault where there is none. -/
theorem next_confined (mode : ScanMode) : Confined source (next mode) := by
  cases mode with
  | script => exact nextScript_confined
  | tag => exact nextTag_confined false
  | child => exact nextChild_confined false
  | htmlTag => exact nextTag_confined true
  | htmlValue => exact nextHtmlValue_confined
  | htmlChild => exact nextChild_confined true

/-- So does text in a template, and what ends it. -/
theorem takeChunk_confined (length : Nat) (tail : Bool) :
    Confined source (takeChunk length tail) := by
  refine Confined.get.bind fun s hs => (advance_confined _).bind fun _ _ => ?_
  refine Confined.get.bind fun _ hs' => (advance_confined _).bind fun _ _ => ?_
  exact .pure ⟨hs.2, hs'.2⟩

/-- Text without an end is reported at a place of the source. -/
theorem templateChunk_confined : Confined source templateChunk := by
  refine Confined.get.bind fun s hs => ?_
  split
  · exact takeChunk_confined _ _
  · exact takeChunk_confined _ _
  · exact (advance_confined _).bind fun _ _ => fault_confined _ hs.2

end Scan

end Reflow
