import Reflow.Proofs.Token.Lossless

/-!
# Tokens have characters

A token that is not the end of the input has characters, in every mode but those for the inside of a
tag of HTML, where a value is empty at the end of the input and a name at the end is never read.  So a
parser that takes tokens gets ahead, also between tags, where text may be short, and inside templates,
where it may be empty.

## Key results

- `Scan.next_nonempty`: the next token has characters, or is the end, and no bound is reached
-/

namespace Reflow

/-- The fault says that a loop or a rule came to its bound, which the source is not to blame for. -/
def SourceFault.Exhausts (fault : SourceFault) : Prop :=
  ∃ span, fault = .grammar .exhausted span

/-- The token has characters if it is not the end of the input. -/
def Token.Nonempty (t : Token) : Prop :=
  t.kind ≠ .endOfInput → t.span.start.offset < t.span.stop.offset

/-- The mode is not for the inside of a tag of HTML. -/
def ScanMode.OutsideHtmlTag (mode : ScanMode) : Prop :=
  mode ≠ .htmlTag ∧ mode ≠ .htmlValue

/-- A name may start with the characters that are part of one in markup. -/
theorem isMarkupNamePart_of_isNameStart {c : Char} (h : isNameStart c = true) :
    isMarkupNamePart c = true := by
  simp only [isNameStart, isMarkupNamePart, isNamePart, Text.isLetter, Text.isAlphanumeric,
    Bool.or_eq_true] at h ⊢
  grind

/-- Text between tags that ends has characters if no tag or expression starts at once. -/
theorem textReach_pos {html : Bool} {c : Char} {rest : List Char} {n : Nat}
    (hc : ¬(c = '<' || (c = '{' && !html)) = true) (h : textReach html (c :: rest) = .closed n) :
    0 < n := by
  unfold textReach at h
  split at h
  -- an opening character ends the text before it starts
  next hopens => exact absurd (by simpa using hopens) hc
  next =>
    split at h
    · cases h
    · cases hrest : textReach html rest with
      | closed m =>
        rw [hrest] at h
        cases h
        omega
      | broken m fault =>
        rw [hrest] at h
        cases h

namespace Scan

variable {s : Scanner}

/-- A token of a length above zero, where there are characters ahead. -/
theorem take_nonempty {kind : TokenKind} {n : Nat} {newline : Bool}
    {E : SourceFault → Scanner → Prop} (hrest : s.rest ≠ []) (hn : 0 < n) :
    Concludes (take kind n newline) s (fun t _ => t.Nonempty) E := by
  refine .of_ok rfl fun _ => ?_
  show s.position.offset < (s.advance n).position.offset
  have := List.length_pos_iff.2 hrest
  rw [Scanner.offset_advance]
  omega

/-- The end of the input is the one token that may be empty. -/
theorem take_end {newline : Bool} {E : SourceFault → Scanner → Prop} :
    Concludes (take .endOfInput 0 newline) s (fun t _ => t.Nonempty) E :=
  .of_ok rfl fun hne => absurd rfl hne

/-- A fault of the scanner is not that of a bound. -/
theorem not_exhausts_scan (cause : ScanFault) (position : Position) :
    ¬(SourceFault.scan cause position).Exhausts :=
  nofun

/-- So a fault of the scanner may be reported anywhere. -/
theorem fault_unexhausted {α : Type} {Q : α → Scanner → Prop} (cause : ScanFault)
    (position : Position) :
    Concludes (fault cause position) s Q fun fault _ => ¬fault.Exhausts :=
  .of_error rfl (not_exhausts_scan cause position)

/-- What is passed over comes to an end, or there is a comment without one. -/
theorem skipTrivia_unexhausted (hs : s.Tidy) (hp : s.Placed) :
    Concludes skipTrivia s (fun _ _ => True) fun fault _ => ¬fault.Exhausts := by
  refine (skipTrivia_passes hs hp).mono (fun _ _ _ => trivial) fun fault s' h => ?_
  obtain ⟨_, _, -, rfl⟩ := h
  exact nofun

/-- A token of a script has characters. -/
theorem nextScript_nonempty (hs : s.Tidy) (hp : s.Placed) :
    Concludes nextScript s (fun t _ => t.Nonempty) fun fault _ => ¬fault.Exhausts := by
  refine (nextScript_takes hs hp).mono (fun t s' h hne => ?_) fun fault s' h => ?_
  · obtain ⟨gap, mid, n, -, -, htakes⟩ := h
    rw [htakes.span]
    exact htakes.pos_length hne
  · obtain ⟨gap, mid, cause, n, -, -, rfl⟩ := h
    exact nofun

/-- So has a value in quotes: the quotes at least. -/
theorem nextQuoted_nonempty (hrest : s.rest ≠ []) (quote : Char) :
    Concludes (nextQuoted quote) s (fun t _ => t.Nonempty) fun fault _ => ¬fault.Exhausts := by
  refine .get_bind ?_
  split
  · exact take_nonempty hrest (Nat.succ_pos _)
  · exact .of_error rfl (not_exhausts_scan _ _)

/-- So has a token inside a tag that is not one of HTML. -/
theorem nextTag_nonempty (hs : s.Tidy) (hp : s.Placed) :
    Concludes (nextTag false) s (fun t _ => t.Nonempty) fun fault _ => ¬fault.Exhausts := by
  unfold nextTag
  extract_lets part token
  have htoken : ∀ u s', Concludes (token u) s' (fun t _ => t.Nonempty)
      fun fault _ => ¬fault.Exhausts := by
    intro u s'
    refine .get_bind ?_
    split
    next => exact take_end
    next c rest hrest =>
      have hsome : s'.rest ≠ [] := by simp [hrest]
      -- a name is as long as its characters are parts of one, and the first one is
      refine .ite (fun hname => take_nonempty hsome ?_) fun _ => ?_
      · have hpart : part c = true := by simp [part, isMarkupNamePart_of_isNameStart hname]
        simp [hpart]
      refine .ite (fun _ => nextQuoted_nonempty hsome c) fun _ => ?_
      exact .ite (fun _ => take_nonempty hsome Nat.one_pos) fun _ => fault_unexhausted _ _
  refine Concludes.bind (P := fun _ _ => True) ?_ fun u s' _ => htoken u s'
  have hdiscard : discard skipTrivia = (skipTrivia >>= fun _ => pure ()) :=
    (bind_pure_comp (fun _ => ()) skipTrivia).symm
  show Concludes (discard skipTrivia) s _ _
  rw [hdiscard]
  exact (skipTrivia_unexhausted hs hp).bind fun _ _ _ => .of_ok rfl trivial

/-- So has a comment: the text that ends it at least. -/
theorem nextMarkupComment_nonempty {ending : List Char} (hrest : s.rest ≠ [])
    (hending : ending ≠ []) :
    Concludes (nextMarkupComment ending) s (fun t _ => t.Nonempty)
      fun fault _ => ¬fault.Exhausts := by
  refine .get_bind ?_
  split
  next n _ =>
    have := List.length_pos_iff.2 hending
    exact take_nonempty hrest (by omega)
  next => exact fault_unexhausted _ _

/-- So has text between tags, since a bracket or brace is a token of its own. -/
theorem nextChild_nonempty (html : Bool) :
    Concludes (nextChild html) s (fun t _ => t.Nonempty) fun fault _ => ¬fault.Exhausts := by
  refine .get_bind ?_
  split
  next => exact take_end
  next c rest hrest =>
    -- a character is left, whatever it starts
    have hsome : s.rest ≠ [] := by simp [hrest]
    refine .ite (fun _ => nextMarkupComment_nonempty hsome (by simp)) fun _ => ?_
    refine .ite (fun _ => nextMarkupComment_nonempty hsome (by simp)) fun _ => ?_
    refine .ite (fun _ => take_nonempty hsome Nat.one_pos) fun hc => ?_
    -- the character opens nothing, so that the text holds it
    cases hreach : textReach html (c :: rest) with
    | closed n => exact take_nonempty hsome (textReach_pos hc hreach)
    | broken n cause => exact .of_error rfl (not_exhausts_scan _ _)

/-- In every mode but those for the inside of a tag of HTML, a token other than the end has characters,
and the loop that reads it ends. -/
theorem next_nonempty (hs : s.Tidy) (hp : s.Placed) {mode : ScanMode} (hmode : mode.OutsideHtmlTag) :
    Concludes (next mode) s (fun t _ => t.Nonempty) fun fault _ => ¬fault.Exhausts := by
  cases mode with
  | script => exact nextScript_nonempty hs hp
  | tag => exact nextTag_nonempty hs hp
  | child => exact nextChild_nonempty false
  | htmlTag => exact absurd rfl hmode.1
  | htmlValue => exact absurd rfl hmode.2
  | htmlChild => exact nextChild_nonempty true

/-- Text in a template may be empty, but what ends it is there. -/
theorem templateChunk_unexhausted :
    Concludes templateChunk s (fun _ _ => True) fun fault _ => ¬fault.Exhausts := by
  refine .get_bind ?_
  split
  · exact .of_ok rfl trivial
  · exact .of_ok rfl trivial
  · exact .of_error rfl (not_exhausts_scan _ _)

end Scan

end Reflow
