import Reflow.Proofs.Course
import Reflow.Proofs.Source.Places
import Reflow.Proofs.Token.Rescan

/-!
# Reading a script loses nothing

A scanner that reads one token of a script after the other comes to the end of the input or to a
fault.  What it reads, with the white space and the comments that it passes over on the way, is the
source, piece by piece: each token and each comment stands in the source at its range, and between two
tokens there are white space and comments, all of which were kept.

## Key results

- `Scan.scriptToken_takes`: a token other than the end is taken off the text ahead and is not empty
- `Scan.skipTrivia_passes`: what is passed over before a token
- `Scan.readScript_lossless`: what is read of a source, from its start to the end or a fault
-/

namespace Reflow

/-! ### What stands between tokens -/

/-- A piece between two tokens. -/
inductive Piece where
  | space (c : Char)
  | comment (c : Comment)

/-- Does the piece end a line?  White space does if it is one of the characters that end a line, and a
block comment if there is a line feed in it. -/
def Piece.breaksLine : Piece → Bool
  | .space c => isLineTerminator c
  | .comment c => c.isBlock && c.value.toList.contains '\n'

@[simp] theorem Piece.breaksLine_line (value : String) (span : Span) :
    (Piece.comment ⟨.line, value, span⟩).breaksLine = false := rfl

@[simp] theorem Piece.breaksLine_block (value : String) (span : Span) :
    (Piece.comment ⟨.block, value, span⟩).breaksLine = value.toList.contains '\n' := rfl

/-- The comments among some pieces. -/
def commentsOf (gap : List Piece) : List Comment :=
  gap.filterMap fun
    | .space _ => none
    | .comment c => some c

@[simp] theorem commentsOf_space (c : Char) (gap : List Piece) :
    commentsOf (.space c :: gap) = commentsOf gap := rfl

/-- A comment of a gap is the first one, in front of those behind it. -/
@[simp] theorem commentsOf_comment (c : Comment) (gap : List Piece) :
    commentsOf (.comment c :: gap) = c :: commentsOf gap := rfl

/-- The source consists of the pieces from one offset to another. -/
def Source.Covers (source : Source) : Nat → List Piece → Nat → Prop
  | p, [], q => p = q
  | p, .space c :: rest, q =>
    isTokenSpace c = true ∧ source.at? p = some c ∧ source.Covers (p + 1) rest q
  | p, .comment c :: rest, q =>
    c.start = p ∧ c.start < c.stop ∧ source.Holds c.span c.text ∧ source.Covers c.stop rest q

/-- A gap ends where it starts, or behind that. -/
theorem Source.Covers.le {source : Source} {gap : List Piece} {p q : Nat}
    (h : source.Covers p gap q) : p ≤ q := by
  -- induction on the pieces of the gap
  induction gap generalizing p with
  | nil => exact Nat.le_of_eq h
  | cons piece gap ih =>
    cases piece with
    | space c =>
      have := ih h.2.2
      omega
    | comment c =>
      obtain ⟨hstart, hlt, -, hrest⟩ := h
      have := ih hrest
      omega

/-- The comments of a gap stand in the source as they are written. -/
theorem Source.Covers.holds {source : Source} {gap : List Piece} {p q : Nat}
    (h : source.Covers p gap q) : ∀ c ∈ commentsOf gap, source.Holds c.span c.text := by
  induction gap generalizing p with
  | nil => exact List.forall_mem_nil _
  | cons piece gap ih =>
    cases piece with
    | space c => exact ih h.2.2
    | comment c => exact List.forall_mem_cons.2 ⟨h.2.2.1, ih h.2.2.2⟩

namespace Scan

variable {s s' : Scanner}

/-- The scanner passed over the pieces and kept the comments among them. -/
structure Passes (s : Scanner) (gap : List Piece) (s' : Scanner) : Prop where
  tidy : s'.Tidy
  placed : s'.Placed
  source : s'.source = s.source
  covers : s.source.Covers s.position.offset gap s'.position.offset
  comments : s'.comments = (commentsOf gap).reverse ++ s.comments

/-- To stay is to pass over nothing. -/
theorem Passes.nil (hs : s.Tidy) (hp : s.Placed) : Passes s [] s := ⟨hs, hp, rfl, rfl, rfl⟩

/-- A character that is passed over comes before the gap behind it. -/
theorem Passes.space {c : Char} {rest : List Char} {gap : List Piece} (hcs : s.rest = c :: rest)
    (hc : isTokenSpace c = true) (h : Passes (s.advance 1) gap s') :
    Passes s (.space c :: gap) s' := by
  have hoffset : (s.advance 1).position.offset = s.position.offset + 1 := by
    rw [Scanner.offset_advance, hcs, List.length_cons]
    omega
  have hat : s.source.at? s.position.offset = some c := by
    show s.rest.head? = some c
    rw [hcs, List.head?_cons]
  exact ⟨h.tidy, h.placed, h.source, ⟨hc, hat, hoffset ▸ h.covers⟩, h.comments⟩

/-- Passing over a comment, as `skipPieces` does it. -/
theorem Passes.comment {n : Nat} {kind : CommentKind} {value : List Char} {gap : List Piece}
    (hs : s.Tidy) (hp : s.Placed)
    (htext : ∀ span, (Comment.mk kind (String.ofList value) span).text =
      String.ofList (s.rest.take n))
    (h : Passes ((s.advance n).record kind value s.position) gap s') :
    Passes s (.comment ⟨kind, String.ofList value, ⟨s.position, (s.advance n).position⟩⟩ :: gap)
      s' := by
  -- the comment has a text, so that the scanner has moved
  have hlt := Scanner.lt_advance_of_text (htext default)
  rw [Scanner.record_advance hs.behind] at h
  have hholds := hp.holds n
  rw [← htext ⟨s.position, (s.advance n).position⟩] at hholds
  refine ⟨h.tidy, h.placed, h.source, ⟨rfl, hlt, hholds, h.covers⟩, ?_⟩
  rw [h.comments, commentsOf_comment, List.reverse_cons, List.append_assoc, List.singleton_append]

/-- The scanner passes over all pieces ahead, or fails at one that has no end. -/
theorem skipPieces_passes (hs : s.Tidy) (hp : s.Placed) {cs : List Char} (hcs : s.rest = cs)
    (newline : Bool) :
    Concludes (skipPieces newline (triviaOf cs)) s
      (fun b s' => ∃ gap, Passes s gap s' ∧ b = (newline || gap.any Piece.breaksLine))
      (fun fault s' => ∃ gap cause, Passes s gap s' ∧ fault = .scan cause s'.position) := by
  -- each piece is passed over as a whole, so what follows it is what lies ahead
  fun_induction triviaOf cs generalizing s newline with
  | case1 => exact .of_ok rfl ⟨[], .nil hs hp, by simp⟩
  -- a space, one character long
  | case2 c rest hc ih =>
    have hrest : (s.advance 1).rest = rest := by rw [Scanner.rest_advance, hcs]; rfl
    have hmore := ih (Scanner.kept_advance hs 1).1 (Scanner.placed_advance hp 1) hrest
      (newline || isLineTerminator c)
    refine hmore.mono (fun b s' h => ?_) fun fault s' h => ?_
    · obtain ⟨gap, hgap, hb⟩ := h
      exact ⟨_, hgap.space hcs hc, by simp [hb, Piece.breaksLine, Bool.or_assoc]⟩
    · obtain ⟨gap, cause, hgap, hfault⟩ := h
      exact ⟨_, cause, hgap.space hcs hc, hfault⟩
  -- a line comment, as long as its value and the two slashes
  | case3 body value _ =>
    rename_i ih
    have htext := lineComment_text hcs fun c => c != '\n' && c != '\r'
    have hkept := Scanner.kept_record hs (2 + value.length) .line value htext
    have hmore := ih hkept.1 (hkept.2.placed hp) (Scanner.rest_lineComment hcs value) newline
    refine hmore.mono (fun b s' h => ?_) fun fault s' h => ?_
    · obtain ⟨gap, hgap, hb⟩ := h
      exact ⟨_, hgap.comment hs hp htext, by simp [hb]⟩
    · obtain ⟨gap, cause, hgap, hfault⟩ := h
      exact ⟨_, cause, hgap.comment hs hp htext, hfault⟩
  -- a block comment, as long as its value and what delimits it
  | case4 body n hn _ ih =>
    have htext := blockComment_text hcs hn
    have hkept := Scanner.kept_record hs ((body.take n).length + 4) .block (body.take n) htext
    have hmore := ih hkept.1 (hkept.2.placed hp) (Scanner.rest_blockComment hcs hn)
      (newline || (body.take n).contains '\n')
    refine hmore.mono (fun b s' h => ?_) fun fault s' h => ?_
    · obtain ⟨gap, hgap, hb⟩ := h
      exact ⟨_, hgap.comment hs hp htext, by simp [hb, Bool.or_assoc]⟩
    · obtain ⟨gap, cause, hgap, hfault⟩ := h
      exact ⟨_, cause, hgap.comment hs hp htext, hfault⟩
  -- a block comment that does not end is the fault
  | case5 => exact .of_error rfl ⟨[], _, .nil hs hp, rfl⟩
  | case6 => exact .of_ok rfl ⟨[], .nil hs hp, by simp⟩
  | case7 => exact .of_ok rfl ⟨[], .nil hs hp, by simp⟩

/-- What is passed over between tokens is a gap, also in front of a comment without an end. -/
theorem skipTrivia_passes (hs : s.Tidy) (hp : s.Placed) :
    Concludes skipTrivia s
      (fun b s' => ∃ gap, Passes s gap s' ∧ b = gap.any Piece.breaksLine)
      (fun fault s' => ∃ gap cause, Passes s gap s' ∧ fault = .scan cause s'.position) := by
  refine .get_bind ((skipPieces_passes hs hp rfl false).mono (fun b s' h => ?_) fun _ _ h => h)
  obtain ⟨gap, hgap, hb⟩ := h
  exact ⟨gap, hgap, by simpa using hb⟩

/-! ### One token -/

/-- The token is taken off the characters ahead: none at the end of the input, and else some. -/
structure Takes (s : Scanner) (newline : Bool) (t : Token) (n : Nat) : Prop where
  text : t.text = String.ofList (s.rest.take n)
  span : t.span = ⟨s.position, (s.advance n).position⟩
  newlineBefore : t.newlineBefore = newline
  size : t.kind = .endOfInput ∧ s.rest = [] ∨ t.kind ≠ .endOfInput ∧ s.rest ≠ [] ∧ 0 < n

/-- A token that is not the end has characters. -/
theorem Takes.pos_length {newline : Bool} {t : Token} {n : Nat} (h : Takes s newline t n)
    (ht : t.kind ≠ .endOfInput) : s.position.offset < (s.advance n).position.offset := by
  obtain ⟨hend, -⟩ | ⟨-, hrest, hn⟩ := h.size
  · exact absurd hend ht
  · have := List.length_pos_iff.2 hrest
    rw [Scanner.offset_advance]
    omega

/-- A token of a length, where there are as many characters ahead. -/
theorem take_takes {kind : TokenKind} {n : Nat} {newline : Bool} {E : SourceFault → Scanner → Prop}
    (hkind : kind ≠ .endOfInput) (hrest : s.rest ≠ []) (hn : 0 < n) :
    Concludes (take kind n newline) s (fun t s' => ∃ n, s' = s.advance n ∧ Takes s newline t n) E :=
  .of_ok rfl ⟨n, rfl, rfl, rfl, rfl, .inr ⟨hkind, hrest, hn⟩⟩

/-- Where a digit stands, there are digits. -/
theorem digitsLength_pos {c : Char} (cs : List Char) (hc : Text.isDigit c = true) :
    0 < digitsLength (c :: cs) := by
  simp [digitsLength, hc]

/-- A number has characters. -/
theorem numberReach_pos {c : Char} {cs : List Char} {n : Nat}
    (hc : Text.isDigit c = true ∨ c = '.' ∧ startsWithDigit cs = true)
    (h : numberReach (c :: cs) = .closed n) : 0 < n := by
  -- the part in front of the exponent has a digit
  have hstart : 0 < digitsLength (c :: cs) + fractionLength ((c :: cs).drop
      (digitsLength (c :: cs))) := by
    -- the number starts with its digit, or with the point and the digit behind it
    rcases hc with hc | ⟨rfl, hc⟩
    · have := digitsLength_pos cs hc
      omega
    · have hdigit : Text.isDigit '.' = false := by decide
      simp only [digitsLength, hdigit, List.takeWhile_cons, Bool.false_or]
      simp only [show ('.' == '_') = false from rfl, Bool.false_eq_true, if_false, List.length_nil,
        List.drop_zero, fractionLength]
      omega
  unfold numberReach at h
  -- a prefix has a length of its own
  split at h
  next n' hprefixed =>
    cases h
    unfold prefixedLength? at hprefixed
    split at hprefixed
    · split at hprefixed
      · cases hprefixed
        omega
      · cases hprefixed
    · cases hprefixed
  -- the tail can only make the number longer
  next =>
    dsimp only at h
    split at h
    · split at h
      · cases h
      · cases h
        omega
    · cases h
      omega

/-- A character that starts a name may go on with one. -/
theorem isNamePart_of_isNameStart {c : Char} (h : isNameStart c = true) : isNamePart c = true := by
  simp only [isNameStart, isNamePart, Text.isLetter, Text.isAlphanumeric, Bool.or_eq_true] at h ⊢
  exact h.imp_left (·.imp_left .inl)

/-- The token that starts here is what lies ahead, and a fault is reported here or behind. -/
theorem scriptToken_takes (newline : Bool) :
    Concludes (scriptToken newline) s (fun t s' => ∃ n, s' = s.advance n ∧ Takes s newline t n)
      (fun fault s' => s'.comments = s.comments ∧
        ∃ cause n, fault = .scan cause (s.advance n).position) := by
  -- the token starts here
  have hhere : s.position = (s.advance 0).position := rfl
  refine .get_bind ?_
  split
  -- nothing is left, and the end has no length
  next hrest => exact .of_ok rfl ⟨0, rfl, by simp, rfl, rfl, .inl ⟨rfl, hrest⟩⟩
  next c rest hrest =>
    have hsome : s.rest ≠ [] := by simp [hrest]
    refine .ite (fun _ => .of_error rfl ⟨rfl, _, 0, rfl⟩) fun _ => ?_
    refine .ite (fun hname => take_takes (by decide) hsome ?_) fun _ => ?_
    · simp [isNamePart_of_isNameStart hname]
    -- a number, a quoted text, or what one character decides
    refine .ite (fun hnumber => ?_) fun _ => .ite (fun _ => ?_) fun _ => ?_
    · have hstart : Text.isDigit c = true ∨ c = '.' ∧ startsWithDigit rest = true := by
        simpa using hnumber
      cases hreach : numberReach (c :: rest) with
      | closed n => exact take_takes (by decide) hsome (numberReach_pos hstart hreach)
      | broken n cause => exact .of_error rfl ⟨rfl, cause, n, rfl⟩
    · cases stringReach c rest with
      | closed n => exact take_takes (by decide) hsome (by omega)
      | broken n cause => exact .of_error rfl ⟨rfl, cause, 0, rfl⟩
    refine .ite (fun _ => take_takes (by decide) hsome Nat.one_pos) fun _ => ?_
    refine .ite (fun _ => take_takes (by decide) hsome (by omega)) fun _ => ?_
    split
    next p hp =>
      have hmem : p ∈ punctuators := List.mem_of_find?_eq_some hp
      -- every punctuator has a character
      have hlengths : ∀ p ∈ punctuators, 0 < p.length := by decide
      exact take_takes (by decide) hsome (hlengths p hmem)
    next => exact .of_error rfl ⟨rfl, _, 0, rfl⟩

/-- A script token is found behind what is passed over, and a fault there or behind. -/
theorem nextScript_takes (hs : s.Tidy) (hp : s.Placed) :
    Concludes nextScript s
      (fun t s' => ∃ gap mid n, Passes s gap mid ∧ s' = mid.advance n ∧
        Takes mid (gap.any Piece.breaksLine) t n)
      (fun fault s' => ∃ gap mid cause n, Passes s gap mid ∧ s'.comments = mid.comments ∧
        fault = .scan cause (mid.advance n).position) := by
  refine ((skipTrivia_passes hs hp).mono (fun b mid h => h) fun fault mid h => ?_).bind
    fun b mid h => ?_
  · -- the trivia does not end
    obtain ⟨gap, cause, hgap, hfault⟩ := h
    exact ⟨gap, mid, cause, 0, hgap, rfl, hfault⟩
  · -- a token, or a fault of its own, behind the trivia
    obtain ⟨gap, hgap, rfl⟩ := h
    refine (scriptToken_takes _).mono (fun t s' h => ?_) fun fault s' h => ?_
    · obtain ⟨n, hs', ht⟩ := h
      exact ⟨gap, mid, n, hgap, hs', ht⟩
    · obtain ⟨hcomments, cause, n, hfault⟩ := h
      exact ⟨gap, mid, cause, n, hgap, hcomments, hfault⟩

/-! ### One token after the other -/

/-- What is passed over is gone from what lies ahead. -/
theorem skipPieces_shorter {cs : List Char} (hcs : s.rest = cs) (newline : Bool) :
    (Course.free Scanner).Leads (skipPieces newline (triviaOf cs)) s fun _ s' =>
      s'.rest.length ≤ cs.length := by
  -- induction on the trivia, each piece of which has a length
  fun_induction triviaOf cs generalizing s newline with
  | case1 => exact .pure trivial (by simp [hcs])
  | case2 c rest _ ih =>
    have hrest : (s.advance 1).rest = rest := by rw [Scanner.rest_advance, hcs]; rfl
    refine .jump (s.advance 1) rfl trivial ((ih hrest _).mono fun _ _ _ h => ?_)
    rw [List.length_cons]
    omega
  | case3 body value _ =>
    rename_i ih
    have hmore := ih (Scanner.rest_lineComment hcs value) newline
    refine .jump _ rfl trivial (hmore.mono fun _ _ _ h => ?_)
    simp only [List.length_drop, List.length_cons] at h ⊢
    omega
  | case4 body n hn _ ih =>
    have hmore := ih (Scanner.rest_blockComment hcs hn) (newline || (body.take n).contains '\n')
    refine .jump _ rfl trivial (hmore.mono fun _ _ _ h => ?_)
    simp only [List.length_drop, List.length_cons] at h ⊢
    omega
  | case5 => exact .of_error rfl trivial
  | case6 => exact .pure trivial (by simp [hcs])
  | case7 => exact .pure trivial (by simp [hcs])

/-- Behind a token other than the end there is less of the source than before it. -/
theorem nextScript_shorter {t : Token} (h : nextScript s = (.ok t, s'))
    (ht : t.kind ≠ .endOfInput) : s'.rest.length < s.rest.length := by
  have hbind : nextScript s = _ := Course.bind_apply skipTrivia scriptToken s
  -- skipping never lengthens what is left
  have hskip : (Course.free Scanner).Leads skipTrivia s fun _ s' =>
      s'.rest.length ≤ s.rest.length := .get_bind (skipPieces_shorter rfl false)
  cases hrun : skipTrivia s with
  | mk r mid =>
    rw [hrun] at hbind
    cases r with
    | error fault => cases hbind.symm.trans h
    | ok newline =>
      have hle := (hskip.ok hrun).2
      obtain ⟨n, rfl, htakes⟩ := (scriptToken_takes newline).ok (hbind.symm.trans h)
      -- the token has a length, or it is the end
      obtain ⟨hend, -⟩ | ⟨-, hrest, hn⟩ := htakes.size
      · exact absurd hend ht
      · have := List.length_pos_iff.2 hrest
        rw [Scanner.rest_advance, List.length_drop]
        omega

/-- What is read of a script: the tokens, with the end of the input if it was reached, the fault if
there was one, and the comments. -/
structure Reading where
  tokens : List Token
  fault : Option SourceFault
  comments : List Comment

/-- The scanner reads one token of a script after the other, up to the end of the input or a fault. -/
def readFrom (s : Scanner) : Reading :=
  match _h : next .script s with
  | (.error fault, s') => ⟨[], some fault, s'.comments.reverse⟩
  | (.ok t, s') =>
    if _ht : t.kind = .endOfInput then ⟨[t], none, s'.comments.reverse⟩
    else
      let more := readFrom s'
      { more with tokens := t :: more.tokens }
termination_by s.rest.length
decreasing_by exact nextScript_shorter _h _ht

/-- Reads a source as a script. -/
def readScript (source : Source) : Reading := readFrom (.start source)

end Scan

/-- The source consists of the tokens, each behind the pieces that stand before it, from one offset to
another. -/
def Source.Tiles (source : Source) : Nat → List (List Piece × Token) → Nat → Prop
  | p, [], q => p = q
  | p, (gap, t) :: rest, q =>
    source.Covers p gap t.span.start.offset ∧ t.newlineBefore = gap.any Piece.breaksLine ∧
      source.Holds t.span t.text ∧ source.Tiles t.span.stop.offset rest q

/-- A text that stands at a place does not end before it starts. -/
theorem Source.Holds.le {source : Source} {span : Span} {text : String}
    (h : source.Holds span text) : span.start.offset ≤ span.stop.offset := by
  have := h.extent
  omega

/-- Tokens and comments that tile a source stand in it as they are written. -/
theorem Source.Tiles.holds {source : Source} {parts : List (List Piece × Token)} {p q : Nat}
    (h : source.Tiles p parts q) :
    (∀ t ∈ parts.map (·.2), source.Holds t.span t.text) ∧
    ∀ c ∈ commentsOf (parts.flatMap (·.1)), source.Holds c.span c.text := by
  induction parts generalizing p with
  | nil => exact ⟨List.forall_mem_nil _, List.forall_mem_nil _⟩
  | cons part parts ih =>
    obtain ⟨hgap, -, htoken, hrest⟩ := h
    obtain ⟨htokens, hcomments⟩ := ih hrest
    refine ⟨List.forall_mem_cons.2 ⟨htoken, htokens⟩, fun c hc => ?_⟩
    rw [List.flatMap_cons, commentsOf, List.filterMap_append, List.mem_append] at hc
    exact hc.elim (hgap.holds c) (hcomments c)

/-- They start where the first gap starts, or behind that. -/
theorem Source.Tiles.start_le {source : Source} {parts : List (List Piece × Token)} {p q : Nat}
    (h : source.Tiles p parts q) : ∀ t ∈ parts.map (·.2), p ≤ t.span.start.offset := by
  induction parts generalizing p with
  | nil => exact List.forall_mem_nil _
  | cons part parts ih =>
    obtain ⟨hgap, -, htoken, hrest⟩ := h
    refine List.forall_mem_cons.2 ⟨hgap.le, fun t ht => ?_⟩
    have hbehind := ih hrest t ht
    have := hgap.le
    have := htoken.le
    omega

/-- Each token ends before the next one starts. -/
theorem Source.Tiles.pairwise {source : Source} {parts : List (List Piece × Token)} {p q : Nat}
    (h : source.Tiles p parts q) :
    (parts.map (·.2)).Pairwise fun t u => t.span.stop.offset ≤ u.span.start.offset := by
  induction parts generalizing p with
  | nil => exact .nil
  | cons part parts ih => exact .cons h.2.2.2.start_le (ih h.2.2.2)

/-- What was read of a source is all of it, up to the end or to a fault. -/
structure Scan.Reading.Lossless (source : Source) (r : Scan.Reading) : Prop where
  /-- Tokens are pieces of the source, and their lines and columns are the counted ones. -/
  tokens : ∀ t ∈ r.tokens, source.Holds t.span t.text
  /-- So are comments. -/
  comments : ∀ c ∈ r.comments, source.Holds c.span c.text
  /-- A fault is told with the counted line and column. -/
  fault : ∀ f ∈ r.fault, ∃ cause offset, offset ≤ source.size ∧
    f = .scan cause (source.positionAt offset)
  /-- A token that is not the end has characters. -/
  solid : ∀ t ∈ r.tokens, t.kind ≠ .endOfInput → t.span.start.offset < t.span.stop.offset
  /-- Tokens follow one another. -/
  ordered : r.tokens.Pairwise fun t u => t.span.stop.offset ≤ u.span.start.offset
  /-- Between the tokens, before the first one and before a fault there are white space and the
  comments, each of them once; a token knows whether the line ended before it. -/
  gaps : ∃ parts last stop, parts.map (·.2) = r.tokens ∧ source.Tiles 0 parts stop ∧
    r.comments = commentsOf (parts.flatMap (·.1) ++ last) ∧
    ∃ q, source.Covers stop last q ∧ ∀ f ∈ r.fault, q ≤ f.span.start.offset
  /-- Without a fault the end of the source was reached. -/
  ends : r.fault = none → ∃ before t, r.tokens = before ++ [t] ∧ t.kind = .endOfInput ∧
    t.span.start.offset = source.size

namespace Scan

/-- What is read from a scanner on: tokens, each behind a gap, and then the end or a fault. -/
structure ReadsOn (s : Scanner) (r : Reading) : Prop where
  solid : ∀ t ∈ r.tokens, t.kind ≠ .endOfInput → t.span.start.offset < t.span.stop.offset
  fault : ∀ f ∈ r.fault, ∃ cause offset, offset ≤ s.source.size ∧
    f = .scan cause (s.source.positionAt offset)
  gaps : ∃ parts last stop, parts.map (·.2) = r.tokens ∧
    s.source.Tiles s.position.offset parts stop ∧
    r.comments = s.comments.reverse ++ commentsOf (parts.flatMap (·.1) ++ last) ∧
    ∃ q, s.source.Covers stop last q ∧ ∀ f ∈ r.fault, q ≤ f.span.start.offset
  ends : r.fault = none → ∃ before t, r.tokens = before ++ [t] ∧ t.kind = .endOfInput ∧
    t.span.start.offset = s.source.size

/-- The token that was taken stands in the source, behind what was passed over. -/
theorem Takes.holds {mid : Scanner} {newline : Bool} {t : Token} {n : Nat}
    (h : Takes mid newline t n) (hp : mid.Placed) : mid.source.Holds t.span t.text := by
  rw [h.span, h.text]
  exact hp.holds n

/-- The loop goes on from token to token, as long as there are characters ahead. -/
theorem readFrom_readsOn (hs : s.Tidy) (hp : s.Placed) : ReadsOn s (readFrom s) := by
  -- induction on the tokens that are read
  fun_induction readFrom s with
  -- the last token fails: its fault lies where the scanner stopped, behind the trivia in front of
  -- it
  | case1 s fault s' h =>
    obtain ⟨gap, mid, cause, n, hgap, hcomments, rfl⟩ := (nextScript_takes hs hp).error h
    have hplaced := Scanner.placed_advance hgap.placed n
    refine ⟨List.forall_mem_nil _, ?_, ⟨[], gap, _, rfl, rfl, ?_, _, hgap.covers, ?_⟩, nofun⟩
    · intro f hf
      cases hf
      rw [← hgap.source, ← mid.source_advance n]
      exact ⟨cause, _, hplaced.le_size, congrArg _ hplaced.position_eq⟩
    · rw [hcomments, hgap.comments]
      simp
    · intro f hf
      cases hf
      exact (Scanner.kept_advance hgap.tidy n).2.position
  -- the last token is the end, and it stands where the source ends
  | case2 s t s' h ht =>
    obtain ⟨gap, mid, n, hgap, rfl, htakes⟩ := (nextScript_takes hs hp).ok h
    have hholds := htakes.holds hgap.placed
    rw [hgap.source] at hholds
    have hstart : t.span.start.offset = mid.position.offset := by rw [htakes.span]
    have hend : t.span.start.offset = s.source.size := by
      -- the end has no characters behind it
      obtain ⟨-, hrest⟩ | ⟨hne, -⟩ := htakes.size
      · have hover := List.drop_eq_nil_iff.1 ((Source.suffix_eq _ _).symm.trans hrest)
        have hle := hgap.placed.le_size
        rw [← Source.size_eq] at hover
        rw [hgap.source] at hover hle
        omega
      · exact absurd ht hne
    refine ⟨?_, nofun, ⟨[(gap, t)], [], _, rfl, ⟨?_, htakes.newlineBefore, hholds, rfl⟩, ?_, _, rfl,
      nofun⟩, fun _ => ⟨[], t, rfl, ht, hend⟩⟩
    · exact List.forall_mem_singleton.2 fun hne => absurd ht hne
    · rw [hstart]
      exact hgap.covers
    · rw [Scanner.comments_advance, hgap.comments]
      simp
  -- a token and what is read behind it
  | case3 s t s' h ht more ih =>
    obtain ⟨gap, mid, n, hgap, rfl, htakes⟩ := (nextScript_takes hs hp).ok h
    obtain ⟨hsolid, hfault, ⟨parts, last, stop, hparts, htiles, hcomments, hlast⟩, hends⟩ :=
      ih (Scanner.kept_advance hgap.tidy n).1 (Scanner.placed_advance hgap.placed n)
    have hholds := htakes.holds hgap.placed
    have hsource : (mid.advance n).source = s.source := hgap.source
    rw [hgap.source] at hholds
    rw [hsource] at hfault htiles hlast hends
    have hspan := htakes.span
    -- the parts have the gap and the token in front
    refine ⟨?_, hfault, ⟨(gap, t) :: parts, last, stop, ?_, ⟨?_, htakes.newlineBefore, hholds, ?_⟩,
      ?_, hlast⟩, fun hnone => ?_⟩
    · refine List.forall_mem_cons.2 ⟨fun hne => ?_, hsolid⟩
      rw [hspan]
      exact htakes.pos_length hne
    · rw [List.map_cons, hparts]
    · rw [hspan]
      exact hgap.covers
    · rw [hspan]
      exact htiles
    · rw [hcomments, Scanner.comments_advance, hgap.comments]
      simp [commentsOf, List.filterMap_append]
    · obtain ⟨before, u, htokens, hu⟩ := hends hnone
      exact ⟨t :: before, u, by rw [htokens, List.cons_append], hu⟩

/-- Reading a script loses nothing: its tokens, the white space and the comments between them are the
source. -/
theorem readScript_lossless (source : Source) : (readScript source).Lossless source := by
  -- the scanner starts tidy, at a place in the source
  obtain ⟨hsolid, hfault, hgaps, hends⟩ :=
    readFrom_readsOn (s := .start source) trivial (Scanner.start_placed source)
  obtain ⟨parts, last, stop, hparts, htiles, hcomments, hlast⟩ := hgaps
  refine ⟨?_, ?_, hfault, hsolid, ?_, ⟨parts, last, stop, hparts, htiles, hcomments, hlast⟩, hends⟩
  · intro t ht
    exact htiles.holds.1 t (hparts ▸ ht)
  · intro c hc
    obtain ⟨q, hcovers, -⟩ := hlast
    change c ∈ (readFrom (.start source)).comments at hc
    rw [hcomments] at hc
    simp only [commentsOf, List.filterMap_append, List.mem_append] at hc
    -- a comment stands in front of some token, or behind the last
    obtain hc | hc | hc := hc
    · cases hc
    · exact htiles.holds.2 c hc
    · exact hcovers.holds c hc
  · have hpairwise := htiles.pairwise
    rwa [hparts] at hpairwise

end Scan

end Reflow
