import Reflow.Proofs.Token.Scanner

/-!
# Reading a token again

What the scanner finds depends on the source and its position, not on the comments that it met before.
Behind white space and comments there are none left, so a scanner that is put at the start of a token
finds that token, and goes on from there as before.

## Key results

- `nextScript_again`: a token is found again from its start
- `nextScript_extent`: a token reaches as far as its text is long
- `nextScript_end`: behind the end of the source there is nothing but the end
-/

namespace Reflow.Scan

variable {α β : Type} {s s' : Scanner} {t : Token}

/-- The result of the step and the way it goes do not depend on the comments met before. -/
def Blind (x : Scan α) : Prop :=
  ∀ s comments, ∃ comments',
    x { s with comments } = ((x s).1, { (x s).2 with comments := comments' })

namespace Blind

/-- To give a value back does not look at the comments. -/
protected theorem pure (a : α) : Blind (pure a) := fun _ comments => ⟨comments, rfl⟩

/-- Two steps do not if neither does. -/
protected theorem bind {x : Scan α} {f : α → Scan β} (hx : Blind x) (hf : ∀ a, Blind (f a)) :
    Blind (x >>= f) := by
  intro s comments
  obtain ⟨comments', h⟩ := hx s comments
  simp only [Course.bind_apply, h]
  rcases x s with ⟨e | a, s'⟩
  · exact ⟨comments', rfl⟩
  · exact hf a s' comments'

/-- A step that looks at the state, but not at the comments. -/
theorem get_bind {f : Scanner → Scan α} (hsame : ∀ s comments, f { s with comments } = f s)
    (hf : ∀ s, Blind (f s)) : Blind (get >>= f) := by
  intro s comments
  obtain ⟨comments', h⟩ := hf s s comments
  refine ⟨comments', ?_⟩
  show f { s with comments } { s with comments } = _
  rw [hsame, h]
  rfl

/-- A choice does not if neither branch does. -/
protected theorem ite {c : Prop} [Decidable c] {x y : Scan α} (hx : Blind x) (hy : Blind y) :
    Blind (if c then x else y) := by
  split
  · exact hx
  · exact hy

end Blind

/-- A fault does not depend on the comments that were met. -/
theorem fault_blind (cause : ScanFault) (position : Position) :
    Blind (fault cause position : Scan α) :=
  fun _ comments => ⟨comments, rfl⟩

/-- Nor does it to move ahead. -/
theorem advance_blind (n : Nat) : Blind (advance n) := fun _ comments => ⟨comments, rfl⟩

/-- To keep a comment changes the comments, and nothing else. -/
theorem record_blind (kind : CommentKind) (value : List Char) (start : Position) :
    Blind (modify (·.record kind value start)) := by
  -- a comment that is recorded changes the comments alone
  have hrecord : ∀ s : Scanner, ∃ comments, s.record kind value start = { s with comments } := by
    intro s
    unfold Scanner.record
    split
    · split
      · exact ⟨s.comments, rfl⟩
      · exact ⟨_, rfl⟩
    · exact ⟨_, rfl⟩
  intro s comments
  -- with other comments before it another list results, and nothing else differs
  obtain ⟨comments', h⟩ := hrecord { s with comments }
  obtain ⟨comments'', h'⟩ := hrecord s
  refine ⟨comments', ?_⟩
  show (Except.ok PUnit.unit, Scanner.record _ kind value start) =
    (Except.ok PUnit.unit, { s.record kind value start with comments := comments' })
  rw [h, h']

/-- So it is for all that is passed over. -/
theorem skipPieces_blind (newline : Bool) (pieces : List Trivia) :
    Blind (skipPieces newline pieces) := by
  fun_induction skipPieces newline pieces with
  | case1 newline => exact .pure newline
  | case2 newline c rest ih => exact (advance_blind 1).bind fun _ => ih
  | case3 newline value rest ih =>
    refine .get_bind (fun _ _ => rfl) fun s => (advance_blind _).bind fun _ => ?_
    exact (record_blind _ _ _).bind fun _ => ih
  | case4 newline value rest ih =>
    refine .get_bind (fun _ _ => rfl) fun s => (advance_blind _).bind fun _ => ?_
    exact (record_blind _ _ _).bind fun _ => ih
  | case5 => exact .get_bind (fun _ _ => rfl) fun s => fault_blind _ _

/-- What stands between tokens is passed over in the same way whatever was met. -/
theorem skipTrivia_blind : Blind skipTrivia :=
  .get_bind (fun _ _ => rfl) fun _ => skipPieces_blind _ _

/-- So a token does not depend on the comments. -/
theorem take_blind (kind : TokenKind) (length : Nat) (newline : Bool) :
    Blind (take kind length newline) :=
  fun _ comments => ⟨comments, rfl⟩

/-- Nor does one that may be broken. -/
theorem takeReach_blind (kind : TokenKind) (reach : Reach) (newline : Bool)
    (position : Option Position) : Blind (takeReach kind reach newline position) := by
  cases reach with
  | closed length => exact take_blind kind length newline
  | broken length cause => exact fun _ comments => ⟨comments, rfl⟩

/-- Nor does any token of a script. -/
theorem scriptToken_blind (newline : Bool) : Blind (scriptToken newline) := by
  refine .get_bind (fun _ _ => rfl) fun s => ?_
  split
  · exact take_blind _ _ _
  · refine .ite (fault_blind _ _) (.ite (take_blind _ _ _) (.ite (takeReach_blind _ _ _ _) ?_))
    refine .ite (takeReach_blind _ _ _ _) (.ite (take_blind _ _ _) (.ite (take_blind _ _ _) ?_))
    split
    · exact take_blind _ _ _
    · exact fault_blind _ _

/-- Nor does the next one. -/
theorem nextScript_blind : Blind nextScript := skipTrivia_blind.bind scriptToken_blind

/-- A token is found whatever comments were met before. -/
theorem nextScript_comments (h : nextScript s = (.ok t, s')) (comments : List Comment) :
    ∃ comments', nextScript { s with comments } = (.ok t, { s' with comments := comments' }) := by
  obtain ⟨comments', hblind⟩ := nextScript_blind s comments
  exact ⟨comments', by rw [hblind, h]⟩

/-! ### Behind white space and comments -/

/-- To keep a comment leaves the source. -/
theorem source_record (s : Scanner) (kind : CommentKind) (value : List Char) (start : Position) :
    (s.record kind value start).source = s.source := by
  unfold Scanner.record
  split
  · split <;> rfl
  · rfl

/-- Where white space and comments were passed over, none are left. -/
theorem skipPieces_done {cs : List Char} (hcs : s.rest = cs) (newline : Bool) :
    (Course.free Scanner).Leads (skipPieces newline (triviaOf cs)) s fun _ s' =>
      s'.source = s.source ∧ triviaOf s'.rest = [] := by
  -- induction on the trivia
  fun_induction triviaOf cs generalizing s newline with
  | case1 => exact .pure trivial ⟨rfl, by rw [hcs, triviaOf]⟩
  | case2 c rest _ ih =>
    have hrest : (s.advance 1).rest = rest := by rw [Scanner.rest_advance, hcs]; rfl
    exact .jump (s.advance 1) rfl trivial (ih hrest _)
  | case3 body value _ =>
    -- behind a comment the source is the same
    rename_i ih
    refine .jump ((s.advance (2 + value.length)).record .line value s.position) rfl trivial ?_
    rw [← Scanner.source_advance s (2 + value.length), ← source_record _ .line value s.position]
    exact ih (Scanner.rest_lineComment hcs value) _
  | case4 body n hn _ ih =>
    refine .jump ((s.advance ((body.take n).length + 4)).record .block (body.take n) s.position) rfl
      trivial ?_
    rw [← Scanner.source_advance s ((body.take n).length + 4),
      ← source_record _ .block (body.take n) s.position]
    exact ih (Scanner.rest_blockComment hcs hn) _
  | case5 => exact .of_error rfl trivial
  -- what stopped the skipping is the slash of no comment
  | case6 rest hline hblock hspace =>
    refine .pure trivial ⟨rfl, ?_⟩
    rw [hcs, triviaOf.eq_def]
    simp [hspace]
  -- what stopped the skipping is neither white space nor a slash
  | case7 c rest hspace hslash =>
    refine .pure trivial ⟨rfl, ?_⟩
    rw [hcs, triviaOf.eq_def]
    simp [hspace, hslash]

/-- The token starts at the scanner's position and reaches as far as its text is long. -/
structure TakenAt (s : Scanner) (t : Token) (s' : Scanner) : Prop where
  start : t.span.start = s.position
  extent : t.span.stop.offset = t.span.start.offset + t.text.length
  source : s'.source = s.source

/-- A token is taken from where the scanner stands. -/
theorem take_taken (kind : TokenKind) (length : Nat) (newline : Bool) :
    (Course.free Scanner).Leads (take kind length newline) s fun t s' =>
      TakenAt s t s' :=
  .of_ok rfl trivial ⟨rfl, by simp [Scanner.advance], rfl⟩

/-- So is one that may be broken. -/
theorem takeReach_taken (kind : TokenKind) (reach : Reach) (newline : Bool)
    (position : Option Position) :
    (Course.free Scanner).Leads (takeReach kind reach newline position) s fun t s' =>
      TakenAt s t s' := by
  cases reach with
  | closed length => exact take_taken kind length newline
  | broken length cause => exact .of_error rfl trivial

/-- So is any token of a script. -/
theorem scriptToken_taken (newline : Bool) :
    (Course.free Scanner).Leads (scriptToken newline) s fun t s' => TakenAt s t s' := by
  -- a fault takes no token
  have hfault : ∀ cause position, (Course.free Scanner).Leads
      (fault cause position : Scan Token) s fun t s' => TakenAt s t s' :=
    fun _ _ => .of_error rfl trivial
  -- in the order in which the scanner asks what the first character starts
  refine .get_bind ?_
  split
  · exact take_taken _ _ _
  · refine .ite (fun _ => hfault _ _) fun _ => .ite (fun _ => take_taken _ _ _) fun _ => ?_
    refine .ite (fun _ => takeReach_taken _ _ _ _) fun _ => ?_
    refine .ite (fun _ => takeReach_taken _ _ _ _) fun _ => ?_
    refine .ite (fun _ => take_taken _ _ _) fun _ => .ite (fun _ => take_taken _ _ _) fun _ => ?_
    split
    · exact take_taken _ _ _
    · exact hfault _ _

/-- A result in which the line end before the token is told otherwise. -/
def retell (newline : Bool) (r : Except SourceFault Token × Scanner) :
    Except SourceFault Token × Scanner :=
  (r.1.map fun t => { t with newlineBefore := newline }, r.2)

/-- The line end before a token is only told, not looked at. -/
theorem takeReach_retell (kind : TokenKind) (reach : Reach) (newline : Bool)
    (position : Option Position) :
    takeReach kind reach newline position s =
      retell newline (takeReach kind reach false position s) := by
  cases reach <;> rfl

/-- Whether the line ended before it has no influence on a token. -/
theorem scriptToken_retell (newline : Bool) :
    scriptToken newline s = retell newline (scriptToken false s) := by
  have hget : ∀ f : Scanner → Scan Token, (get >>= f) s = f s s := fun _ => rfl
  unfold scriptToken
  -- the mark is the only thing the branches use of what was skipped
  rw [hget, hget]
  cases s.rest with
  | nil => rfl
  | cons c rest =>
    dsimp only
    split
    · rfl
    split
    · rfl
    split
    · exact takeReach_retell _ _ _ _
    split
    · exact takeReach_retell _ _ _ _
    split
    · rfl
    split
    · rfl
    cases punctuator? (c :: rest) <;> rfl

/-- A token of a script is found behind white space and comments. -/
theorem nextScript_eq_ok (h : nextScript s = (.ok t, s')) :
    ∃ newline s1, s1.source = s.source ∧ triviaOf s1.rest = [] ∧
      scriptToken newline s1 = (.ok t, s') := by
  have hbind : nextScript s = _ := Course.bind_apply skipTrivia scriptToken s
  have hskip : (Course.free Scanner).Leads skipTrivia s _ :=
    .get_bind (skipPieces_done rfl false)
  rcases hrun : skipTrivia s with ⟨fault | newline, s1⟩ <;> rw [hrun] at hbind
  · cases hbind.symm.trans h
  · obtain ⟨hsource, htrivia⟩ := (hskip.ok hrun).2
    exact ⟨newline, s1, hsource, htrivia, hbind.symm.trans h⟩

/-- A token reaches as far as its text is long. -/
theorem nextScript_extent (h : nextScript s = (.ok t, s')) :
    t.span.stop.offset = t.span.start.offset + t.text.length := by
  obtain ⟨newline, s1, -, -, htoken⟩ := nextScript_eq_ok h
  exact ((scriptToken_taken newline).ok htoken).2.extent

/-- To read a token leaves the source. -/
theorem nextScript_source (h : nextScript s = (.ok t, s')) : s'.source = s.source := by
  obtain ⟨newline, s1, hsource, -, htoken⟩ := nextScript_eq_ok h
  exact ((scriptToken_taken newline).ok htoken).2.source.trans hsource

/-- Told of no line end, a token is the same. -/
theorem scriptToken_false {newline : Bool} (h : scriptToken newline s = (.ok t, s')) :
    scriptToken false s = (.ok { t with newlineBefore := false }, s') := by
  rw [scriptToken_retell] at h ⊢
  rcases hrun : scriptToken false s with ⟨fault | u, s1⟩ <;> rw [hrun] at h
  · cases h
  · change (Except.ok { u with newlineBefore := newline }, s1) = (Except.ok t, s') at h
    cases h
    rfl

/-- What is done after a look at the scanner. -/
theorem get_bind_apply {α : Type} (f : Scanner → Scan α) (s : Scanner) :
    (get >>= f) s = f s s :=
  rfl

/-- Where nothing is to be passed over, the next token starts at once. -/
theorem nextScript_of_trivia (h : triviaOf s.rest = []) : nextScript s = scriptToken false s := by
  have hnone : skipTrivia s = (.ok false, s) := by
    show skipPieces false (triviaOf s.rest) s = _
    rw [h]
    rfl
  have hbind : nextScript s = _ := Course.bind_apply skipTrivia scriptToken s
  rw [hbind, hnone]

/-- A token is found again from its start on. -/
theorem nextScript_again (h : nextScript s = (.ok t, s')) (comments : List Comment) :
    ∃ comments', nextScript ⟨s.source, t.span.start, comments⟩ =
      (.ok { t with newlineBefore := false }, { s' with comments := comments' }) := by
  obtain ⟨newline, s1, hsource, htrivia, htoken⟩ := nextScript_eq_ok h
  have hstart := ((scriptToken_taken newline).ok htoken).2.start
  have hskip : nextScript { s1 with comments } = scriptToken false { s1 with comments } :=
    nextScript_of_trivia htrivia
  obtain ⟨comments', hblind⟩ := scriptToken_blind false s1 comments
  rw [hstart, ← hsource]
  exact ⟨comments', by rw [hskip, hblind, scriptToken_false htoken]⟩

/-! ### To the end of the source -/

/-- At the end of the source nothing is taken. -/
theorem scriptToken_end (newline : Bool) :
    (Course.free Scanner).Leads (scriptToken newline) s fun t s' =>
      t.kind = .endOfInput → s.rest = [] ∧ s' = s := by
  -- a token that is taken is no end
  have htake : ∀ {kind : TokenKind} {length : Nat}, kind ≠ .endOfInput →
      (Course.free Scanner).Leads (take kind length newline) s fun t s' =>
        t.kind = .endOfInput → s.rest = [] ∧ s' = s :=
    fun hkind => .of_ok rfl trivial fun h => (hkind h).elim
  have hfault : ∀ cause position, (Course.free Scanner).Leads
      (fault cause position : Scan Token) s fun t s' =>
        t.kind = .endOfInput → s.rest = [] ∧ s' = s :=
    fun _ _ => .of_error rfl trivial
  have hreach : ∀ {kind : TokenKind} (reach position), kind ≠ .endOfInput →
      (Course.free Scanner).Leads (takeReach kind reach newline position) s fun t s' =>
        t.kind = .endOfInput → s.rest = [] ∧ s' = s := by
    intro kind reach position hkind
    cases reach with
    | closed length => exact htake hkind
    | broken length cause => exact .of_error rfl trivial
  refine .get_bind ?_
  split
  -- the end is read only where nothing is left
  next hrest => exact .of_ok rfl trivial fun _ => ⟨hrest, by simp [Scanner.advance]⟩
  next =>
    refine .ite (fun _ => hfault _ _) fun _ => .ite (fun _ => htake nofun) fun _ => ?_
    refine .ite (fun _ => hreach _ _ nofun) fun _ => .ite (fun _ => hreach _ _ nofun) fun _ => ?_
    refine .ite (fun _ => htake nofun) fun _ => .ite (fun _ => htake nofun) fun _ => ?_
    split
    · exact htake nofun
    · exact hfault _ _

/-- Behind the end of the source the end is found again, and the scanner stays as it is. -/
theorem nextScript_end {u : Token} {s'' : Scanner} (h : nextScript s = (.ok t, s'))
    (ht : t.kind = .endOfInput) (h' : nextScript s' = (.ok u, s'')) :
    u.kind = .endOfInput ∧ s'' = s' := by
  obtain ⟨newline, s1, -, htrivia, htoken⟩ := nextScript_eq_ok h
  obtain ⟨-, rfl⟩ := ((scriptToken_end newline).ok htoken).2 ht
  rw [nextScript_of_trivia htrivia, scriptToken_false htoken] at h'
  cases h'
  exact ⟨ht, rfl⟩

end Reflow.Scan
