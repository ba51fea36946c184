import Reflow.Proofs.Course
import Reflow.Token.Scanner

/-!
# The scanner moves ahead

Every step of the scanner, whether it succeeds or fails, is made of two moves: it passes over some
characters, and it keeps what it has just passed over as a comment.  So it leaves the source as it is,
moves ahead and adds comments that lie between the old and the new position and are copied from the
source there.  The comments of a tidy scanner are not empty, lie one behind the other and end before
its position; a tidy scanner stays tidy.

## Key results

- `Scan.next_moves`, `Scan.templateChunk_moves`: steps are made of moves, and a token lies between the
  position before and the position behind it
- `Scanner.Moves.kept`: moves keep a scanner tidy
- `Scanner.seek_of_follows`: going back to the position of a scanner gives that scanner
-/

namespace Reflow

/-- Comments, the last one first, that are not empty, lie one behind the other and end before an
offset. -/
def Descends : List Comment → Nat → Prop
  | [], _ => True
  | c :: rest, p => c.start < c.stop ∧ c.stop ≤ p ∧ Descends rest c.start

/-- Comments that lie before a place lie before all later ones. -/
theorem Descends.widen {l : List Comment} {p q : Nat} (h : Descends l p) (hq : p ≤ q) :
    Descends l q := by
  cases l with
  | nil => exact trivial
  | cons c rest => exact ⟨h.1, Nat.le_trans h.2.1 hq, h.2.2⟩

/-- They start before it. -/
theorem Descends.start_lt {l : List Comment} {p : Nat} (h : Descends l p) {c : Comment}
    (hc : c ∈ l) : c.start < p := by
  induction l generalizing p with
  | nil => cases hc
  | cons d rest ih =>
    obtain ⟨h1, h2, h3⟩ := h
    rcases List.mem_cons.1 hc with rfl | hc
    · omega
    · have := ih h3 hc
      omega

/-- They end there at the latest. -/
theorem Descends.stop_le {l : List Comment} {p : Nat} (h : Descends l p) {c : Comment}
    (hc : c ∈ l) : c.stop ≤ p := by
  induction l generalizing p with
  | nil => cases hc
  | cons d rest ih =>
    obtain ⟨h1, h2, h3⟩ := h
    rcases List.mem_cons.1 hc with rfl | hc
    · exact h2
    · have := ih h3 hc
      omega

/-- From the first to the last, such comments start one behind the other. -/
theorem Descends.pairwise_reverse {l : List Comment} {p : Nat} (h : Descends l p) :
    l.reverse.Pairwise fun a b => a.start < b.start := by
  rw [List.pairwise_reverse]
  induction l generalizing p with
  | nil => exact .nil
  | cons c rest ih => exact .cons (fun d hd => h.2.2.start_lt hd) (ih h.2.2)

/-- From the first to the last, such comments start where the one before has ended. -/
theorem Descends.disjoint_reverse {l : List Comment} {p : Nat} (h : Descends l p) :
    l.reverse.Pairwise fun a b => a.stop ≤ b.start := by
  rw [List.pairwise_reverse]
  induction l generalizing p with
  | nil => exact .nil
  | cons c rest ih => exact .cons (fun d hd => h.2.2.stop_le hd) (ih h.2.2)

/-- No comment is empty. -/
theorem Descends.start_lt_stop {l : List Comment} {p : Nat} (h : Descends l p) {c : Comment}
    (hc : c ∈ l) : c.start < c.stop := by
  induction l generalizing p with
  | nil => cases hc
  | cons d rest ih =>
    rcases List.mem_cons.1 hc with rfl | hc
    · exact h.1
    · exact ih h.2.2 hc

/-- The comment with its delimiters is what stands in the source at its place. -/
def Comment.CopiedFrom (source : Source) (c : Comment) : Prop :=
  c.text = source.text c.start c.stop

namespace Scanner

/-- The comments lie one behind the other before the position. -/
def Tidy (s : Scanner) : Prop := Descends s.comments s.position.offset

/-- The position is the one behind the characters that were passed over. -/
def Placed (s : Scanner) : Prop :=
  s.position = ({} : Position).over (s.source.chars.take s.position.offset)

/-- The second scanner may come after the first one. -/
structure Precedes (a b : Scanner) : Prop where
  source : b.source = a.source
  position : a.position.offset ≤ b.position.offset
  placed : a.Placed → b.Placed
  comments : ∃ new, b.comments = new ++ a.comments ∧
    ∀ c ∈ new, a.position.offset ≤ c.start ∧ c.CopiedFrom a.source

/-- At the start the line and the column are those of the start. -/
theorem start_placed (source : Source) : (start source).Placed := by
  simp [Placed, start]

/-- A scanner that is placed does not lie behind the end. -/
theorem Placed.le_size {s : Scanner} (h : s.Placed) : s.position.offset ≤ s.source.size := by
  have hoffset := congrArg Position.offset h
  rw [Position.offset_over, List.length_take, ← Source.size_eq] at hoffset
  simp only [Nat.zero_add] at hoffset
  omega

/-- A scanner precedes itself. -/
theorem Precedes.refl (a : Scanner) : Precedes a a :=
  ⟨rfl, Nat.le_refl _, id, [], rfl, by simp⟩

/-- Scanners along a course precede one another. -/
theorem Precedes.trans {a b c : Scanner} (h : Precedes a b) (h' : Precedes b c) :
    Precedes a c := by
  obtain ⟨new, hnew, hmet⟩ := h.comments
  obtain ⟨new', hnew', hmet'⟩ := h'.comments
  refine ⟨h'.source.trans h.source, Nat.le_trans h.position h'.position,
    fun ha => h'.placed (h.placed ha), new' ++ new, ?_, ?_⟩
  · rw [hnew', hnew, List.append_assoc]
  · intro c hc
    rcases List.mem_append.1 hc with hc | hc
    · obtain ⟨hstart, hcopied⟩ := hmet' c hc
      exact ⟨Nat.le_trans h.position hstart, h.source ▸ hcopied⟩
    · exact hmet c hc

/-- All comments start in front of the position. -/
def Behind (s : Scanner) : Prop := ∀ c ∈ s.comments, c.start < s.position.offset

/-- The comments of a tidy scanner lie behind it. -/
theorem Tidy.behind {s : Scanner} (hs : s.Tidy) : s.Behind := fun _ hc => Descends.start_lt hs hc

/-- The second scanner lies ahead of the first one in the same source, and so do the comments that it
has met since. -/
structure Follows (a b : Scanner) : Prop where
  source : b.source = a.source
  position : a.position.offset ≤ b.position.offset
  comments : ∃ new, b.comments = new ++ a.comments ∧ ∀ c ∈ new, a.position.offset ≤ c.start

/-- Who precedes another is followed by it. -/
theorem Precedes.follows {a b : Scanner} (h : Precedes a b) : Follows a b := by
  obtain ⟨new, hnew, hmet⟩ := h.comments
  exact ⟨h.source, h.position, new, hnew, fun c hc => (hmet c hc).1⟩

/-- Going back, but not to before a scanner whose comments are known, keeps these. -/
theorem dropWhile_behind {a : Scanner} (ha : a.Behind) {offset : Nat}
    (h : a.position.offset ≤ offset) (new : List Comment) :
    (new ++ a.comments).dropWhile (fun c => offset ≤ c.start) =
      new.dropWhile (fun c => offset ≤ c.start) ++ a.comments := by
  -- the comments that were there lie before the offset
  have hnone : a.comments.dropWhile (fun c => offset ≤ c.start) = a.comments := by
    cases hc : a.comments with
    | nil => rfl
    | cons c rest =>
      have hlt := ha c (hc ▸ List.mem_cons_self)
      rw [List.dropWhile_cons_of_neg (by simp; omega)]
  -- the new ones are dropped as far as they lie behind it
  rw [List.dropWhile_append, hnone]
  split
  · rename_i hempty
    rw [List.isEmpty_iff.1 hempty, List.nil_append]
  · rfl

/-- Going back forgets all that was met since. -/
theorem seek_of_follows {a b : Scanner} (ha : a.Behind) (h : Follows a b) :
    b.seek a.position = a := by
  obtain ⟨new, hnew, hmet⟩ := h.comments
  have hcomments : b.comments.dropWhile (fun c => a.position.offset ≤ c.start) = a.comments := by
    rw [hnew, List.dropWhile_append_of_pos fun c hc => decide_eq_true (hmet c hc)]
    exact dropWhile_behind ha (Nat.le_refl _) []
  simp [seek, hcomments, h.source]

/-- To go back to a scanner that precedes is to be that scanner again. -/
theorem seek_of_precedes {a b : Scanner} (ha : a.Tidy) (h : Precedes a b) :
    b.seek a.position = a :=
  seek_of_follows ha.behind h.follows

/-- How the scanner moves: ahead, and it stays tidy as long as it does not fail. -/
def course : Course Scanner where
  kept a b := b.Tidy ∧ Precedes a b
  left a b := Precedes a b
  kept_trans h h' := ⟨h'.1, h.2.trans h'.2⟩
  left_of_kept h h' := h.2.trans h'

/-- A tidy scanner keeps what it has by standing still. -/
theorem kept_refl {s : Scanner} (hs : s.Tidy) : course.kept s s := ⟨hs, .refl s⟩

@[simp] theorem source_advance (s : Scanner) (n : Nat) : (s.advance n).source = s.source := rfl

@[simp] theorem comments_advance (s : Scanner) (n : Nat) :
    (s.advance n).comments = s.comments := rfl

/-- To move ahead is to move by a number of characters, but not over the end. -/
theorem offset_advance (s : Scanner) (n : Nat) :
    (s.advance n).position.offset = s.position.offset + min n s.rest.length := by
  simp [advance]

/-- What was moved over no longer lies ahead. -/
theorem rest_advance (s : Scanner) (n : Nat) : (s.advance n).rest = s.rest.drop n := by
  have h : ∀ k : Nat, (s.source.chars.drop s.position.offset).drop
      (min k (s.source.chars.drop s.position.offset).length) =
      (s.source.chars.drop s.position.offset).drop k := by
    intro k
    rcases Nat.le_total k (s.source.chars.drop s.position.offset).length with hk | hk
    · rw [Nat.min_eq_left hk]
    · rw [Nat.min_eq_right hk, List.drop_length, List.drop_eq_nil_of_le hk]
  rw [rest, offset_advance, source_advance, Source.suffix_eq, rest, Source.suffix_eq,
    ← List.drop_drop]
  exact h n

/-- The line and the column are counted on the way. -/
theorem placed_advance {s : Scanner} (hs : s.Placed) (n : Nat) : (s.advance n).Placed := by
  -- what was passed over grows by what is passed over now
  have hmore : s.source.chars.take (s.advance n).position.offset =
      s.source.chars.take s.position.offset ++ s.rest.take n := by
    rw [offset_advance, List.take_add, rest, Source.suffix_eq, ← List.take_eq_take_min]
  show s.position.over (s.rest.take n) = ({} : Position).over (s.source.chars.take _)
  rw [hmore, Position.over_append, ← hs]

/-- To move ahead keeps the comments tidy. -/
theorem kept_advance {s : Scanner} (hs : s.Tidy) (n : Nat) : course.kept s (s.advance n) := by
  have hle : s.position.offset ≤ (s.advance n).position.offset := by
    rw [offset_advance]
    omega
  exact ⟨hs.widen hle, rfl, hle, fun h => placed_advance h n, [], rfl, by simp⟩

/-- To keep a comment changes nothing of what lies ahead. -/
theorem rest_record (s : Scanner) (kind : CommentKind) (value : List Char) (start : Position) :
    (s.record kind value start).rest = s.rest := by
  unfold record
  split
  · split <;> rfl
  · rfl

/-- A comment that was passed over just now is not known yet. -/
theorem record_advance {s : Scanner} (hs : s.Behind) (n : Nat) (kind : CommentKind)
    (value : List Char) :
    (s.advance n).record kind value s.position =
      { s.advance n with comments :=
          ⟨kind, String.ofList value, ⟨s.position, (s.advance n).position⟩⟩ :: s.comments } := by
  unfold record
  rw [comments_advance]
  split
  next last rest hc =>
    have := hs last (hc ▸ List.mem_cons_self)
    rw [if_neg (by omega)]
  next hc => rw [hc]

/-- The characters of a comment with its delimiters lie ahead. -/
theorem lt_advance_of_text {s : Scanner} {n : Nat} {c : Comment}
    (htext : c.text = String.ofList (s.rest.take n)) :
    s.position.offset < (s.advance n).position.offset := by
  have hlength : 0 < (s.rest.take n).length := by
    have h := congrArg String.toList htext
    rw [String.toList_ofList] at h
    rw [← h]
    unfold Comment.text
    cases c.kind <;> simp
  rw [List.length_take] at hlength
  rw [offset_advance]
  omega

/-- What was passed over is what stands in the source there. -/
theorem text_advance (s : Scanner) (n : Nat) :
    String.ofList (s.rest.take n) =
      s.source.text s.position.offset (s.advance n).position.offset := by
  refine congrArg String.ofList ?_
  show s.rest.take n = s.rest.take ((s.advance n).position.offset - s.position.offset)
  rw [offset_advance, Nat.add_sub_cancel_left, ← List.take_eq_take_min]

/-- A comment that was passed over is kept. -/
theorem kept_record {s : Scanner} (hs : s.Tidy) (n : Nat) (kind : CommentKind) (value : List Char)
    (htext : ∀ span, (Comment.mk kind (String.ofList value) span).text =
      String.ofList (s.rest.take n)) :
    course.kept s ((s.advance n).record kind value s.position) := by
  have hlt := lt_advance_of_text (htext default)
  rw [record_advance hs.behind n kind value]
  refine ⟨⟨hlt, Nat.le_refl _, hs⟩, rfl, Nat.le_of_lt hlt, fun h => placed_advance h n, [_], rfl, ?_⟩
  intro c hc
  rw [List.mem_singleton.1 hc]
  exact ⟨Nat.le_refl _, (htext _).trans (text_advance s n)⟩

/-! ### Moves -/

/-- How the scanner can move: it passes over characters and may keep them as a comment. -/
inductive Moves : Scanner → Scanner → Prop
  | stay (s : Scanner) : Moves s s
  /-- Characters are passed over. -/
  | pass {s t : Scanner} (n : Nat) (h : Moves (s.advance n) t) : Moves s t
  /-- Characters are passed over and kept as a comment. -/
  | comment {s t : Scanner} (n : Nat) (kind : CommentKind) (value : List Char)
    (htext : ∀ span, (Comment.mk kind (String.ofList value) span).text =
      String.ofList (s.rest.take n))
    (h : Moves ((s.advance n).record kind value s.position) t) : Moves s t

/-- To move ahead is a move. -/
theorem Moves.advance (s : Scanner) (n : Nat) : Moves s (s.advance n) := .pass n (.stay _)

/-- Moves go one behind the other. -/
theorem Moves.trans {a b c : Scanner} (h : Moves a b) (h' : Moves b c) : Moves a c := by
  induction h with
  | stay => exact h'
  | pass n _ ih => exact .pass n (ih h')
  | comment n kind value htext _ ih => exact .comment n kind value htext (ih h')

/-- Moves keep a scanner tidy. -/
theorem Moves.kept {s t : Scanner} (h : Moves s t) (hs : s.Tidy) : course.kept s t := by
  induction h with
  | stay => exact kept_refl hs
  | pass n _ ih =>
    have hpass := kept_advance hs n
    exact course.kept_trans hpass (ih hpass.1)
  | comment n kind value htext _ ih =>
    have hrecord := kept_record hs n kind value htext
    exact course.kept_trans hrecord (ih hrecord.1)

/-- To keep a comment does not move. -/
theorem position_record (s : Scanner) (kind : CommentKind) (value : List Char) (start : Position) :
    (s.record kind value start).position = s.position := by
  unfold record
  split
  · split <;> rfl
  · rfl

/-- No move goes back. -/
theorem Moves.position_le {s t : Scanner} (h : Moves s t) :
    s.position.offset ≤ t.position.offset := by
  induction h with
  | stay => exact Nat.le_refl _
  | pass n _ ih =>
    rw [offset_advance] at ih
    omega
  | comment n kind value _ _ ih =>
    rw [position_record, offset_advance] at ih
    omega

/-- How the scanner moves, whether or not it fails. -/
def moving : Course Scanner where
  kept := Moves
  left := Moves
  kept_trans := Moves.trans
  left_of_kept := Moves.trans

/-- A step that is made of moves keeps a scanner tidy. -/
theorem leads_of_moving {α : Type} {x : Scan α} {s : Scanner} {Q : α → Scanner → Prop}
    (hx : moving.Leads x s Q) (hs : s.Tidy) : course.Leads x s Q := by
  rcases hr : x s with ⟨_ | a, s'⟩
  · exact .of_error hr ((hx.error hr).kept hs).2
  · exact .of_ok hr ((hx.ok hr).1.kept hs) (hx.ok hr).2

end Scanner

/-- Where a text is found, there is that much text before it. -/
theorem le_of_indexOf? {pattern cs : List Char} {n : Nat} (h : indexOf? pattern cs = some n) :
    n ≤ cs.length := by
  induction cs generalizing n with
  | nil => simp_all [indexOf?]
  | cons c cs ih =>
    unfold indexOf? at h
    split at h
    · cases h
      exact Nat.zero_le _
    · obtain ⟨m, hm, rfl⟩ := Option.map_eq_some_iff.1 h
      have := ih hm
      simpa using this

/-- A text that was dropped stood at the start. -/
theorem eq_append_of_dropLeading? {start cs rest : List Char}
    (h : Text.dropLeading? start cs = some rest) : cs = start ++ rest := by
  fun_induction Text.dropLeading? start cs with
  | case1 cs => simpa using h
  | case2 => cases h
  | case3 c ps cs ih => rw [ih h]; rfl
  | case4 => cases h

/-- A text that was found stands where it was found. -/
theorem drop_of_indexOf? {pattern cs : List Char} {n : Nat} (h : indexOf? pattern cs = some n) :
    ∃ rest, cs.drop n = pattern ++ rest := by
  -- induction on the text, in which the pattern is looked for at each character
  induction cs generalizing n with
  | nil =>
    have hpattern : pattern = [] := by simp_all [indexOf?]
    exact ⟨[], by simp [hpattern]⟩
  | cons c cs ih =>
    unfold indexOf? at h
    split at h
    -- the pattern starts here
    next hstart =>
      cases h
      obtain ⟨rest, hrest⟩ := Option.isSome_iff_exists.1 hstart
      exact ⟨rest, eq_append_of_dropLeading? hrest⟩
    -- the pattern starts further on
    next =>
      obtain ⟨m, hm, rfl⟩ := Option.map_eq_some_iff.1 h
      exact ih hm

/-- A line comment is as long as its text and its delimiter. -/
theorem lineComment_text {cs body : List Char} (hcs : cs = '/' :: '/' :: body) (p : Char → Bool)
    (span : Span) :
    (Comment.mk .line (String.ofList (body.takeWhile p)) span).text =
      String.ofList (cs.take (2 + (body.takeWhile p).length)) := by
  have hvalue : body.take (body.takeWhile p).length = body.takeWhile p :=
    (List.prefix_iff_eq_take.1 (List.takeWhile_prefix _)).symm
  rw [hcs, Nat.add_comm]
  simp [hvalue, Comment.text, ← String.toList_inj]

/-- A block comment is as long as its text and its delimiters. -/
theorem blockComment_text {cs body : List Char} {n : Nat} (hcs : cs = '/' :: '*' :: body)
    (hn : indexOf? ['*', '/'] body = some n) (span : Span) :
    (Comment.mk .block (String.ofList (body.take n)) span).text =
      String.ofList (cs.take ((body.take n).length + 4)) := by
  obtain ⟨rest, hdrop⟩ := drop_of_indexOf? hn
  have hend : body.take (n + 2) = body.take n ++ ['*', '/'] := by
    rw [List.take_add, hdrop]
    rfl
  rw [hcs, List.length_take, Nat.min_eq_left (le_of_indexOf? hn)]
  simp [hend, Comment.text, ← String.toList_inj]

/-- Behind a line comment there is what follows its text. -/
theorem Scanner.rest_lineComment {s : Scanner} {body : List Char}
    (hcs : s.rest = '/' :: '/' :: body) (value : List Char) :
    ((s.advance (2 + value.length)).record .line value s.position).rest =
      body.drop value.length := by
  rw [rest_record, rest_advance, hcs, Nat.add_comm]
  rfl

/-- Behind a block comment there is what follows its end. -/
theorem Scanner.rest_blockComment {s : Scanner} {body : List Char} {n : Nat}
    (hcs : s.rest = '/' :: '*' :: body) (hn : indexOf? ['*', '/'] body = some n) :
    ((s.advance ((body.take n).length + 4)).record .block (body.take n) s.position).rest =
      body.drop (n + 2) := by
  rw [rest_record, rest_advance, hcs, List.length_take, Nat.min_eq_left (le_of_indexOf? hn)]
  rfl

/-- The range lies between the positions of two scanners. -/
structure Span.Between (a : Scanner) (span : Span) (b : Scanner) : Prop where
  start : a.position.offset ≤ span.start.offset
  order : span.start.offset ≤ span.stop.offset
  stop : span.stop.offset ≤ b.position.offset

namespace Scan

open Scanner (course moving)

variable {s : Scanner}

/-- To move ahead moves. -/
theorem advance_moves (n : Nat) : moving.Leads (advance n) s fun _ s' => s' = s.advance n :=
  .of_ok rfl (.advance s n) rfl

/-- A fault leaves the scanner where it is. -/
theorem fault_moves {α : Type} {Q : α → Scanner → Prop} (cause : ScanFault) (position : Position) :
    moving.Leads (fault cause position) s Q :=
  .throw (.stay s)

/-- Each piece that is passed over is a move, and a comment is kept behind its own. -/
theorem skipPieces_moves {cs : List Char} (hcs : s.rest = cs) (newline : Bool) :
    moving.Leads (skipPieces newline (triviaOf cs)) s fun _ _ => True := by
  -- each piece is passed over as a whole, so what follows it is what lies ahead
  fun_induction triviaOf cs generalizing s newline with
  | case1 => exact .pure (.stay s) trivial
  | case2 c rest _ ih =>
    have hrest : (s.advance 1).rest = rest := by rw [Scanner.rest_advance, hcs]; rfl
    exact .jump (s.advance 1) rfl (.advance s 1) (ih hrest _)
  | case3 body value _ =>
    rename_i ih
    have hcomment := Scanner.Moves.comment (2 + value.length) .line value
      (lineComment_text hcs _) (.stay _)
    exact .jump ((s.advance (2 + value.length)).record .line value s.position) rfl hcomment
      (ih (Scanner.rest_lineComment hcs value) _)
  | case4 body n hn _ ih =>
    have hcomment := Scanner.Moves.comment ((body.take n).length + 4) .block (body.take n)
      (blockComment_text hcs hn) (.stay _)
    exact .jump ((s.advance ((body.take n).length + 4)).record .block (body.take n)
      s.position) rfl hcomment (ih (Scanner.rest_blockComment hcs hn) _)
  | case5 => exact .get_bind (fault_moves _ _)
  | case6 => exact .pure (.stay s) trivial
  | case7 => exact .pure (.stay s) trivial

/-- So is all that stands between tokens. -/
theorem skipTrivia_moves : moving.Leads skipTrivia s fun _ _ => True :=
  .get_bind (skipPieces_moves rfl false)

/-- So is white space. -/
theorem skipSpace_moves : moving.Leads skipSpace s fun _ _ => True :=
  .get_bind ((advance_moves _).mono fun _ _ _ _ => trivial)

/-- A token lies between where the scanner was and where it is. -/
theorem take_moves (kind : TokenKind) (length : Nat) (newline : Bool) :
    moving.Leads (take kind length newline) s fun t s' => t.span.Between s s' := by
  have hmoves := Scanner.Moves.advance s length
  exact .of_ok rfl hmoves ⟨Nat.le_refl _, hmoves.position_le, Nat.le_refl _⟩

/-- So does one that may be broken. -/
theorem takeReach_moves (kind : TokenKind) (reach : Reach) (newline : Bool)
    (position : Option Position) :
    moving.Leads (takeReach kind reach newline position) s fun t s' => t.span.Between s s' := by
  cases reach with
  | closed length => exact take_moves kind length newline
  | broken length cause =>
    exact (advance_moves length).bind fun _ s' _ _ => .get_bind (fault_moves _ _)

/-- What is found behind white space and comments is found behind the position before them. -/
theorem after_skip {α β : Type} {skip : Scan β} {f : β → Scan α} {spanOf : α → Span}
    (hskip : moving.Leads skip s fun _ _ => True)
    (hf : ∀ b s', moving.Leads (f b) s' fun a s'' => (spanOf a).Between s' s'') :
    moving.Leads (skip >>= f) s fun a s' => (spanOf a).Between s s' :=
  hskip.bind fun b s' h _ => (hf b s').mono fun _ _ _ ha =>
    ⟨Nat.le_trans h.position_le ha.start, ha.order, ha.stop⟩

/-- So does the next token of a script. -/
theorem nextScript_moves : moving.Leads nextScript s fun t s' => t.span.Between s s' := by
  -- nothing moves but by the skipping and by the token
  apply after_skip skipTrivia_moves
  -- in the order in which the scanner asks what the first character starts
  refine fun newline s => .get_bind ?_
  split
  · exact take_moves _ _ _
  · refine .ite (fun _ => fault_moves _ _) fun _ => .ite (fun _ => take_moves _ _ _) fun _ => ?_
    refine .ite (fun _ => takeReach_moves _ _ _ _) fun _ => ?_
    refine .ite (fun _ => takeReach_moves _ _ _ _) fun _ => ?_
    refine .ite (fun _ => take_moves _ _ _) fun _ => ?_
    refine .ite (fun _ => take_moves _ _ _) fun _ => ?_
    split
    · exact take_moves _ _ _
    · exact fault_moves _ _

/-- So does a value in quotes. -/
theorem nextQuoted_moves (quote : Char) :
    moving.Leads (nextQuoted quote) s fun t s' => t.span.Between s s' := by
  refine .get_bind ?_
  split
  · exact take_moves _ _ _
  · exact (advance_moves 1).bind fun _ _ _ _ => fault_moves _ _

/-- So does a token inside a tag. -/
theorem nextTag_moves (html : Bool) :
    moving.Leads (nextTag html) s fun t s' => t.span.Between s s' := by
  unfold nextTag
  extract_lets part token
  -- what the first character starts, token by token
  have htoken : ∀ u s', moving.Leads (token u) s' fun t s'' => t.span.Between s' s'' := by
    intro u s'
    refine .get_bind ?_
    split
    · exact take_moves _ _ _
    · refine .ite (fun _ => ?_) fun _ => ?_
      · exact .ite (fun _ => .throw (.stay _)) fun _ => take_moves _ _ _
      refine .ite (fun _ => nextQuoted_moves _) fun _ => ?_
      exact .ite (fun _ => take_moves _ _ _) fun _ => fault_moves _ _
  -- the skipping in front of the token moves on, too
  refine .ite (fun _ => after_skip skipSpace_moves htoken) fun _ => ?_
  exact after_skip skipTrivia_moves.discard htoken

/-- So does a value in HTML. -/
theorem nextHtmlValue_moves : moving.Leads nextHtmlValue s fun t s' => t.span.Between s s' := by
  apply after_skip skipSpace_moves
  refine fun _ s => .get_bind ?_
  split
  · exact .ite (fun _ => fault_moves _ _) fun _ => take_moves _ _ _
  · refine .ite (fun _ => nextQuoted_moves _) fun _ => ?_
    refine .ite (fun _ => fault_moves _ _) fun _ => ?_
    exact (take_moves _ _ _).bind fun t s' _ ht => .pure (.stay s') ht

/-- So does a comment. -/
theorem nextMarkupComment_moves (ending : List Char) :
    moving.Leads (nextMarkupComment ending) s fun t s' => t.span.Between s s' := by
  refine .get_bind ?_
  split
  · exact take_moves _ _ _
  · exact fault_moves _ _

/-- So does a token between tags. -/
theorem nextChild_moves (html : Bool) :
    moving.Leads (nextChild html) s fun t s' => t.span.Between s s' := by
  refine .get_bind ?_
  split
  · exact take_moves _ _ _
  · refine .ite (fun _ => nextMarkupComment_moves _) fun _ => ?_
    refine .ite (fun _ => nextMarkupComment_moves _) fun _ => ?_
    exact .ite (fun _ => take_moves _ _ _) fun _ => takeReach_moves _ _ _ _

/-- In every mode the scanner moves, and the next token lies between the position before and the
position behind it. -/
theorem next_moves (mode : ScanMode) :
    moving.Leads (next mode) s fun t s' => t.span.Between s s' := by
  cases mode with
  | script => exact nextScript_moves
  | tag => exact nextTag_moves false
  | child => exact nextChild_moves false
  | htmlTag => exact nextTag_moves true
  | htmlValue => exact nextHtmlValue_moves
  | htmlChild => exact nextChild_moves true

/-- So does text in a template. -/
theorem takeChunk_moves (length : Nat) (tail : Bool) :
    moving.Leads (takeChunk length tail) s fun chunk s' => chunk.span.Between s s' := by
  have h := Scanner.Moves.advance s length
  have h' := Scanner.Moves.advance (s.advance length) (if tail then 1 else 2)
  exact .of_ok rfl (h.trans h') ⟨Nat.le_refl _, h.position_le, h'.position_le⟩

/-- Text without an end is a fault. -/
theorem templateChunk_moves :
    moving.Leads templateChunk s fun chunk s' => chunk.span.Between s s' := by
  refine .get_bind ?_
  split
  · exact takeChunk_moves _ _
  · exact takeChunk_moves _ _
  · exact (advance_moves _).bind fun _ _ _ _ => fault_moves _ _

/-- In every mode the next token lies between the two places, and the comments stay tidy. -/
theorem next_leads (hs : s.Tidy) (mode : ScanMode) :
    course.Leads (next mode) s fun t s' => t.span.Between s s' :=
  Scanner.leads_of_moving (next_moves mode) hs

/-- So it is for text in a template. -/
theorem templateChunk_leads (hs : s.Tidy) :
    course.Leads templateChunk s fun chunk s' => chunk.span.Between s s' :=
  Scanner.leads_of_moving templateChunk_moves hs

end Scan

end Reflow
