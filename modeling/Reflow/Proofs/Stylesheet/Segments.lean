import Mathlib.Data.List.DropRight
import Mathlib.Data.List.TakeWhile
import Reflow.Proofs.Stylesheet.Pieces
import Reflow.Proofs.Text.Order
import Reflow.Proofs.Token.Alone

/-!
# Strings and comments of a stylesheet

The reader of a stylesheet passes over strings and comments as a whole: a string ends at the next
quote of its kind that stands behind no backslash, and a comment at the next star in front of a
slash.  So a text falls into characters, strings and comments.  Every text that the reader has read
does, without a string or comment that is left open at its end.

## Key results

- `segments`: the parts that a text falls into
- `Scans`: texts that fall into parts with nothing left open
- `Closed.scans`: the parts that are computed are these
- `Closed.append`, `Closed.behind`, `Closed.before`: texts are put together and cut where nothing is
  open
- `closed_of_readPrelude`: the reader leaves nothing open
-/

namespace Reflow.Stylesheet

/-- What follows the opening of a comment, with its end. -/
inductive CommentText : List Char → Prop
  | done : CommentText ['*', '/']
  | char {c : Char} {cs : List Char} (hend : ¬(c = '*' ∧ cs.head? = some '/'))
    (h : CommentText cs) : CommentText (c :: cs)

/-- A part of a text. -/
inductive Segment where
  | char (c : Char)
  | string (quote : Char) (body : List Char)
  /-- A comment, with its end and without its opening. -/
  | comment (text : List Char)
  /-- The rest of a text that leaves a string or a comment open. -/
  | unclosed (text : List Char)
  deriving Repr, DecidableEq

/-- The parts of a text.  `skip` counts the characters of a part that are still passed over. -/
def segmentsFrom : Nat → List Char → List Segment
  | _, [] => []
  | skip + 1, _ :: rest => segmentsFrom skip rest
  | 0, c :: rest =>
    if Text.isQuote c then
      match stringReach c rest with
      | .closed n => .string c (rest.take (n - 1)) :: segmentsFrom n rest
      | .broken .. => [.unclosed (c :: rest)]
    else if c = '/' && rest.head? = some '*' then
      match blockCommentLength? (rest.drop 1) with
      | some n => .comment ((rest.drop 1).take n) :: segmentsFrom (n + 1) rest
      | none => [.unclosed (c :: rest)]
    else .char c :: segmentsFrom 0 rest

/-- The parts that a text falls into. -/
def segments (cs : List Char) : List Segment := segmentsFrom 0 cs

/-- Is the part no open string or comment? -/
def Segment.isClosed : Segment → Bool
  | .unclosed _ => false
  | _ => true

/-- The text falls into the parts, and leaves nothing open. -/
inductive Scans : List Char → List Segment → Prop
  | nil : Scans [] []
  | char {c : Char} {cs : List Char} {parts : List Segment} (hquote : Text.isQuote c = false)
    (hcomment : ¬(c = '/' ∧ cs.head? = some '*')) (h : Scans cs parts) :
    Scans (c :: cs) (.char c :: parts)
  | string {quote : Char} {body cs : List Char} {parts : List Segment}
    (hquote : Text.isQuote quote = true) (hbody : Quoted quote body) (h : Scans cs parts) :
    Scans (quote :: (body ++ quote :: cs)) (.string quote body :: parts)
  | comment {text cs : List Char} {parts : List Segment} (htext : CommentText text)
    (h : Scans cs parts) : Scans ('/' :: '*' :: (text ++ cs)) (.comment text :: parts)

variable {a b cs rest text body : List Char} {parts partsA partsB : List Segment} {c quote : Char}

/-! ## Comments -/

/-- The text behind the opening of a comment has at least its end. -/
theorem CommentText.ne_nil (h : CommentText text) : text ≠ [] := by
  cases h <;> exact List.cons_ne_nil _ _

/-- It ends with a slash. -/
theorem CommentText.ends (h : CommentText text) : ∃ front, text = front ++ ['/'] := by
  induction h with
  | done => exact ⟨['*'], rfl⟩
  | @char c _ _ _ ih =>
    obtain ⟨front, rfl⟩ := ih
    exact ⟨c :: front, rfl⟩

/-- A comment is measured up to its end. -/
theorem CommentText.blockCommentLength? (h : CommentText text) (rest : List Char) :
    blockCommentLength? (text ++ rest) = some text.length := by
  induction h with
  | done => rfl
  | @char c cs hend h ih =>
    have hnot : ∀ more, c = '*' → cs ++ rest = '/' :: more → False := by
      intro more hc heq
      obtain ⟨d, cs, rfl⟩ := List.exists_cons_of_ne_nil h.ne_nil
      exact hend ⟨hc, congrArg some (List.cons.inj heq).1⟩
    rw [List.cons_append, Stylesheet.blockCommentLength?.eq_3 _ _ hnot, ih]
    rfl

/-- What was measured as a comment is one. -/
theorem commentText_of_length {n : Nat} (h : blockCommentLength? cs = some n) :
    CommentText (cs.take n) ∧ n = (cs.take n).length := by
  fun_induction Stylesheet.blockCommentLength? cs generalizing n with
  | case1 => cases h
  | case2 rest =>
    cases h
    exact ⟨.done, rfl⟩
  | case3 c rest hnot ih =>
    obtain ⟨m, hm, rfl⟩ := Option.map_eq_some_iff.1 h
    obtain ⟨htext, hlength⟩ := ih hm
    rw [List.take_succ_cons]
    refine ⟨.char ?_ htext, by rw [List.length_cons, ← hlength]⟩
    -- were there a slash behind the star, the measure would have ended here
    rintro ⟨rfl, hhead⟩
    obtain ⟨more, hmore⟩ := List.head?_eq_some_iff.1 hhead
    have hrest := List.take_append_drop m rest
    rw [hmore] at hrest
    exact hnot _ rfl hrest.symm

/-- A comment has one end only. -/
theorem CommentText.unique {text' rest' : List Char} (h : CommentText text)
    (h' : CommentText text') (heq : text ++ rest = text' ++ rest') :
    text = text' ∧ rest = rest' := by
  have hlength := h.blockCommentLength? rest
  rw [heq, h'.blockCommentLength? rest'] at hlength
  exact List.append_inj heq (Option.some.inj hlength).symm

/-! ## The parts of a text -/

/-- Characters that are passed over are dropped. -/
theorem segmentsFrom_skip (n : Nat) (cs : List Char) :
    segmentsFrom n cs = segments (cs.drop n) := by
  induction n generalizing cs with
  | zero => rfl
  | succ n ih =>
    cases cs with
    | nil => rfl
    | cons c cs => exact ih cs

/-- A character that opens nothing is a part of its own. -/
theorem segments_char (hquote : Text.isQuote c = false)
    (hcomment : ¬(c = '/' ∧ cs.head? = some '*')) :
    segments (c :: cs) = .char c :: segments cs := by
  rw [segments, segmentsFrom, hquote, if_neg Bool.false_ne_true, if_neg (by simpa using hcomment)]
  rfl

/-- A string is one part. -/
theorem segments_string (hquote : Text.isQuote quote = true) (hbody : Quoted quote body)
    (cs : List Char) :
    segments (quote :: (body ++ quote :: cs)) = .string quote body :: segments cs := by
  have hreach := hbody.stringReach hquote cs
  rw [segments, segmentsFrom, if_pos hquote, hreach]
  simp only [Nat.add_sub_cancel, List.take_left, segmentsFrom_skip]
  rw [← List.drop_drop, List.drop_left, List.drop_one, List.tail_cons]

/-- A comment is one part. -/
theorem segments_comment (htext : CommentText text) (cs : List Char) :
    segments ('/' :: '*' :: (text ++ cs)) = .comment text :: segments cs := by
  have hlength := htext.blockCommentLength? cs
  have hquote : Text.isQuote '/' = false := rfl
  rw [segments, segmentsFrom, hquote, if_neg Bool.false_ne_true, if_pos (by simp)]
  simp only [List.drop_succ_cons, List.drop_zero, hlength, List.take_left, segmentsFrom_skip,
    List.drop_left]

/-- A text that leaves nothing open falls into its parts in one way. -/
theorem Scans.segments_eq (h : Scans cs parts) : segments cs = parts := by
  induction h with
  | nil => rfl
  | char hquote hcomment _ ih => rw [segments_char hquote hcomment, ih]
  | string hquote hbody _ ih => rw [segments_string hquote hbody, ih]
  | comment htext _ ih => rw [segments_comment htext, ih]

/-- The text leaves no string and no comment open. -/
def Closed (cs : List Char) : Prop := ∃ parts, Scans cs parts

/-- A text that leaves nothing open falls into the parts that are computed. -/
theorem Closed.scans (h : Closed cs) : Scans cs (segments cs) := by
  obtain ⟨parts, hparts⟩ := h
  rwa [hparts.segments_eq]

/-- A character that opens nothing may stand in front. -/
theorem Closed.char (hquote : Text.isQuote c = false)
    (hcomment : ¬(c = '/' ∧ cs.head? = some '*')) (h : Closed cs) : Closed (c :: cs) := by
  obtain ⟨parts, hparts⟩ := h
  exact ⟨_, .char hquote hcomment hparts⟩

/-- So may a string. -/
theorem Closed.string (hquote : Text.isQuote quote = true) (hbody : Quoted quote body)
    (h : Closed cs) : Closed (quote :: (body ++ quote :: cs)) := by
  obtain ⟨parts, hparts⟩ := h
  exact ⟨_, .string hquote hbody hparts⟩

/-- So may a comment. -/
theorem Closed.comment (htext : CommentText text) (h : Closed cs) :
    Closed ('/' :: '*' :: (text ++ cs)) := by
  obtain ⟨parts, hparts⟩ := h
  exact ⟨_, .comment htext hparts⟩

/-- Nothing is open in the empty text. -/
theorem closed_nil : Closed [] := ⟨[], .nil⟩

/-- Every text falls into parts up to what it leaves open. -/
theorem segments_spec (cs : List Char) : ∃ front rest parts, cs = front ++ rest ∧
    Scans front parts ∧ segments cs = parts ++ if rest = [] then [] else [.unclosed rest] := by
  induction hsize : cs.length using Nat.strongRecOn generalizing cs with
  | ind size ih =>
    cases cs with
    | nil => exact ⟨[], [], [], rfl, .nil, rfl⟩
    | cons c rest =>
      rw [List.length_cons] at hsize
      -- what opens here and ends is one part, and the text behind it is shorter; what does not end
      -- is the rest
      by_cases hquote : Text.isQuote c = true
      · cases hreach : stringReach c rest with
        | closed n =>
          obtain ⟨body, cs, hbody, rfl, -⟩ := quoted_of_stringReach hreach
          have hshorter : cs.length < size := by
            rw [List.length_append, List.length_cons] at hsize
            omega
          obtain ⟨front, rest, parts, rfl, hparts, hsegments⟩ := ih _ hshorter cs rfl
          refine ⟨_, rest, _, ?_, .string hquote hbody hparts, ?_⟩
          · simp
          · rw [segments_string hquote hbody, hsegments, List.cons_append]
        | broken n fault =>
          refine ⟨[], c :: rest, [], rfl, .nil, ?_⟩
          rw [segments, segmentsFrom, if_pos hquote, hreach]
          rfl
      rw [Bool.not_eq_true] at hquote
      by_cases hcomment : c = '/' ∧ rest.head? = some '*'
      · obtain ⟨rfl, hhead⟩ := hcomment
        obtain ⟨inner, rfl⟩ := List.head?_eq_some_iff.1 hhead
        cases hlength : blockCommentLength? inner with
        | some n =>
          obtain ⟨htext, -⟩ := commentText_of_length hlength
          have hsplit := List.take_append_drop n inner
          generalize inner.take n = text at htext hsplit
          generalize inner.drop n = cs at hsplit
          subst hsplit
          have hshorter : cs.length < size := by
            rw [List.length_cons, List.length_append] at hsize
            omega
          obtain ⟨front, rest, parts, rfl, hparts, hsegments⟩ := ih _ hshorter cs rfl
          refine ⟨_, rest, _, ?_, .comment htext hparts, ?_⟩
          · simp
          · rw [segments_comment htext, hsegments, List.cons_append]
        | none =>
          refine ⟨[], '/' :: '*' :: inner, [], rfl, .nil, ?_⟩
          rw [segments, segmentsFrom, hquote, if_neg Bool.false_ne_true, if_pos (by simp)]
          simp only [List.drop_succ_cons, List.drop_zero, hlength]
          rfl
      · obtain ⟨front, after, parts, rfl, hparts, hsegments⟩ := ih _ (by omega) rest rfl
        refine ⟨_, after, _, rfl, .char hquote (fun ⟨hc, hhead⟩ => hcomment ⟨hc, ?_⟩) hparts, ?_⟩
        · rw [List.head?_append, hhead]
          rfl
        · rw [segments_char hquote hcomment, hsegments, List.cons_append]

/-- Where no part is left open, nothing is. -/
theorem closed_of_segments (h : (segments cs).all Segment.isClosed = true) : Closed cs := by
  obtain ⟨front, rest, parts, rfl, hparts, hsegments⟩ := segments_spec cs
  rw [hsegments, List.all_append, Bool.and_eq_true] at h
  split at h
  · rename_i hrest
    rw [hrest, List.append_nil]
    exact ⟨parts, hparts⟩
  · cases h.2

/-! ## What a text starts with -/

/-- What closes behind a character that opens nothing is the rest. -/
theorem Closed.of_char (h : Closed (c :: cs)) (hquote : Text.isQuote c = false)
    (hcomment : ¬(c = '/' ∧ cs.head? = some '*')) : Closed cs := by
  -- the text falls into parts, of which the first is told by its first character
  obtain ⟨parts, hparts⟩ := h
  generalize hwhole : c :: cs = whole at hparts
  cases hparts with
  | nil => cases hwhole
  | char _ _ hrest =>
    cases hwhole
    exact ⟨_, hrest⟩
  | string hother =>
    cases hwhole
    rw [hquote] at hother
    cases hother
  | comment =>
    cases hwhole
    exact absurd ⟨rfl, rfl⟩ hcomment

/-- Behind an opening quote the string is closed, and so is the rest. -/
theorem Closed.of_string (h : Closed (quote :: cs)) (hquote : Text.isQuote quote = true) :
    ∃ body rest, cs = body ++ quote :: rest ∧ Quoted quote body ∧ Closed rest := by
  -- the first part is the string that the quote opens
  obtain ⟨parts, hparts⟩ := h
  generalize hwhole : quote :: cs = whole at hparts
  cases hparts with
  | nil => cases hwhole
  | char hother =>
    cases hwhole
    rw [hquote] at hother
    cases hother
  | string _ hbody hrest =>
    cases hwhole
    exact ⟨_, _, rfl, hbody, _, hrest⟩
  | comment =>
    cases hwhole
    exact absurd hquote (by decide)

/-- Behind the opening of a comment the comment is closed, and so is the rest. -/
theorem Closed.of_comment (h : Closed ('/' :: '*' :: cs)) :
    ∃ text rest, cs = text ++ rest ∧ CommentText text ∧ Closed rest := by
  -- the first part is the comment
  obtain ⟨parts, hparts⟩ := h
  generalize hwhole : '/' :: '*' :: cs = whole at hparts
  cases hparts with
  | nil => cases hwhole
  | char _ hcomment =>
    cases hwhole
    exact absurd ⟨rfl, rfl⟩ hcomment
  | string hquote =>
    rw [← (List.cons.inj hwhole).1] at hquote
    exact absurd hquote (by decide)
  | comment htext hrest =>
    cases hwhole
    exact ⟨_, _, rfl, htext, _, hrest⟩

/-- A string goes on behind a character that does not end it. -/
theorem Closed.in_string (hquote : Text.isQuote quote = true) (hescape : c ≠ '\\')
    (hline : c ≠ '\n') (hne : c ≠ quote) (h : Closed (quote :: cs)) :
    Closed (quote :: c :: cs) := by
  obtain ⟨body, rest, rfl, hbody, hrest⟩ := h.of_string hquote
  exact .string hquote (.char hescape hline hne hbody) hrest

/-- A string goes on behind a backslash and the character behind that. -/
theorem Closed.in_escape (hquote : Text.isQuote quote = true) (c : Char)
    (h : Closed (quote :: cs)) : Closed (quote :: '\\' :: c :: cs) := by
  obtain ⟨body, rest, rfl, hbody, hrest⟩ := h.of_string hquote
  exact .string hquote (.escape c hbody) hrest

/-- A comment goes on in front of what does not end it together with the character. -/
theorem Closed.in_comment (h : Closed ('/' :: '*' :: cs))
    (hend : ¬(c = '*' ∧ cs.head? = some '/')) : Closed ('/' :: '*' :: c :: cs) := by
  obtain ⟨text, rest, rfl, htext, hrest⟩ := h.of_comment
  refine .comment (.char (fun ⟨hc, hhead⟩ => hend ⟨hc, ?_⟩) htext) hrest
  rw [List.head?_append, hhead]
  rfl

/-! ## Texts together -/

/-- No comment is opened where two texts meet. -/
def Meet (a b : List Char) : Prop := ¬(a.getLast? = some '/' ∧ b.head? = some '*')

/-- Where two texts meet only the last character of the first one matters. -/
theorem Meet.of_append (front : List Char) (h : Meet (front ++ a) b) : Meet a b := by
  rintro ⟨hlast, hhead⟩
  exact h ⟨by rw [List.getLast?_append, hlast]; rfl, hhead⟩

/-- A character in front of the second text still opens no comment. -/
theorem Meet.comment (h : Meet (c :: a) b) (hcomment : ¬(c = '/' ∧ a.head? = some '*')) :
    ¬(c = '/' ∧ (a ++ b).head? = some '*') := by
  rintro ⟨hc, hhead⟩
  cases a with
  | nil => exact h ⟨congrArg some hc, hhead⟩
  | cons d a => exact hcomment ⟨hc, hhead⟩

/-- Texts that leave nothing open leave nothing open together. -/
theorem Closed.append (ha : Closed a) (hb : Closed b) (hmeet : Meet a b) : Closed (a ++ b) := by
  obtain ⟨parts, hparts⟩ := ha
  -- by induction on the parts of the first text
  induction hparts with
  | nil => exact hb
  | @char c cs _ hquote hcomment _ ih =>
    exact .char hquote (hmeet.comment hcomment) (ih (hmeet.of_append [c]))
  | @string quote body cs _ hquote hbody _ ih =>
    rw [List.cons_append, List.append_assoc, List.cons_append]
    refine .string hquote hbody (ih (Meet.of_append (quote :: body ++ [quote]) ?_))
    simpa using hmeet
  | @comment text cs _ htext _ ih =>
    rw [List.cons_append, List.cons_append, List.append_assoc]
    exact .comment htext (ih (hmeet.of_append ('/' :: '*' :: text)))

/-- Behind a text that leaves nothing open the rest is read as it would be alone. -/
theorem Closed.behind (h : Closed (a ++ b)) (ha : Closed a) (hmeet : Meet a b) : Closed b := by
  obtain ⟨parts, hparts⟩ := ha
  induction hparts with
  | nil => exact h
  | @char c cs _ hquote hcomment _ ih =>
    exact ih (h.of_char hquote (hmeet.comment hcomment)) (hmeet.of_append [c])
  | @string quote body cs _ hquote hbody _ ih =>
    rw [List.cons_append, List.append_assoc, List.cons_append] at h
    -- the string that is found in the whole text is the one that the first text starts with
    obtain ⟨body', rest, heq, hbody', hrest⟩ := h.of_string hquote
    obtain ⟨-, rfl⟩ := Quoted.unique hquote hbody hbody' heq
    refine ih hrest (Meet.of_append (quote :: body ++ [quote]) ?_)
    simpa using hmeet
  | @comment text cs _ htext _ ih =>
    rw [List.cons_append, List.cons_append, List.append_assoc] at h
    obtain ⟨text', rest, heq, htext', hrest⟩ := h.of_comment
    obtain ⟨-, rfl⟩ := htext.unique htext' heq
    exact ih hrest (hmeet.of_append ('/' :: '*' :: text))

/-- Is the character in no quote and in no mark of a comment? -/
def isInert (c : Char) : Bool := !Text.isQuote c && c != '/' && c != '*'

/-- Characters that are in no quote and in no mark of a comment open nothing. -/
theorem closed_of_isInert (h : ∀ c ∈ a, isInert c = true) : Closed a := by
  induction a with
  | nil => exact closed_nil
  | cons c a ih =>
    have hc := h c List.mem_cons_self
    simp only [isInert, Bool.and_eq_true, Bool.not_eq_true', bne_iff_ne, ne_eq] at hc
    exact .char hc.1.1 (fun hcomment => hc.1.2 hcomment.1)
      (ih fun d hd => h d (List.mem_cons_of_mem _ hd))

/-- What leaves nothing open does so without the inert characters at its end. -/
theorem Closed.before (h : Closed (a ++ b)) (hb : ∀ c ∈ b, isInert c = true) : Closed a := by
  obtain ⟨parts, hparts⟩ := h
  generalize hwhole : a ++ b = whole at hparts
  induction hparts generalizing a with
  | nil =>
    rw [(List.append_eq_nil_iff.1 hwhole).1]
    exact closed_nil
  | @char c cs _ hquote hcomment _ ih =>
    rcases List.append_eq_cons_iff.1 hwhole with ⟨rfl, -⟩ | ⟨a, rfl, rfl⟩
    · exact closed_nil
    · refine .char hquote (fun ⟨hc, hhead⟩ => hcomment ⟨hc, ?_⟩) (ih rfl)
      rw [List.head?_append, hhead]
      rfl
  | @string quote body cs _ hquote hbody _ ih =>
    -- a string ends with a quote, which is not inert, and so it ends in the first text
    have hmem : quote ∉ b := fun hmem => by simpa [isInert, hquote] using hb quote hmem
    have hsplit : a ++ b = (quote :: body ++ [quote]) ++ cs := by simpa using hwhole
    obtain ⟨rest, rfl, hrest⟩ := Text.eq_append_of_not_mem hmem hsplit
    rw [List.append_assoc, List.cons_append]
    exact .string hquote hbody (ih hrest.symm)
  | @comment text cs _ htext _ ih =>
    obtain ⟨front, rfl⟩ := htext.ends
    have hmem : '/' ∉ b := fun hmem => absurd (hb '/' hmem) (by decide)
    have hsplit : a ++ b = ('/' :: '*' :: front ++ ['/']) ++ cs := by simpa using hwhole
    obtain ⟨rest, rfl, hrest⟩ := Text.eq_append_of_not_mem hmem hsplit
    have hrest := Closed.comment htext (ih hrest.symm)
    simpa using hrest

/-- The others are the two quotes, the slash and the star. -/
theorem isInert_eq_false (h : isInert c = false) : c ∈ ['"', '\'', '/', '*'] := by
  simp only [isInert, Text.isQuote, Bool.and_eq_false_iff, Bool.not_eq_false', Bool.or_eq_true,
    beq_iff_eq, bne_eq_false_iff_eq] at h
  rcases h with ((rfl | rfl) | rfl) | rfl <;> decide

/-- A class of characters to which no quote and no mark of a comment belongs. -/
theorem isInert_of_class {p : Char → Bool} (hp : ∀ d ∈ ['"', '\'', '/', '*'], p d = false)
    (h : p c = true) : isInert c = true := by
  by_contra hc
  rw [hp c (isInert_eq_false (by simpa using hc))] at h
  cases h

/-- White space opens nothing. -/
theorem isInert_of_isSpace (h : Text.isSpace c = true) : isInert c = true :=
  isInert_of_class (Text.forall_mem_of_all (by decide)) h

/-- Behind a text of such characters no comment is opened. -/
theorem meet_of_isInert (ha : ∀ c ∈ a, isInert c = true) (b : List Char) : Meet a b :=
  fun ⟨hlast, _⟩ => absurd (ha '/' (List.mem_of_getLast? hlast)) (by decide)

/-- Behind inert characters the rest is read as it would be alone. -/
theorem Closed.behind_inert (h : Closed (a ++ b)) (ha : ∀ c ∈ a, isInert c = true) : Closed b :=
  h.behind (closed_of_isInert ha) (meet_of_isInert ha b)

/-! ## Cutting the text of a statement -/

/-- White space at the ends leaves nothing open. -/
theorem closed_trimChars : Closed (Text.trimChars cs) ↔ Closed cs := by
  -- white space is inert, so it neither opens nor closes anything
  obtain ⟨front, back, hsplit, hfront, hback⟩ := Text.trimChars_split cs
  have hfront := fun c hc => isInert_of_isSpace (hfront c hc)
  have hback := fun c hc => isInert_of_isSpace (hback c hc)
  constructor
  · intro h
    have hmeet : Meet (Text.trimChars cs) back := fun ⟨_, hhead⟩ =>
      absurd (hback '*' (List.mem_of_mem_head? hhead)) (by decide)
    -- around the text it may be put
    rw [hsplit]
    exact (closed_of_isInert hfront).append (h.append (closed_of_isInert hback) hmeet)
      (meet_of_isInert hfront _)
  · intro h
    -- and from around it taken
    rw [hsplit] at h
    exact (h.behind_inert hfront).before hback

/-- The parameters of an at-rule stand behind its name. -/
theorem closed_splitAtRule (h : Closed text) (hat : isAtRule text = true) :
    Closed (splitAtRule text).2.toList := by
  simp only [isAtRule, Bool.and_eq_true, beq_iff_eq] at hat
  obtain ⟨body, rfl⟩ := List.head?_eq_some_iff.1 hat.1
  simp only [splitAtRule, List.drop_one, List.tail_cons]
  split
  · exact closed_nil
  have hbody := List.prefix_iff_eq_append.1
    (List.takeWhile_prefix (l := body) fun c => Text.isWordChar c || c == '-')
  have hname : ∀ c ∈ body.takeWhile fun c => Text.isWordChar c || c == '-', isInert c = true :=
    fun c hc => isInert_of_class (Text.forall_mem_of_all (by decide)) (List.mem_takeWhile_imp hc)
  generalize body.takeWhile (fun c => Text.isWordChar c || c == '-') = name at hbody hname ⊢
  generalize body.drop name.length = rest at hbody ⊢
  subst hbody
  have hspace : ∀ c ∈ rest.takeWhile Text.isSpace, isInert c = true := fun c hc =>
    isInert_of_isSpace (List.mem_takeWhile_imp hc)
  -- all that stands in front of the parameters is inert
  have hfront : ∀ c ∈ '@' :: name ++ rest.takeWhile Text.isSpace, isInert c = true := by
    intro c hc
    rcases List.mem_append.1 hc with hc | hc
    · rcases List.mem_cons.1 hc with rfl | hc
      · decide
      · exact hname c hc
    · exact hspace c hc
  rw [String.toList_ofList]
  refine Closed.behind_inert ?_ hfront
  rw [List.append_assoc, List.takeWhile_append_dropWhile]
  exact h

/-- The value of a declaration stands behind its property, if that leaves nothing open. -/
theorem closed_splitColon? {property value : List Char} (h : Closed text)
    (hcolon : splitColon? text = some (property, value)) (hproperty : Closed property) :
    Closed value := by
  rw [splitColon?_eq hcolon] at h
  have hmeet : Meet property (':' :: value) := by
    rintro ⟨-, ⟨⟩⟩
  exact (h.behind hproperty hmeet).behind_inert (a := [':'])
    (Text.forall_mem_of_all (by decide))

/-- The mark of importance stands behind the value. -/
theorem closed_splitImportant {value before : List Char} {important : Bool} (h : Closed value)
    (hsplit : splitImportant value = (before, important)) : Closed before := by
  rw [splitImportant] at hsplit
  split at hsplit
  · rename_i himportant
    rw [Bool.and_eq_true, List.contains_eq_mem, decide_eq_true_eq] at himportant
    obtain ⟨hmark, hword⟩ := himportant
    obtain ⟨rfl, -⟩ := Prod.mk.inj hsplit
    have hvalue := eq_takeWhile_append (List.mem_reverse.2 hmark)
    generalize value.reverse.takeWhile (· != '!') = word at hvalue hword ⊢
    generalize value.reverse.drop (word.length + 1) = before at hvalue ⊢
    -- the letters and the white space around the mark are inert
    have hletter : ∀ c ∈ word, isInert c = true := by
      intro c hc
      rw [← List.mem_reverse, ← List.takeWhile_append_dropWhile (p := Text.isSpace)
        (l := word.reverse), List.mem_append] at hc
      rcases hc with hc | hc
      · exact isInert_of_isSpace (List.mem_takeWhile_imp hc)
      · obtain ⟨letter, hletter, hc⟩ := isLetterOf_of_mem hword hc
        have hnone : ∀ letter ∈ "important".toList,
            ['"', '\'', '/', '*'].any (isLetterOf letter) = false :=
          Text.forall_mem_of_all (by decide)
        refine isInert_of_class (p := isLetterOf letter) (fun d hd => ?_) hc
        exact Bool.eq_false_iff.2 (List.any_eq_false.1 (hnone letter hletter) d hd)
    have hspace : ∀ c ∈ before.takeWhile Text.isSpace, isInert c = true := fun c hc =>
      isInert_of_isSpace (List.mem_takeWhile_imp hc)
    have hwhole : value = (before.dropWhile Text.isSpace).reverse ++
        ((before.takeWhile Text.isSpace).reverse ++ '!' :: word.reverse) := by
      have hreverse := congrArg List.reverse hvalue
      rw [List.reverse_reverse, List.reverse_append, List.reverse_cons,
        ← List.takeWhile_append_dropWhile (p := Text.isSpace) (l := before),
        List.reverse_append] at hreverse
      rw [hreverse]
      simp
    rw [hwhole] at h
    -- behind the value there are inert characters only
    refine h.before fun c hc => ?_
    rcases List.mem_append.1 hc with hc | hc
    · exact hspace c (List.mem_reverse.1 hc)
    · rcases List.mem_cons.1 hc with rfl | hc
      · decide
      · exact hletter c (List.mem_reverse.1 hc)
  · obtain ⟨rfl, -⟩ := Prod.mk.inj hsplit
    exact h

/-! ## Reading -/

/-- What was read of a string or comment that is not at its end yet, but for characters that do not
matter. -/
def PreludeMode.opening : PreludeMode → List Char
  | .plain => []
  | .string quote _ false => [quote]
  | .string quote _ true => [quote, '\\']
  | .commentOpen _ => ['/']
  | .comment _ false => ['/', '*']
  | .comment _ true => ['/', '*', '*']

/-- The mode is in a string that a quote has opened, or before the star that opens a comment. -/
def PreludeMode.Opens (ahead : List Char) : PreludeMode → Prop
  | .plain | .comment .. => True
  | .string quote _ _ => Text.isQuote quote = true
  | .commentOpen _ => ahead.head? = some '*'

/-- The reader goes on to text that leaves nothing open behind what opened the string or comment
that the mode is in. -/
def Completes (mode : PreludeMode) (read cs : List Char) (p : Prelude) : Prop :=
  ∃ new, p.text = read.reverse ++ new ∧ new <+: cs ∧ Closed (mode.opening ++ new)

section Completes

variable {mode mode' : PreludeMode} {read : List Char} {p : Prelude}

/-- At the end of a text outside strings and comments nothing is open. -/
theorem completes_end (htext : p.text = read.reverse) : Completes .plain read cs p :=
  ⟨[], by rw [htext, List.append_nil], List.nil_prefix, closed_nil⟩

/-- What a mode passes over in front of what the next mode passes over. -/
theorem Completes.step (h : Completes mode' (c :: read) rest p)
    (hclosed : ∀ new, new <+: rest → Closed (mode'.opening ++ new) →
      Closed (mode.opening ++ c :: new)) : Completes mode read (c :: rest) p := by
  obtain ⟨new, htext, hprefix, hnew⟩ := h
  refine ⟨c :: new, ?_, List.cons_prefix_cons.2 ⟨rfl, hprefix⟩, hclosed new hprefix hnew⟩
  rw [htext, List.reverse_cons, List.append_assoc]
  rfl

/-- A character in a comment, behind a star or not. -/
theorem Closed.behind_star {star : Bool} {start start' : Nat} (hend : ¬(star = true ∧ c = '/'))
    (h : Closed ((PreludeMode.comment start' (decide (c = '*'))).opening ++ cs)) :
    Closed ((PreludeMode.comment start star).opening ++ c :: cs) := by
  -- a star may start the end of the comment
  by_cases hc : c = '*'
  · subst hc
    have hstar : Closed ('/' :: '*' :: '*' :: cs) := h
    cases star with
    | false => exact hstar
    | true => exact hstar.in_comment (by simp)
  · -- any other character goes on with it
    rw [decide_eq_false hc] at h
    have hcomment : Closed ('/' :: '*' :: c :: cs) := h.in_comment fun hstar => hc hstar.1
    cases star with
    | false => exact hcomment
    | true => exact hcomment.in_comment fun hslash => hend (by simpa using hslash)

/-- The reader leaves nothing open: it comes to the end of the string or comment that it is in. -/
theorem readPrelude_completes {depth offset : Nat}
    (h : readPrelude depth mode read offset cs = .ok p) (hmode : mode.Opens cs) :
    Completes mode read cs p := by
  -- on the text ahead, for all modes at once: the mode is what is left open in front of it
  induction cs generalizing depth mode read offset with
  | nil =>
    cases mode with
    | plain =>
      cases h
      exact completes_end rfl
    | string quote start escaped => cases h
    | commentOpen start => cases h
    | comment start star => cases h
  | cons c rest ih =>
    cases mode with
    | string quote start escaped =>
      simp only [readPrelude] at h
      cases escaped with
      | true => exact (ih h hmode).step fun new _ hnew => hnew.in_escape hmode c
      | false =>
        simp only [Bool.false_eq_true, if_false] at h
        split at h
        · rename_i hc
          subst hc
          exact (ih h hmode).step fun new _ hnew => hnew
        rename_i hescape
        split at h
        · rename_i hc
          subst hc
          exact (ih h trivial).step fun new _ hnew => .string hmode .nil hnew
        rename_i hne
        split at h
        · cases h
        rename_i hline
        exact (ih h hmode).step fun new _ hnew => hnew.in_string hmode hescape hline hne
    | commentOpen start =>
      obtain rfl : c = '*' := Option.some.inj hmode
      simp only [readPrelude] at h
      exact (ih h trivial).step fun new _ hnew => hnew
    | comment start star =>
      simp only [readPrelude] at h
      split at h
      · rename_i hend
        obtain ⟨rfl, rfl⟩ : star = true ∧ c = '/' := by simpa using hend
        exact (ih h trivial).step fun new _ hnew =>
          show Closed ('/' :: '*' :: (['*', '/'] ++ new)) from .comment .done hnew
      · rename_i hend
        exact (ih h trivial).step fun new _ hnew => hnew.behind_star (by simpa using hend)
    | plain =>
      simp only [readPrelude] at h
      split at h
      · rename_i hc
        have hc : Text.isQuote c = true := by simpa [Text.isQuote] using hc
        exact (ih h hc).step fun new _ hnew => hnew
      rename_i hquote
      have hquote : Text.isQuote c = false := by simpa [Text.isQuote] using hquote
      split at h
      · rename_i hc
        obtain ⟨rfl, hhead⟩ : c = '/' ∧ rest.head? = some '*' := by simpa using hc
        exact (ih h hhead).step fun new _ hnew => hnew
      rename_i hcomment
      -- any other character is passed over by itself
      have hplain : ∀ new, new <+: rest → Closed new → Closed (c :: new) := by
        intro new hprefix hnew
        refine .char hquote (fun hmeet => hcomment ?_) hnew
        obtain ⟨back, rfl⟩ := hprefix
        simp [hmeet.1, List.head?_append, hmeet.2]
      split at h; · exact (ih h trivial).step hplain
      split at h; · exact (ih h trivial).step hplain
      split at h
      · cases h
        exact completes_end rfl
      split at h
      · cases h
        exact completes_end rfl
      · exact (ih h trivial).step hplain

/-- The text up to the end of a statement leaves nothing open. -/
theorem closed_of_readPrelude {offset : Nat} (h : readPrelude 0 .plain [] offset cs = .ok p) :
    Closed p.text := by
  obtain ⟨new, htext, -, hnew⟩ := readPrelude_completes h trivial
  rw [htext]
  exact hnew

end Completes

end Reflow.Stylesheet
