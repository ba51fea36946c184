import Reflow.Proofs.Stylesheet.Heads
import Reflow.Proofs.Stylesheet.Segments

/-!
# How the reader goes through statements

The statements that are read come from comments and from texts with which statements begin.  The other
way round, behind such a text the reader has the statement that is made of it and goes on.

## Key results

- `readStatements_understood`: where the statements that are read come from
- `ReadsTo.comment`, `ReadsTo.simple`, `ReadsTo.placeholder`, `ReadsTo.block`: one statement, and what
  follows it
- `ReadsTo.ends`, `ReadsTo.closes`: the end of a stylesheet and of a block
- `read_nested`, `readOn_nested`: rules in one another, which take more calls to be printed than to be
  read
-/

namespace Reflow.Stylesheet

variable {cs a b rest : List Char} {c : Char} {r : Scan} {fuel offset : Nat} {opened : Option Nat}
  {read statements : List Statement}

/-! ## What the reader understands -/

/-- The text of a comment as it is kept. -/
inductive IsComment : List Char → Prop
  | block {text : List Char} (h : CommentText text) : IsComment ('/' :: '*' :: text)
  | line {text : List Char} (hline : '\n' ∉ text)
    (hlast : ∀ c ∈ ('/' :: text).getLast?, Text.isSpace c = false) : IsComment ('/' :: '/' :: text)

/-- The statements are what the reader makes of comments and of texts with which statements begin. -/
inductive Understood : List Statement → Prop
  | nil : Understood []
  | comment {text : List Char} {blank : Bool} {rest : List Statement} (htext : IsComment text)
    (hrest : Understood rest) : Understood (.comment (String.ofList text) blank :: rest)
  | simple {s : Statement} {rest : List Statement} {text : List Char} {r : Scan} {start : Nat}
    {semicolon blank : Bool} (hbegins : Begins text r) (htight : Text.Tight text)
    (hs : simpleStatement start text semicolon blank = .ok s) (hrest : Understood rest) :
    Understood (s :: rest)
  | block {s : Statement} {block rest : List Statement} {text : List Char} {r : Scan} {start : Nat}
    {blank : Bool} (hbegins : Begins text r) (htight : Text.Tight text) (hdepth : r.depth = 0)
    (hs : blockStatement start text block blank = .ok s) (hblock : Understood block)
    (hrest : Understood rest) : Understood (s :: rest)

/-- White space at the end of a text changes nothing of what the reader is in. -/
theorem Scan.calm_over? {r t : Scan} {space : List Char} (hspace : ∀ x ∈ space, Text.isSpace x = true)
    (h : Scan.over? r space = some t) : t.calm = r.calm := by
  by_cases hne : space = []
  · subst hne
    cases h
    rfl
  · rw [← List.append_nil space] at h
    have hcalm := over?_quiet (fun x hx => isQuiet_of_isSpace (hspace x hx)) hne h
    cases hcalm
    exact calm_calm r

/-- A prelude that is read where a statement begins is a text with which a statement begins. -/
theorem begins_of_readPrelude {p : Prelude} (hopens : Opens cs)
    (h : readPrelude 0 .plain [] offset cs = .ok p) (hne : Text.trimChars p.text ≠ []) :
    ∃ r, Begins (Text.trimChars p.text) r ∧ (p.ending = some '{' → r.depth = 0) := by
  obtain ⟨htext, hhead, -⟩ := readPrelude_text h
  -- what the reader has come to is what it knows behind the text
  obtain ⟨new, t, hnew, -, hover, hplain, hdepth⟩ := comes_of_readPrelude h (.outside cs)
  have hunstopped := unstopped_of_readPrelude h
  obtain ⟨front, back, hsplit, hfront, hback⟩ := Text.trimChars_split p.text
  generalize Text.trimChars p.text = text at hsplit hne hunstopped
  rw [List.reverse_nil, List.nil_append] at htext hnew
  -- the statement does not start with white space, so nothing is trimmed in front
  have hnone : front = [] := by
    cases front with
    | nil => rfl
    | cons x front =>
      have hx := hopens.head x (by rw [← htext, hsplit]; rfl)
      rw [hfront x List.mem_cons_self] at hx
      cases hx
  rw [hnone, List.nil_append] at hsplit
  -- trimmed, the text still begins a statement and no comment
  have hopens' : Opens text := by
    rw [← htext, hsplit, List.append_assoc] at hopens
    obtain ⟨c, text, rfl⟩ := List.exists_cons_of_ne_nil hne
    obtain ⟨hspace, hend, hcomment⟩ := hopens
    refine .intro hspace hend fun hc => ?_
    cases text with
    | nil => simp
    | cons d text => exact hcomment hc
  rw [← hnew, hsplit, Scan.over?_append] at hover
  obtain ⟨r, hr, hover⟩ := Option.bind_eq_some_iff.1 hover
  -- the white space behind it changes nothing but what was waiting
  have hcalm := Scan.calm_over? hback hover
  refine ⟨r, ⟨hopens', hr, ?_, hunstopped⟩, fun hbrace => ?_⟩
  · have := congrArg Scan.isPlain hcalm
    rwa [Scan.isPlain_calm, Scan.isPlain_calm, hplain, eq_comm] at this
  · have := congrArg Scan.depth hcalm
    rwa [Scan.depth_calm, Scan.depth_calm, hdepth '{' hbrace (by decide), eq_comm] at this

/-- No statement is made of an empty text. -/
theorem simpleStatement_ne_nil {start : Nat} {text : List Char} {semicolon blank : Bool}
    {s : Statement} (h : simpleStatement start text semicolon blank = .ok s) : text ≠ [] := by
  rintro rfl
  cases h

/-- Nor is one with a block. -/
theorem blockStatement_ne_nil {start : Nat} {text : List Char} {block : List Statement}
    {blank : Bool} {s : Statement} (h : blockStatement start text block blank = .ok s) :
    text ≠ [] := by
  rintro rfl
  cases h

/-- The reader puts what it read last in front. -/
theorem Understood.append (ha : Understood statements) (hb : Understood read) :
    Understood (statements ++ read) := by
  induction ha with
  | nil => exact hb
  | comment htext _ ih => exact .comment htext ih
  | simple hbegins htight hs _ ih => exact .simple hbegins htight hs ih
  | block hbegins htight hdepth hs hblock _ _ ih => exact .block hbegins htight hdepth hs hblock ih

/-- Trimming the end of a line comment leaves its slashes. -/
theorem isComment_line {body : List Char} (hline : '\n' ∉ '/' :: '/' :: body) :
    IsComment (Text.dropEndWhile Text.isSpace ('/' :: '/' :: body)) := by
  have hslash : Text.isSpace '/' = false := by decide
  -- the comment starts with a slash, so it is trimmed at its end only
  have htrim : Text.dropEndWhile Text.isSpace ('/' :: '/' :: body) =
      Text.trimChars ('/' :: '/' :: body) := by
    rw [Text.trimChars, Text.trimBy, List.dropWhile_cons_of_neg (by simp [hslash])]
  obtain ⟨front, back, hsplit, hfront, hback⟩ := Text.trimChars_split ('/' :: '/' :: body)
  have htight := Text.tight_trimChars ('/' :: '/' :: body)
  rw [htrim]
  generalize Text.trimChars ('/' :: '/' :: body) = text at hsplit htight
  have hnone : ∀ space : List Char, (∀ x ∈ space, Text.isSpace x = true) → ∀ cs rest : List Char,
      '/' :: cs = space ++ rest → space = [] := by
    intro space hspace cs rest hcs
    cases space with
    | nil => rfl
    | cons x space =>
      rw [(List.cons.inj hcs).1, hspace x List.mem_cons_self] at hslash
      cases hslash
  -- not all of it is white space
  have hempty : ∀ cs : List Char, '/' :: cs = back → False := by
    intro cs hcs
    have := hnone back hback cs [] (by simpa using hcs)
    rw [this] at hcs
    cases hcs
  rw [hnone front hfront _ _ hsplit, List.nil_append] at hsplit
  -- the two slashes stay in front
  cases text with
  | nil => exact absurd hsplit (hempty _)
  | cons c text =>
    obtain ⟨rfl, htail⟩ := List.cons.inj hsplit
    cases text with
    | nil => exact absurd htail (hempty _)
    | cons d text =>
      obtain ⟨rfl, htail⟩ := List.cons.inj htail
      refine .line (fun hmem => hline ?_) (fun c hc => htight.last c (by simpa using hc))
      rw [htail]
      simp [hmem]

/-- A statement that is read behind others is understood with them. -/
theorem Understood.step {s : Statement} (hs : Understood [s])
    (h : ∃ new, statements = (s :: read).reverse ++ new ∧ Understood new) :
    ∃ new, statements = read.reverse ++ new ∧ Understood new := by
  obtain ⟨new, rfl, hnew⟩ := h
  exact ⟨s :: new, by simp, hs.append hnew⟩

/-- Behind white space no white space stands. -/
theorem head?_behind_space (cs : List Char) :
    ∀ c ∈ (cs.drop (cs.takeWhile Text.isSpace).length).head?, Text.isSpace c = false := by
  intro c hc
  have hsplit := (List.prefix_iff_eq_append.1 (List.takeWhile_prefix Text.isSpace)).trans
    (List.takeWhile_append_dropWhile (p := Text.isSpace) (l := cs)).symm
  have hsolid := List.head?_dropWhile_not Text.isSpace cs
  rw [← List.append_cancel_left hsplit, hc] at hsolid
  simpa using hsolid

/-- Where nothing else stands, a statement begins. -/
theorem opens_of_not (hspace : ∀ c ∈ cs.head?, Text.isSpace c = false) (hne : cs ≠ [])
    (hclose : ∀ rest, cs ≠ '}' :: rest) (hsemicolon : ∀ rest, cs ≠ ';' :: rest)
    (hcomment : ∀ rest, cs ≠ '/' :: '*' :: rest) (hline : ∀ rest, cs ≠ '/' :: '/' :: rest) :
    Opens cs := by
  obtain ⟨c, cs, rfl⟩ := List.exists_cons_of_ne_nil hne
  refine .intro (hspace c rfl) ?_ ?_
  · -- the first character is none of those that end or open something else
    rw [List.mem_cons, List.mem_singleton]
    rintro (rfl | rfl)
    · exact hclose cs rfl
    · exact hsemicolon cs rfl
  · rintro rfl hmem
    -- a slash is followed neither by a star nor by a slash
    rw [List.mem_cons, List.mem_singleton] at hmem
    rcases hmem with hnext | hnext <;> obtain ⟨body, rfl⟩ := List.head?_eq_some_iff.1 hnext
    · exact hcomment body rfl
    · exact hline body rfl

/-- All statements that are read are understood. -/
theorem readStatements_understood {ahead after : Ahead}
    (h : readStatements fuel opened read ahead = .ok (statements, after)) :
    ∃ new, statements = read.reverse ++ new ∧ Understood new := by
  induction fuel generalizing opened read statements ahead after with
  | zero => cases h
  | succ fuel ih =>
    unfold readStatements at h
    simp only at h
    have hspace : ∀ c ∈ (ahead.drop (ahead.rest.takeWhile Text.isSpace).length).rest.head?,
        Text.isSpace c = false := head?_behind_space ahead.rest
    generalize ahead.rest.takeWhile Text.isSpace = space at h hspace
    generalize ahead.drop space.length = start at h hspace
    split at h
    · cases opened with
      | some brace => cases h
      | none =>
        cases h
        exact ⟨[], by simp, .nil⟩
    · cases opened with
      | none => cases h
      | some brace =>
        cases h
        exact ⟨[], by simp, .nil⟩
    · exact ih h
    · -- a block comment
      rename_i body hrest
      split at h
      · cases h
      rename_i n hn
      have htext : start.rest.take (n + 2) = '/' :: '*' :: body.take n := by
        rw [hrest]
        rfl
      refine Understood.step ?_ (ih h)
      rw [htext]
      exact .comment (.block (commentText_of_length hn).1) .nil
    · -- a comment up to the end of its line
      rename_i body hrest
      have htext : start.rest.takeWhile (· != '\n') = '/' :: '/' :: body.takeWhile (· != '\n') := by
        rw [hrest]
        rfl
      have hline : '\n' ∉ '/' :: '/' :: body.takeWhile (· != '\n') := by
        rw [← htext]
        intro hmem
        have := List.mem_takeWhile_imp hmem
        simp at this
      refine Understood.step ?_ (ih h)
      rw [htext]
      exact .comment (isComment_line hline) .nil
    · -- any other statement
      rename_i hend hclose hsemicolon hcomment hline
      have hopens := opens_of_not hspace hend hclose hsemicolon hcomment hline
      obtain ⟨p, hp, h⟩ := bind_eq_ok h
      split at h
      · rename_i hbrace
        obtain ⟨⟨block, next⟩, hblock, h⟩ := bind_eq_ok h
        obtain ⟨s, hs, h⟩ := bind_eq_ok h
        obtain ⟨r, hbegins, hdepth⟩ := begins_of_readPrelude hopens hp (blockStatement_ne_nil hs)
        obtain ⟨new, hnew, hunderstood⟩ := ih hblock
        obtain rfl : block = new := by simpa using hnew
        exact Understood.step (.block hbegins (Text.tight_trimChars _) (hdepth hbrace) hs hunderstood
          .nil) (ih h)
      · obtain ⟨s, hs, h⟩ := bind_eq_ok h
        obtain ⟨r, hbegins, -⟩ := begins_of_readPrelude hopens hp (simpleStatement_ne_nil hs)
        exact Understood.step (.simple hbegins (Text.tight_trimChars _) hs .nil) (ih h)

/-! ## One statement -/

/-- Is a statement that is read behind white space and others set off by a blank line? -/
def isSetOff (space : List Char) (read : List Statement) : Bool :=
  decide (1 < space.count '\n') && !read.isEmpty

/-- Where a statement begins, the reader reads up to its end or to its block. -/
theorem readStatements_opens {space : List Char} (hspace : ∀ x ∈ space, Text.isSpace x = true)
    (hopens : Opens cs) : readStatements (fuel + 1) opened read ⟨offset, space ++ cs⟩ = (do
      let p ← readPrelude 0 .plain [] (offset + space.length) cs
      let text := Text.trimChars p.text
      if p.ending = some '{' then
        let (block, after) ← readStatements fuel (some p.ahead.offset) [] (p.ahead.drop 1)
        let statement ← blockStatement (offset + space.length) text block (isSetOff space read)
        readStatements fuel opened (statement :: read) after
      else
        let semicolon := p.ending = some ';'
        let statement ←
          simpleStatement (offset + space.length) text semicolon (isSetOff space read)
        let after := if semicolon then p.ahead.drop 1 else p.ahead
        readStatements fuel opened (statement :: read) after) := by
  have hdrop : (⟨offset, space ++ cs⟩ : Ahead).drop space.length = ⟨offset + space.length, cs⟩ := by
    simp [Ahead.drop]
  conv_lhs => unfold readStatements
  simp only [Text.takeWhile_append_eq_left hspace hopens.head, hdrop]
  -- each of the other cases starts in a way in which no statement begins
  split
  · exact absurd rfl hopens.ne_nil
  · obtain ⟨-, hend, -⟩ := hopens
    simp at hend
  · obtain ⟨-, hend, -⟩ := hopens
    simp at hend
  · obtain ⟨-, -, hcomment⟩ := hopens
    simp at hcomment
  · obtain ⟨-, -, hcomment⟩ := hopens
    simp at hcomment
  · rfl

/-- A statement without a block is read, and the reader goes on behind it. -/
theorem readStatements_simple {space : List Char} {p : Prelude} {s : Statement}
    (hspace : ∀ x ∈ space, Text.isSpace x = true) (hopens : Opens cs)
    (hp : readPrelude 0 .plain [] (offset + space.length) cs = .ok p) (hend : p.ending ≠ some '{')
    (hs : simpleStatement (offset + space.length) (Text.trimChars p.text) (p.ending = some ';')
      (isSetOff space read) = .ok s) :
    readStatements (fuel + 1) opened read ⟨offset, space ++ cs⟩ =
      readStatements fuel opened (s :: read)
        (if p.ending = some ';' then p.ahead.drop 1 else p.ahead) := by
  -- the text up to its end is the statement
  rw [readStatements_opens hspace hopens, hp]
  show (if p.ending = some '{' then _ else _) = _
  rw [if_neg hend]
  simp only
  rw [hs]
  rfl

/-- A statement with a block is read, and the reader goes on behind the block. -/
theorem readStatements_block {space : List Char} {p : Prelude} {s : Statement}
    {block : List Statement} {after : Ahead}
    (hspace : ∀ x ∈ space, Text.isSpace x = true) (hopens : Opens cs)
    (hp : readPrelude 0 .plain [] (offset + space.length) cs = .ok p) (hend : p.ending = some '{')
    (hblock : readStatements fuel (some p.ahead.offset) [] (p.ahead.drop 1) = .ok (block, after))
    (hs : blockStatement (offset + space.length) (Text.trimChars p.text) block
      (isSetOff space read) = .ok s) :
    readStatements (fuel + 1) opened read ⟨offset, space ++ cs⟩ =
      readStatements fuel opened (s :: read) after := by
  -- the text up to the brace is the head, and the block is read behind it
  rw [readStatements_opens hspace hopens, hp]
  show (if p.ending = some '{' then _ else _) = _
  rw [if_pos hend, hblock]
  show (blockStatement .. >>= _) = _
  rw [hs]
  rfl

/-- A comment is read as it is kept. -/
theorem readStatements_comment {space text : List Char}
    (hspace : ∀ x ∈ space, Text.isSpace x = true) (htext : IsComment text)
    (hrest : rest.head? = some '\n') :
    readStatements (fuel + 1) opened read ⟨offset, space ++ (text ++ rest)⟩ =
      readStatements fuel opened (.comment (String.ofList text) (isSetOff space read) :: read)
        ⟨offset + space.length + text.length, rest⟩ := by
  -- a comment starts with a slash, so that the white space in front of it ends there
  have hslash : ∀ c ∈ (text ++ rest).head?, Text.isSpace c = false := by
    cases htext <;> rintro _ ⟨⟩ <;> decide
  have hdrop : (⟨offset, space ++ (text ++ rest)⟩ : Ahead).drop space.length =
      ⟨offset + space.length, text ++ rest⟩ := by
    simp [Ahead.drop]
  conv_lhs => unfold readStatements
  simp only [Text.takeWhile_append_eq_left hspace hslash, hdrop]
  -- a comment of either kind is taken up to its end
  cases htext with
  | @block body hbody =>
    have htake : ('/' :: '*' :: (body ++ rest)).take (body.length + 2) = '/' :: '*' :: body := by
      simp
    have hahead : (⟨offset + space.length, '/' :: '*' :: (body ++ rest)⟩ : Ahead).drop
        (body.length + 2) = ⟨offset + space.length + ('/' :: '*' :: body).length, rest⟩ := by
      simp [Ahead.drop]
    simp only [List.cons_append, hbody.blockCommentLength? rest, htake, hahead]
    rfl
  | @line body hline hlast =>
    have htake : ('/' :: '/' :: (body ++ rest)).takeWhile (· != '\n') = '/' :: '/' :: body := by
      -- the line goes up to the line feed behind the comment
      have hchars : ∀ c ∈ '/' :: '/' :: body, (c != '\n') = true := by
        simp only [List.forall_mem_cons]
        refine ⟨rfl, rfl, fun c hc => bne_iff_ne.2 ?_⟩
        rintro rfl
        exact hline hc
      apply Text.takeWhile_append_eq_left hchars
      rw [hrest]
      rintro _ ⟨⟩
      rfl
    -- the comment ends in no white space, so nothing is dropped
    have htrim : Text.dropEndWhile Text.isSpace ('/' :: '/' :: body) = '/' :: '/' :: body := by
      apply List.rdropWhile_eq_self_iff.2
      intro hne
      have hlastChar := hlast _ (List.getLast?_eq_some_getLast (List.cons_ne_nil '/' body))
      rw [List.getLast_cons (List.cons_ne_nil '/' body), hlastChar]
      exact Bool.false_ne_true
    have hahead : (⟨offset + space.length, '/' :: '/' :: (body ++ rest)⟩ : Ahead).drop
        ('/' :: '/' :: body).length = ⟨offset + space.length + ('/' :: '/' :: body).length, rest⟩ := by
      simp [Ahead.drop]
    simp only [List.cons_append, htake, hahead, htrim]
    rfl

/-! ## Going on -/

/-- Inside a block or outside, behind the statements that are read already, the reader makes statements
of a text and comes to the rest of it. -/
def ReadsTo (inner : Bool) (read : List Statement) (text : List Char)
    (result : List Statement × List Char) : Prop :=
  ∀ (opened : Option Nat) (offset fuel : Nat), opened.isSome = inner → text.length < fuel →
    ∃ offset', readStatements fuel opened read ⟨offset, text⟩ = .ok (result.1, ⟨offset', result.2⟩)

variable {inner : Bool} {result : List Statement × List Char} {space : List Char} {s : Statement}

/-- The reader goes on behind a statement. -/
theorem ReadsTo.next {text : List Char} (hne : text ≠ [])
    (hstep : ∀ (opened : Option Nat) (offset fuel : Nat), opened.isSome = inner →
      (space ++ (text ++ rest)).length < fuel + 1 → ∃ offset',
      readStatements (fuel + 1) opened read ⟨offset, space ++ (text ++ rest)⟩ =
        readStatements fuel opened (s :: read) ⟨offset', rest⟩)
    (h : ReadsTo inner (s :: read) rest result) :
    ReadsTo inner read (space ++ (text ++ rest)) result := by
  intro opened offset fuel hopened hfuel
  -- one step reads the statement, and the rest has the room that is left
  obtain ⟨n, rfl⟩ := Nat.exists_eq_add_one_of_ne_zero (Nat.ne_zero_of_lt hfuel)
  obtain ⟨next, hnext⟩ := hstep opened offset n hopened hfuel
  rw [hnext]
  apply h opened next n hopened
  have := List.length_pos_iff.2 hne
  simp only [List.length_append] at hfuel
  omega

/-- A comment behind white space becomes a statement when a line feed follows. -/
theorem ReadsTo.comment {text : List Char} (hspace : ∀ x ∈ space, Text.isSpace x = true)
    (htext : IsComment text) (hrest : rest.head? = some '\n')
    (h : ReadsTo inner (.comment (String.ofList text) (isSetOff space read) :: read) rest result) :
    ReadsTo inner read (space ++ (text ++ rest)) result := by
  refine h.next (by cases htext <;> simp) fun opened offset fuel _ _ => ?_
  exact ⟨_, readStatements_comment hspace htext hrest⟩

/-- A text with which a statement begins opens no comment, unless a star or a slash follows it. -/
theorem Begins.front (h : Begins cs r) (hc : some c ∉ [some '*', some '/']) :
    Opens (cs ++ c :: rest) := by
  have hopens : Opens (cs ++ []) := by
    rw [List.append_nil]
    exact h.opens
  exact hopens.front h.opens.ne_nil hc

/-- The statement that is made of a text does not depend on where the text starts. -/
theorem simpleStatement_anywhere {start : Nat} {text : List Char} {semicolon blank : Bool}
    (h : simpleStatement start text semicolon blank = .ok s) (start' : Nat) :
    simpleStatement start' text semicolon blank = .ok s := by
  unfold simpleStatement at h ⊢
  -- the start is in the fault only
  split
  · rwa [if_pos ‹_›] at h
  rw [if_neg ‹_›] at h
  split
  · rwa [if_pos ‹_›] at h
  rw [if_neg ‹_›] at h
  split <;> rename_i hcolon <;> rw [hcolon] at h
  · cases h
  · exact h

/-- What a statement is made of does not depend on where it starts. -/
theorem blockStatement_anywhere {start : Nat} {text : List Char} {block : List Statement}
    {blank : Bool} (h : blockStatement start text block blank = .ok s) (start' : Nat) :
    blockStatement start' text block blank = .ok s := by
  unfold blockStatement at h ⊢
  split
  · rwa [if_pos ‹_›] at h
  rw [if_neg ‹_›] at h
  split
  · rw [if_pos ‹_›] at h
    cases h
  · rwa [if_neg ‹_›] at h

/-- A statement is read up to its semicolon. -/
theorem ReadsTo.simple {text : List Char} {start : Nat} (hspace : ∀ x ∈ space, Text.isSpace x = true)
    (htext : Begins text r) (hdepth : r.depth = 0)
    (hs : simpleStatement start (Text.trimChars text) true (isSetOff space read) = .ok s)
    (h : ReadsTo inner (s :: read) rest result) :
    ReadsTo inner read (space ++ (text ++ [';'] ++ rest)) result := by
  refine h.next (by simp) fun opened offset fuel _ _ => ?_
  have hp := readPrelude_ends htext.passes htext.plain hdepth htext.unstopped (.inl rfl)
    (offset + space.length) rest
  rw [List.append_assoc, List.singleton_append, readStatements_simple hspace (htext.front (by simp))
    hp nofun (simpleStatement_anywhere hs _)]
  exact ⟨_, rfl⟩

/-- A placeholder on a line of its own is read up to the end of the line. -/
theorem ReadsTo.placeholder {text : List Char} (hspace : ∀ x ∈ space, Text.isSpace x = true)
    (htext : Begins text r) (halone : isPlaceholder text = true) (hrest : rest.head? = some '\n')
    (h : ReadsTo inner
      (.declaration (String.ofList text) none false false (isSetOff space read) :: read) rest
      result) :
    ReadsTo inner read (space ++ (text ++ rest)) result := by
  obtain ⟨rest, rfl⟩ := List.head?_eq_some_iff.1 hrest
  -- the placeholder is the statement, without a semicolon
  have hs : simpleStatement 0 (Text.trimChars text) false (isSetOff space read) =
      .ok (.declaration (String.ofList text) none false false (isSetOff space read)) := by
    rw [(tight_of_isPlaceholder halone).trimChars, simpleStatement, if_pos halone]
  have hend : some '\n' ≠ some '{' := by decide
  -- the line feed behind it ends the statement
  refine h.next htext.opens.ne_nil fun opened offset fuel _ _ => ?_
  rw [readStatements_simple hspace (htext.front (by simp))
    (readPrelude_alone halone (offset + space.length) rest) hend (simpleStatement_anywhere hs _)]
  exact ⟨_, rfl⟩

/-- A space behind the beginning of a statement is passed over. -/
theorem Begins.behind_space (h : Begins cs r) : ∃ r', Scan.over? {} (cs ++ [' ']) = some r' ∧
    r'.isPlain = true ∧ r'.depth = r.depth ∧ Unstopped [] (cs ++ [' ']) := by
  obtain ⟨depth, mode⟩ := r
  have hplain := h.plain
  cases mode with
  | string | comment => cases hplain
  | plain slash =>
    refine ⟨⟨depth, .plain false⟩, ?_, rfl, rfl, ?_⟩
    · rw [Scan.over?_append, h.passes]
      simp [Scan.over?, Scan.after?, Text.isQuote]
    · -- the line ends are those of the beginning
      rintro a b hsplit
      rcases b.eq_nil_or_concat' with rfl | ⟨b, c, rfl⟩
      · have hlast := (List.append_inj' hsplit rfl).2
        cases hlast
      · rw [← List.cons_append, ← List.append_assoc] at hsplit
        exact h.unstopped a b (List.append_inj' hsplit rfl).1

/-- A statement with a block is read up to the end of the block. -/
theorem ReadsTo.block {text body : List Char} {start : Nat} {block : List Statement}
    (hspace : ∀ x ∈ space, Text.isSpace x = true) (htext : Begins text r) (hdepth : r.depth = 0)
    (hblock : ReadsTo true [] (body ++ rest) (block, rest))
    (hs : blockStatement start (Text.trimChars text) block (isSetOff space read) = .ok s)
    (h : ReadsTo inner (s :: read) rest result) :
    ReadsTo inner read (space ++ (text ++ " \x7b".toList ++ body ++ rest)) result := by
  refine h.next (by simp) fun opened offset fuel _ hfuel => ?_
  -- the head is passed over with the space behind it
  obtain ⟨r', hover, hplain, hdepth', hunstopped⟩ := htext.behind_space
  have hp := readPrelude_ends hover hplain (hdepth'.trans hdepth) hunstopped (.inr (.inl rfl))
    (offset + space.length) (body ++ rest)
  have htrim : Text.trimChars (text ++ [' ']) = Text.trimChars text :=
    Text.trimChars_back (List.forall_mem_singleton.2 (by decide)) text
  -- the block is read up to its closing brace, with less room
  obtain ⟨after, hafter⟩ := hblock (some (offset + space.length + (text ++ [' ']).length))
    (offset + space.length + (text ++ [' ']).length + 1) fuel rfl (by simp at hfuel ⊢; omega)
  have hsplit : text ++ " \x7b".toList ++ body ++ rest = text ++ [' '] ++ '\x7b' :: (body ++ rest) := by
    simp
  have hopens : Opens (text ++ [' '] ++ '\x7b' :: (body ++ rest)) := by
    rw [List.append_assoc]
    -- the head begins a statement, and no comment
    exact htext.front (by simp)
  rw [← htrim] at hs
  rw [hsplit, readStatements_block hspace hopens hp rfl hafter (blockStatement_anywhere hs _)]
  exact ⟨_, rfl⟩

/-- Behind the last statement of a stylesheet the reader comes to its end. -/
theorem ReadsTo.ends (hspace : ∀ x ∈ space, Text.isSpace x = true) (read : List Statement) :
    ReadsTo false read space (read.reverse, []) := by
  intro opened offset fuel hopened hfuel
  obtain ⟨n, rfl⟩ := Nat.exists_eq_add_one_of_ne_zero (Nat.ne_zero_of_lt hfuel)
  obtain rfl : opened = none := by simpa using hopened
  have htake : space.takeWhile Text.isSpace = space := List.takeWhile_eq_self_iff.2 hspace
  refine ⟨offset + space.length, ?_⟩
  unfold readStatements
  simp [htake, Ahead.drop]
  rfl

/-- Behind the last statement of a block the reader comes to the end of the block. -/
theorem ReadsTo.closes (hspace : ∀ x ∈ space, Text.isSpace x = true) (read : List Statement)
    (rest : List Char) : ReadsTo true read (space ++ '\x7d' :: rest) (read.reverse, rest) := by
  intro opened offset fuel hopened hfuel
  obtain ⟨n, rfl⟩ := Nat.exists_eq_add_one_of_ne_zero (Nat.ne_zero_of_lt hfuel)
  have htake : (space ++ '\x7d' :: rest).takeWhile Text.isSpace = space := by
    apply Text.takeWhile_append_eq_left hspace
    rintro _ ⟨⟩
    decide
  refine ⟨offset + space.length + 1, ?_⟩
  unfold readStatements
  simp [htake, Ahead.drop, hopened]
  rfl

/-! ## Rules in one another -/

/-- The text of rules in one another. -/
def nestedText : Nat → List Char
  | 0 => []
  | n + 1 => ['a'] ++ " \x7b".toList ++ nestedText n ++ ['\x7d']

/-- The rules of `nestedText`. -/
def nestedRules : Nat → List Statement
  | 0 => []
  | n + 1 => [.rule "a" (nestedRules n) false]

/-- Each of the rules is one level deeper than the next. -/
theorem depthOf_nestedRules (n : Nat) : depthOf (nestedRules n) = n := by
  induction n with
  | zero => rfl
  | succ n ih => simp [nestedRules, depthOf, Statement.depth, ih]

/-- A statement begins with the selector of the rules. -/
theorem begins_selector : ∃ r, Begins ['a'] r ∧ r.depth = 0 := by
  have hopens : Opens ['a'] := .intro (by decide) (by decide) (by decide)
  have hspace : ∀ c ∈ ['a'].head?, Text.isSpace c = false := by
    rintro _ ⟨⟩
    decide
  exact ⟨_, ⟨hopens, rfl, rfl, unstopped_of_not_startsWith hspace (by decide)⟩, rfl⟩

/-- A rule in which rules are read is read in front of what is read behind it. -/
theorem ReadsTo.rule {n : Nat} {rest : List Char} {result : List Statement × List Char}
    (hbody : ∀ rest, ReadsTo true [] (nestedText n ++ '\x7d' :: rest) (nestedRules n, rest))
    (h : ReadsTo inner (nestedRules (n + 1)) rest result) :
    ReadsTo inner [] (nestedText (n + 1) ++ rest) result := by
  obtain ⟨r, hbegins, hdepth⟩ := begins_selector
  have hblock : ReadsTo true [] (nestedText n ++ ['\x7d'] ++ rest) (nestedRules n, rest) := by
    simpa using hbody rest
  have hs : blockStatement 0 (Text.trimChars ['a']) (nestedRules n) false
      = .ok (.rule "a" (nestedRules n) false) := rfl
  have hspace : ∀ c ∈ ([] : List Char), Text.isSpace c = true := List.forall_mem_nil _
  simpa [nestedText] using ReadsTo.block hspace hbegins hdepth hblock hs h

/-- Rules in one another are read in front of what ends the block that they stand in. -/
theorem reads_nested (n : Nat) (rest : List Char) :
    ReadsTo true [] (nestedText n ++ '\x7d' :: rest) (nestedRules n, rest) := by
  have hspace : ∀ c ∈ ([] : List Char), Text.isSpace c = true := List.forall_mem_nil _
  induction n generalizing rest with
  | zero => exact .closes hspace [] rest
  | succ n ih => exact .rule ih (.closes hspace (nestedRules (n + 1)) rest)

/-- The text of nested rules is read as those rules, by induction on how many there are. -/
theorem read_nested (n : Nat) :
    Stylesheet.read (.ofString (String.ofList (nestedText (n + 1)))) = .ok (nestedRules (n + 1)) := by
  have hends : ReadsTo false (nestedRules (n + 1)) [] (nestedRules (n + 1), []) :=
    .ends (List.forall_mem_nil _) _
  have hreads := ReadsTo.rule (reads_nested n) hends
  have hchars : (Source.ofString (String.ofList (nestedText (n + 1)))).chars = nestedText (n + 1) :=
    String.toList_ofList
  generalize Source.ofString (String.ofList (nestedText (n + 1))) = source at hchars
  obtain ⟨offset, hall⟩ := hreads none 0 (source.size + 1) rfl (by simp [Source.size_eq, hchars])
  rw [List.append_nil, ← hchars] at hall
  unfold Stylesheet.read
  rw [hall]

/-- What two calls for each level suffice to read takes three for each to print. -/
theorem readOn_nested {stack n : Nat} (hread : 2 * (n + 1) ≤ stack) (hprint : stack < 3 * (n + 1)) :
    readOn stack (.ofString (String.ofList (nestedText (n + 1)))) =
        some (.ok (nestedRules (n + 1))) ∧
      printOn stack (nestedRules (n + 1)) = none := by
  constructor
  · rw [readOn, read_nested]
    dsimp only
    rw [depthOf_nestedRules, if_pos hread]
  · rw [printOn, depthOf_nestedRules, if_neg (Nat.not_le_of_lt hprint)]

/-- A stylesheet that is read on a stack is not always printed on it: three hundred and fifty rules in
one another take seven hundred calls to be read, and half as many again to be printed. -/
theorem print_overflows :
    ∃ source statements, readOn 1000 source = some (.ok statements) ∧
      printOn 1000 statements = none :=
  ⟨_, _, readOn_nested (n := 349) (by decide) (by decide)⟩

end Reflow.Stylesheet
