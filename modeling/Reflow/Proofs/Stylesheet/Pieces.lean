import Reflow.Proofs.Stylesheet.Spacing
import Reflow.Stylesheet.Reader

/-!
# The pieces of a stylesheet

The text of a stylesheet is made of pieces: names of properties and of at-rules and words that mark
importance, whose letters may change their case, and the texts between them, which are kept.  What the
reader makes of a text has the same pieces as the text, with white space and semicolons between them.

## Key results

- `Spells`: the pieces that statements are spelled with
- `readPrelude_text`: what is read up to the end of a statement, and where it ends
- `readStatements_spells`: the contents of what is read are those of the pieces of its statements
-/

namespace Reflow.Stylesheet

/-- A piece of the text of a stylesheet. -/
inductive Piece where
  | kept (text : List Char)
  | property (name : List Char)
  /-- The name of an at-rule, behind its at sign. -/
  | atRule (name : List Char)
  /-- The word behind the exclamation mark of an important declaration. -/
  | important (word : List Char)
  deriving Repr, DecidableEq

/-- A piece as it is written. -/
def Piece.written : Piece → List Char
  | .kept text => text
  | .property name => name
  | .atRule name => '@' :: name
  | .important word => word

/-- The pieces of a statement in front of its block; the word marks its importance. -/
def Statement.head (word : List Char) : Statement → List Piece
  | .comment text _ => [.kept text.toList]
  | .declaration property none _ _ _ => [.kept property.toList]
  | .declaration property (some value) important _ _ =>
    [.property property.toList, .kept [':'], .kept value.toList]
      ++ if important then [.kept ['!'], .important word] else []
  | .atRule name params _ _ => [.atRule name.toList, .kept params.toList]
  | .rule selector _ _ => [.kept selector.toList]

/-- The block of a statement. -/
def Statement.block? : Statement → Option (List Statement)
  | .atRule _ _ block _ => block
  | .rule _ block _ => some block
  | .comment .. | .declaration .. => none

/-- The statements are spelled with the pieces. -/
inductive Spells : List Statement → List Piece → Prop
  | nil : Spells [] []
  | simple {s : Statement} {rest : List Statement} {pieces : List Piece} (word : List Char)
    (hword : isImportant word = true) (hs : s.block? = none) (hrest : Spells rest pieces) :
    Spells (s :: rest) (s.head word ++ pieces)
  | block {s : Statement} {block rest : List Statement} {inner pieces : List Piece}
    (hs : s.block? = some block) (hblock : Spells block inner) (hrest : Spells rest pieces) :
    Spells (s :: rest) (s.head [] ++ (.kept ['{'] :: inner ++ [.kept ['}']]) ++ pieces)

/-- Statements behind one another are spelled with the pieces of both. -/
theorem Spells.append {a b : List Statement} {ps qs : List Piece} (ha : Spells a ps)
    (hb : Spells b qs) : Spells (a ++ b) (ps ++ qs) := by
  induction ha with
  | nil => exact hb
  | simple word hword hs _ ih =>
    rw [List.append_assoc]
    exact .simple word hword hs ih
  | block hs hblock _ _ ih =>
    rw [List.append_assoc]
    exact .block hs hblock ih

/-- A statement with a block is spelled with its head and, between braces, with the pieces of the
block. -/
theorem Spells.one {s : Statement} {block : List Statement} {inner : List Piece}
    (hs : s.block? = some block) (hblock : Spells block inner) :
    Spells [s] (s.head [] ++ (.kept ['{'] :: inner ++ [.kept ['}']])) := by
  simpa using Spells.block hs hblock .nil

/-! ## The parts of a statement -/

/-- No placeholder stands at the start of the head of an at-rule. -/
theorem read?_of_not_startsWith {cs : List Char}
    (h : Text.startsWith cs placeholderStart = false) : Embed.Marker.css.read? cs = none := by
  rw [Option.eq_none_iff_forall_ne_some]
  intro digits hread
  obtain ⟨-, -, hstand⟩ := read?_eq_some_iff.1 hread
  rw [placeholderOf, List.append_assoc] at hstand
  have := Text.startsWith_iff.2 ((List.prefix_append ..).trans hstand)
  rw [h] at this
  cases this

/-- An at-rule is cut behind its name, which holds no at sign and so no placeholder. -/
theorem splitAtRule_alike {text : List Char} (h : isAtRule text = true) :
    Alike [text] ['@' :: (splitAtRule text).1.toList, (splitAtRule text).2.toList] := by
  simp only [isAtRule, Bool.and_eq_true, beq_iff_eq, Bool.not_eq_true'] at h
  obtain ⟨hat, hstart⟩ := h
  -- the text starts with the sign
  cases text with
  | nil => cases hat
  | cons c body =>
    obtain rfl : c = '@' := by simpa using hat
    simp only [splitAtRule, List.drop_one, List.tail_cons]
    split
    · simpa using (Alike.refl ['@' :: body]).append Alike.empty.symm
    · -- the name characters hold no sign
      have hname : '@' ∉ body.takeWhile fun c => Text.isWordChar c || c == '-' := by
        intro hmem
        have hall := List.all_eq_true.1 List.all_takeWhile _ hmem
        have hat : (Text.isWordChar '@' || '@' == '-') = false := by decide
        rw [hat] at hall
        cases hall
      have hbody := List.prefix_iff_eq_append.1
        (List.takeWhile_prefix (l := body) fun c => Text.isWordChar c || c == '-')
      simp only [String.toList_ofList]
      generalize body.takeWhile (fun c => Text.isWordChar c || c == '-') = name at hname hbody ⊢
      generalize body.drop name.length = rest at hbody ⊢
      subst hbody
      -- no placeholder starts at the sign, with the name alone or with all that follows
      have hread := read?_of_not_startsWith hstart
      have hread' : Embed.Marker.css.read? ('@' :: name) = none := by
        refine read?_of_not_startsWith (Bool.eq_false_iff.2 fun hname => ?_)
        have := Text.startsWith_iff.2 ((Text.startsWith_iff.1 hname).trans (List.prefix_append _ rest))
        rw [List.cons_append, hstart] at this
        cases this
      have hnone := placeholdersIn_drop hname []
      rw [List.append_nil, placeholdersIn_nil] at hnone
      -- white space between the name and the parameters is nothing essential
      refine .trans ?_ ((Alike.refl ['@' :: name]).append (Alike.dropWhile rest).symm)
      constructor
      · simp [essential_cons '@' (name ++ rest), essential_cons '@' name]
      · simp [placeholdersIn_cons_eq, hread, hread', placeholdersIn_drop hname, hnone]

/-- A list is cut at the first place of a character. -/
theorem eq_takeWhile_append {x : Char} {cs : List Char} (h : x ∈ cs) :
    cs = cs.takeWhile (· != x) ++ x :: cs.drop ((cs.takeWhile (· != x)).length + 1) := by
  induction cs with
  | nil => cases h
  | cons c cs ih =>
    by_cases hc : c = x
    · simp [hc]
    · have hmem : x ∈ cs := (List.mem_cons.1 h).resolve_left (Ne.symm hc)
      have hcut := ih hmem
      simpa [hc] using hcut

/-- The characters of an important word are its letters, in one case or another. -/
theorem isLetterOf_of_mem {word : List Char} {c : Char} (h : isImportant word = true)
    (hc : c ∈ word) : ∃ letter ∈ "important".toList, isLetterOf letter c = true := by
  rw [isImportant] at h
  simp only [Bool.and_eq_true, beq_iff_eq] at h
  -- the word and the letters it stands for go along with each other
  generalize "important".toList = letters at h
  obtain ⟨hlength, hall⟩ := h
  induction word generalizing letters with
  | nil => cases hc
  | cons d word ih =>
    cases letters with
    | nil => simp at hlength
    | cons letter letters =>
      simp only [List.zip_cons_cons, List.all_cons, Bool.and_eq_true] at hall
      rcases List.mem_cons.1 hc with rfl | hc
      · exact ⟨letter, List.mem_cons_self, hall.1⟩
      · obtain ⟨other, hother, hd⟩ := ih hc letters (by simpa using hlength) hall.2
        exact ⟨other, List.mem_cons_of_mem _ hother, hd⟩

/-- An important value is cut at its exclamation mark. -/
theorem splitImportant_alike {value before : List Char}
    (h : splitImportant value = (before, true)) :
    ∃ word, isImportant word = true ∧ Alike [value] [before, ['!'], word] := by
  rw [splitImportant] at h
  split at h
  · rename_i himportant
    -- the mark is in the text, and the word behind it
    rw [Bool.and_eq_true, List.contains_eq_mem, decide_eq_true_eq] at himportant
    obtain ⟨hmark, hword⟩ := himportant
    obtain ⟨rfl, -⟩ := Prod.mk.inj h
    refine ⟨_, hword, ?_⟩
    -- the text is cut at the last mark
    have hvalue := congrArg List.reverse (eq_takeWhile_append (List.mem_reverse.2 hmark))
    generalize value.reverse.takeWhile (· != '!') = word at hvalue ⊢
    generalize value.reverse.drop (word.length + 1) = before at hvalue ⊢
    rw [List.reverse_reverse, List.reverse_append, List.reverse_cons, List.append_assoc] at hvalue
    rw [hvalue]
    have hcut := Alike.cut (d := '!') (by decide) before.reverse word.reverse
    have hbefore := Alike.dropEndWhile before.reverse
    rw [Text.dropEndWhile, List.reverse_reverse] at hbefore
    exact hcut.trans (hbefore.symm.cons ((Alike.refl [['!']]).append (Alike.dropWhile _).symm))
  · cases h

/-- What is cut at a colon is the text in front of it and behind it. -/
theorem splitColon?_eq {text property value : List Char}
    (h : splitColon? text = some (property, value)) : text = property ++ ':' :: value := by
  rw [splitColon?] at h
  split at h
  · rename_i hlength
    -- a colon is there, for the text in front of the first one is shorter than the text
    have hcolon : ':' ∈ text := by
      refine Decidable.byContradiction fun hnone => ?_
      have hall : text.takeWhile (· != ':') = text := by
        have hall : ∀ c ∈ text, (c != ':') = true := fun c hc =>
          bne_iff_ne.2 fun h => hnone (h ▸ hc)
        have happend : (text ++ []).takeWhile (· != ':') = text ++ [].takeWhile (· != ':') :=
          List.takeWhile_append_of_pos hall
        rwa [List.takeWhile_nil, List.append_nil] at happend
      rw [hall] at hlength
      exact Nat.lt_irrefl _ hlength
    cases h
    exact eq_takeWhile_append hcolon
  · cases h

/-! ## Statements -/

/-- A statement without a block is spelled with pieces that have the contents of its text. -/
theorem simpleStatement_spells {start : Nat} {text : List Char} {semicolon blank : Bool}
    {s : Statement} (h : simpleStatement start text semicolon blank = .ok s) :
    ∃ pieces, Spells [s] pieces ∧ Alike [text] (pieces.map Piece.written) := by
  have hword : isImportant "important".toList = true := by decide
  rw [simpleStatement] at h
  -- a placeholder is kept as it is written
  split at h
  · cases h
    exact ⟨_, .simple _ hword rfl .nil, by simpa [Statement.head, Piece.written] using .refl [text]⟩
  split at h
  · -- an at-rule is its name and its parameters
    have halike := splitAtRule_alike ‹isAtRule text = true›
    generalize splitAtRule text = parts at h halike
    cases h
    refine ⟨_, .simple _ hword rfl .nil, ?_⟩
    simpa [Statement.head, Piece.written] using halike
  split at h
  · cases h
  rename_i property value hcolon
  rw [splitColon?_eq hcolon]
  have hcut := Alike.cut (d := ':') (by decide) property value
  have hproperty := (Alike.trimChars property).symm
  -- a declaration is cut at the colon, and in front of the mark of importance
  cases hvalue : splitImportant value with
  | mk before important =>
    simp only [hvalue] at h
    cases h
    have hbefore := (Alike.trimChars before).symm
    cases important with
    | false =>
      obtain rfl : value = before := by
        simp only [splitImportant] at hvalue
        split at hvalue <;> cases hvalue
        rfl
      refine ⟨_, .simple _ hword rfl .nil, hcut.trans ?_⟩
      simpa [Statement.head, Piece.written, Text.trim] using
        hproperty.cons ((Alike.refl [[':']]).append hbefore)
    | true =>
      obtain ⟨word, hword, hsplit⟩ := splitImportant_alike hvalue
      refine ⟨_, .simple word hword rfl .nil, hcut.trans ?_⟩
      simpa [Statement.head, Piece.written, Text.trim] using
        hproperty.cons ((Alike.refl [[':']]).append
          (hsplit.trans (hbefore.cons (.refl [['!'], word]))))

/-- So is one with a block, whose own pieces stand between the braces. -/
theorem blockStatement_spells {start : Nat} {text : List Char} {block : List Statement}
    {blank : Bool} {s : Statement} {inner : List Piece}
    (h : blockStatement start text block blank = .ok s) (hblock : Spells block inner) :
    ∃ pieces, Spells [s] (pieces ++ (.kept ['{'] :: inner ++ [.kept ['}']])) ∧
      Alike [text] (pieces.map Piece.written) := by
  -- an at-rule is its name and its parameters; the selectors are one text
  rw [blockStatement] at h
  split at h
  · have halike := splitAtRule_alike ‹isAtRule text = true›
    generalize splitAtRule text = parts at h halike
    cases h
    refine ⟨_, .one rfl hblock, ?_⟩
    simpa [Statement.head, Piece.written] using halike
  split at h
  · cases h
  · cases h
    refine ⟨_, .one rfl hblock, ?_⟩
    simpa [Statement.head, Piece.written] using .refl [text]

/-! ## Reading -/

/-- A prelude is the text up to where it ends: at a character that is in no placeholder, or at the
end of the source. -/
theorem readPrelude_text {depth : Nat} {mode : PreludeMode} {read cs : List Char} {offset : Nat}
    {p : Prelude} (h : readPrelude depth mode read offset cs = .ok p) :
    p.text ++ p.ahead.rest = read.reverse ++ cs ∧ p.ahead.rest.head? = p.ending ∧
      ∀ c ∈ p.ending, delimits c = true := by
  induction cs generalizing depth mode read offset with
  | nil =>
    cases mode with
    | plain =>
      cases h
      simp
    | string quote start escaped => cases h
    | commentOpen start => cases h
    | comment start star => cases h
  | cons c rest ih =>
    -- a character that is passed over is put to the text
    have hgo : ∀ {depth mode}, readPrelude depth mode (c :: read) (offset + 1) rest = .ok p →
        p.text ++ p.ahead.rest = read.reverse ++ c :: rest ∧ p.ahead.rest.head? = p.ending ∧
          ∀ c ∈ p.ending, delimits c = true := by
      intro depth mode hrest
      simpa using ih hrest
    -- the text ends at a delimiter
    have hend : ∀ d, d = ';' ∨ d = '{' ∨ d = '}' ∨ d = '\n' → delimits d = true := by
      rintro d (rfl | rfl | rfl | rfl) <;> decide
    cases mode with
    | string quote start escaped =>
      simp only [readPrelude] at h
      repeat' split at h
      -- in a string the reader passes on, or has a fault
      all_goals first | exact hgo h | cases h
    | commentOpen start => exact hgo h
    | comment start star =>
      simp only [readPrelude] at h
      split at h <;> exact hgo h
    | plain =>
      -- a quote, a comment or a bracket is passed over
      simp only [readPrelude] at h
      split at h; · exact hgo h
      split at h; · exact hgo h
      split at h; · exact hgo h
      split at h; · exact hgo h
      -- the end of the statement, or a line end behind a placeholder
      split at h
      · rename_i hc
        cases h
        refine ⟨rfl, rfl, fun d hd => hend d ?_⟩
        obtain rfl : c = d := by simpa using hd
        simp only [Bool.and_eq_true, Bool.or_eq_true, decide_eq_true_eq, or_assoc] at hc
        exact hc.2.imp_right (·.imp_right .inl)
      split at h
      · rename_i hc
        cases h
        refine ⟨rfl, rfl, fun d hd => hend d ?_⟩
        obtain rfl : c = d := by simpa using hd
        simp only [Bool.and_eq_true, decide_eq_true_eq] at hc
        exact .inr (.inr (.inr hc.1))
      · exact hgo h

/-- A block comment goes up to the slash that ends it. -/
theorem blockCommentLength?_eq {body : List Char} {n : Nat}
    (h : blockCommentLength? body = some n) : ∃ text, body.take n = text ++ ['/'] := by
  induction body generalizing n with
  | nil => cases h
  | cons c body ih =>
    -- by the cases of the reader of comments
    rw [blockCommentLength?.eq_def] at h
    split at h
    · cases h
    · rename_i heq
      cases heq
      cases h
      exact ⟨['*'], rfl⟩
    · rename_i heq
      cases heq
      obtain ⟨m, hm, rfl⟩ := Option.map_eq_some_iff.1 h
      obtain ⟨text, htext⟩ := ih hm
      exact ⟨c :: text, by rw [List.take_succ_cons, htext]; rfl⟩

/-- What is read from a place on: the contents of the text up to where reading stops are those of the
pieces of the statements that are read there. -/
def Reads (opened : Option Nat) (read : List Statement) (ahead : Ahead)
    (statements : List Statement) (after : Ahead) : Prop :=
  ∃ new pieces text, statements = read.reverse ++ new ∧ Spells new pieces ∧
    Alike [text] (pieces.map Piece.written) ∧
    ahead.rest = text ++ if opened.isSome then '}' :: after.rest else []

section Reads

variable {opened : Option Nat} {read statements new : List Statement} {ahead next after : Ahead}
  {pieces : List Piece} {space text : List Char}

/-- What is read in one go, in front of what is read next. -/
theorem Reads.step (new : List Statement) (text : List Char)
    (hnext : Reads opened (new.reverse ++ read) next statements after) (hspells : Spells new pieces)
    (halike : Alike [text] (pieces.map Piece.written))
    (hahead : ahead.rest = space ++ (text ++ next.rest))
    (hspace : ∀ c ∈ space, Text.isSpace c = true)
    (hcut : (∃ d front, delimits d = true ∧ text = front ++ [d]) ∨
      ∀ d ∈ next.rest.head?, delimits d = true) :
    Reads opened read ahead statements after := by
  obtain ⟨new', pieces', text', rfl, hspells', halike', hrest⟩ := hnext
  refine ⟨new ++ new', pieces ++ pieces', space ++ (text ++ text'), by simp,
    hspells.append hspells', ?_, by simp [hahead, hrest]⟩
  -- the text ends with a delimiter, or one follows it
  have hjoin : Alike [text ++ text'] [text, text'] := by
    rcases hcut with ⟨d, front, hd, rfl⟩ | hnext
    · exact .join_end hd
    · refine .join fun d hd => hnext d ?_
      rw [hrest]
      cases text' with
      | nil => cases hd
      | cons c text' => exact hd
  rw [List.map_append]
  exact (Alike.front hspace _).trans (hjoin.trans (halike.append halike'))

/-- A statement without a block, up to where it ends and over the semicolon that ends it. -/
theorem Reads.simple {p : Prelude} {start : List Char} {offset offset' : Nat} {blank : Bool}
    {s : Statement} (hp : readPrelude 0 .plain [] offset start = .ok p)
    (hs : simpleStatement offset' (Text.trimChars p.text) (decide (p.ending = some ';')) blank = .ok s)
    (hnext : Reads opened (s :: read) (if p.ending = some ';' then p.ahead.drop 1 else p.ahead)
      statements after)
    (hahead : ahead.rest = space ++ start) (hspace : ∀ c ∈ space, Text.isSpace c = true) :
    Reads opened read ahead statements after := by
  obtain ⟨htext, hhead, hdelims⟩ := readPrelude_text hp
  obtain ⟨pieces, hspells, halike⟩ := simpleStatement_spells hs
  -- trimming keeps the contents
  have halike : Alike [p.text] (pieces.map Piece.written) := (Alike.trimChars _).symm.trans halike
  -- a semicolon is taken to the statement
  by_cases hend : p.ending = some ';'
  · rw [if_pos hend] at hnext
    obtain ⟨rest, hrest⟩ := List.head?_eq_some_iff.1 (hhead.trans hend)
    have hsemicolon : Alike [p.text ++ [';']] [p.text] :=
      (Alike.cut (d := ';') (by decide) p.text []).trans
        ((Alike.refl [p.text]).append (Alike.semicolon.append .empty))
    refine hnext.step [s] _ hspells (hsemicolon.trans halike) ?_ hspace
      (.inl ⟨';', p.text, by decide, rfl⟩)
    rw [hahead, Ahead.drop, hrest]
    rw [hrest] at htext
    simpa using htext.symm
  · -- without one the text ends in front of a brace, a line feed or its end
    rw [if_neg hend] at hnext
    refine hnext.step [s] _ hspells halike ?_ hspace (.inr (hhead ▸ hdelims))
    rw [hahead, htext]
    rfl

/-- A statement with a block, up to the brace that closes it. -/
theorem Reads.block {p : Prelude} {start : List Char} {offset offset' brace : Nat} {blank : Bool}
    {s : Statement} {block : List Statement}
    (hp : readPrelude 0 .plain [] offset start = .ok p) (hend : p.ending = some '{')
    (hblock : Reads (some brace) [] (p.ahead.drop 1) block next)
    (hs : blockStatement offset' (Text.trimChars p.text) block blank = .ok s)
    (hnext : Reads opened (s :: read) next statements after)
    (hahead : ahead.rest = space ++ start) (hspace : ∀ c ∈ space, Text.isSpace c = true) :
    Reads opened read ahead statements after := by
  obtain ⟨htext, hhead, -⟩ := readPrelude_text hp
  obtain ⟨rest, hrest⟩ := List.head?_eq_some_iff.1 (hhead.trans hend)
  obtain ⟨_, inner, body, rfl, hinner, hbody, hbodyRest⟩ := hblock
  obtain ⟨pieces, hspells, halike⟩ := blockStatement_spells hs hinner
  -- the text, the opening brace, the text of the block and the closing brace
  have hopen := Alike.cut (d := '{') (by decide) p.text (body ++ ['}'])
  have hclose : Alike [body ++ ['}']] [body, ['}']] :=
    (Alike.cut (d := '}') (by decide) body []).trans
      ((Alike.refl [body, ['}']]).append .empty)
  refine hnext.step [s] ((p.text ++ '{' :: body) ++ ['}']) hspells ?_ ?_ hspace
    (.inl ⟨'}', p.text ++ '{' :: body, by decide, rfl⟩)
  · have hwhole := hopen.trans (((Alike.trimChars p.text).symm.trans halike).append
      ((Alike.refl [['{']]).append (hclose.trans (hbody.append (.refl [['}']])))))
    simpa [Piece.written] using hwhole
  · rw [Ahead.drop, hrest] at hbodyRest
    rw [hrest, show rest = _ from hbodyRest] at htext
    rw [hahead]
    simpa using htext.symm

end Reads

/-- A result is that of the first part and then of the second. -/
theorem bind_eq_ok {α β : Type} {x : Except Fault α} {f : α → Except Fault β} {b : β}
    (h : x >>= f = .ok b) : ∃ a, x = .ok a ∧ f a = .ok b := by
  cases x with
  | error fault => cases h
  | ok a => exact ⟨a, rfl, h⟩

/-- What the reader makes of a text has the contents of the text. -/
theorem readStatements_spells {fuel : Nat} {opened : Option Nat} {read statements : List Statement}
    {ahead after : Ahead}
    (h : readStatements fuel opened read ahead = .ok (statements, after)) :
    Reads opened read ahead statements after := by
  induction fuel generalizing opened read statements ahead after with
  | zero => cases h
  | succ fuel ih =>
    unfold readStatements at h
    simp only at h
    have hspace := List.all_eq_true.1
      (List.all_takeWhile (p := Text.isSpace) (l := ahead.rest))
    have hahead : ahead.rest = ahead.rest.takeWhile Text.isSpace
        ++ (ahead.drop (ahead.rest.takeWhile Text.isSpace).length).rest :=
      (List.prefix_iff_eq_append.1 (List.takeWhile_prefix _)).symm
    generalize ahead.rest.takeWhile Text.isSpace = space at h hspace hahead
    generalize ahead.drop space.length = start at h hahead
    have hline := List.prefix_iff_eq_append.1
      (List.takeWhile_prefix (l := start.rest) (· != '\n'))
    have hwords : isImportant "important".toList = true := by decide
    split at h
    · -- the end of the source
      rename_i hrest
      cases opened with
      | some brace => cases h
      | none =>
        cases h
        refine ⟨[], [], space, by simp, .nil, .spaces hspace, ?_⟩
        rw [hahead, hrest]
        rfl
    · -- the end of a block
      rename_i body hrest
      cases opened with
      | none => cases h
      | some brace =>
        cases h
        refine ⟨[], [], space, by simp, .nil, .spaces hspace, ?_⟩
        rw [hahead, hrest]
        simp [Ahead.drop, hrest]
    · -- a semicolon that ends nothing
      rename_i body hrest
      refine (ih h).step [] _ .nil .semicolon ?_ hspace
        (.inl ⟨';', [], by decide, rfl⟩)
      rw [hahead, hrest]
      simp [Ahead.drop, hrest]
    · -- a block comment
      rename_i body hrest
      split at h
      · cases h
      rename_i n hn
      obtain ⟨text, htext⟩ := blockCommentLength?_eq hn
      have hcomment : start.rest.take (n + 2) = ('/' :: '*' :: text) ++ ['/'] := by
        rw [hrest, List.take_succ_cons, List.take_succ_cons, htext]
        rfl
      rw [hcomment] at h
      refine (ih h).step [.comment _ _] _ (.simple _ hwords rfl .nil) ?_
        (hahead.trans ?_) hspace (.inl ⟨'/', '/' :: '*' :: text, by decide, rfl⟩)
      · simpa [Statement.head, Piece.written] using .refl _
      · rw [← hcomment, Ahead.drop, List.take_append_drop]
    · -- a comment up to the end of its line
      refine (ih h).step [.comment _ _] (start.rest.takeWhile (· != '\n'))
        (.simple _ hwords rfl .nil) ?_ (hahead.trans ?_) hspace (.inr ?_)
      · simpa [Statement.head, Piece.written] using (Alike.dropEndWhile _).symm
      · rw [Ahead.drop, hline]
      · intro d hd
        have hdrop : start.rest.drop (start.rest.takeWhile (· != '\n')).length
            = start.rest.dropWhile (· != '\n') :=
          List.append_cancel_left (hline.trans List.takeWhile_append_dropWhile.symm)
        rw [Ahead.drop, hdrop] at hd
        have hnot := List.head?_dropWhile_not (· != '\n') start.rest
        rw [hd] at hnot
        obtain rfl : d = '\n' := by simpa using hnot
        decide
    · -- any other statement
      obtain ⟨p, hp, h⟩ := bind_eq_ok h
      split at h
      · rename_i hend
        obtain ⟨⟨block, next⟩, hblock, h⟩ := bind_eq_ok h
        obtain ⟨s, hs, h⟩ := bind_eq_ok h
        exact .block hp hend (ih hblock) hs (ih h) hahead hspace
      · obtain ⟨s, hs, h⟩ := bind_eq_ok h
        exact .simple hp hs (ih h) hahead hspace

end Reflow.Stylesheet
