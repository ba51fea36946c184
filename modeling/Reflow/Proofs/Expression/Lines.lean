import Reflow.Print.Statement
import Reflow.Proofs.Expression.Roundtrip
import Reflow.Proofs.Expression.Starts
import Reflow.Proofs.Grammar.FollowRules
import Reflow.Proofs.Grammar.Sees

/-!
# Semicolons between lines

A program of expressions is written with each statement on a line of its own.  Where semicolons are
written, every line ends with one; where they are left out, a line that could be taken for a
continuation of the line before it starts with one.  Either way the expressions are read back one by
one: a statement ends where its line ends, or with the semicolon in front of the next line.  Only a
semicolon in front of the first line is a statement by itself.

## Key results

- `Expression.shows_script`: what shows an expression is read in script mode throughout
- `Line.Starts`: a line that does not go on with the line before it
- `statement_line`, `collect_lines`: one statement and all statements of lines
- `parse_writtenLines`: a written program is read back, with semicolons and without
-/

namespace Reflow

variable {source : Source} {n : Node}

/-- A node that is no markup, no template and no export is a script if its children are. -/
theorem Node.Script.of_children (hmarkup : n.isMarkup = false)
    (htemplate : n.isTemplateLiteral = false) (hexport : n.form.exportOf? = none)
    (hchildren : ∀ m ∈ n.form.children.map (·.2), m.Script source) : n.Script source := by
  refine Node.all_iff.2 ⟨?_, hchildren⟩
  simp [hmarkup, htemplate, keepsDecorators, hexport]

section

-- an expression is shown by its form
attribute [local simp] Node.isMarkup Node.isTemplateLiteral Form.exportOf? Form.children Form.fields

/-- A node of a form without children of its own kind is a script if its children are. -/
theorem script_of_form {form : Form Node} (hform : n.form = form)
    (hplain : (Node.ofForm form).isMarkup = false ∧ (Node.ofForm form).isTemplateLiteral = false ∧
      form.exportOf? = none)
    (hchildren : ∀ m ∈ form.children.map (·.2), m.Script source) : n.Script source := by
  obtain ⟨id, span, form'⟩ := n
  subst hform
  exact .of_children hplain.1 hplain.2.1 hplain.2.2 hchildren

mutual

/-- What shows a target is read in script mode throughout. -/
theorem Target.shows_script : ∀ {t : Target} {n : Node}, t.Shows n → n.Script source
  | .name x, n, h => script_of_form h ⟨rfl, rfl, rfl⟩ (by simp)
  | .dotted object property optional, n, ⟨o, p, hform, ho, hp⟩ => by
    have hproperty : p.Script source := script_of_form hp ⟨rfl, rfl, rfl⟩ (by simp)
    exact script_of_form hform ⟨rfl, rfl, rfl⟩ (by simpa using ⟨object.shows_script ho, hproperty⟩)
  | .computed object property optional, n, ⟨o, p, hform, ho, hp⟩ =>
    script_of_form hform ⟨rfl, rfl, rfl⟩
      (by simpa using ⟨object.shows_script ho, property.shows_script hp⟩)

/-- What shows an expression is. -/
theorem Expression.shows_script : ∀ {e : Expression} {n : Node}, e.Shows n → n.Script source
  | .target t, n, h => t.shows_script h
  | .group inner, n, h => inner.shows_script h
  | .unary _ argument, n, ⟨a, hform, ha⟩ =>
    script_of_form hform ⟨rfl, rfl, rfl⟩ (by simpa using argument.shows_script ha)
  | .await argument, n, ⟨a, hform, ha⟩ =>
    script_of_form hform ⟨rfl, rfl, rfl⟩ (by simpa using argument.shows_script ha)
  | .binary operator left right, n, ⟨l, r, hform, hl, hr⟩ => by
    have hchildren := And.intro (left.shows_script hl) (right.shows_script hr)
    -- the operation is logical or binary, which its operator decides
    unfold Form.operation at hform
    split at hform
    · exact script_of_form hform ⟨rfl, rfl, rfl⟩ (by simpa using hchildren)
    · exact script_of_form hform ⟨rfl, rfl, rfl⟩ (by simpa using hchildren)
  | .conditional test consequent alternate, n, ⟨t, c, a, hform, ht, hc, ha⟩ =>
    script_of_form hform ⟨rfl, rfl, rfl⟩ (by
      simpa using ⟨test.shows_script ht, consequent.shows_script hc, alternate.shows_script ha⟩)
  | .call callee arguments _, n, ⟨c, as, hform, hc, has⟩ =>
    script_of_form hform ⟨rfl, rfl, rfl⟩
      (by simpa using ⟨callee.shows_script hc, Expression.allShow_script has⟩)
  | .construct callee arguments, n, ⟨c, as, hform, hc, has⟩ =>
    script_of_form hform ⟨rfl, rfl, rfl⟩
      (by simpa using ⟨callee.shows_script hc, Expression.allShow_script has⟩)
  | .assign _ target value, n, ⟨t, v, hform, ht, hv⟩ =>
    script_of_form hform ⟨rfl, rfl, rfl⟩
      (by simpa using ⟨target.shows_script ht, value.shows_script hv⟩)
  | .sequence first second more, n, ⟨a, b, ns, hform, ha, hb, hns⟩ =>
    script_of_form hform ⟨rfl, rfl, rfl⟩ (by
      simpa using ⟨first.shows_script ha, second.shows_script hb, Expression.allShow_script hns⟩)

/-- So is what shows a list of expressions. -/
theorem Expression.allShow_script : ∀ {es : List Expression} {ns : List Node},
    Expression.AllShow es ns → ∀ n ∈ ns, n.Script source
  | [], ns, h => by
    rw [Expression.AllShow] at h
    simp [h]
  | e :: es, _, ⟨n, ns, rfl, hn, hns⟩ =>
    List.forall_mem_cons.2 ⟨e.shows_script hn, Expression.allShow_script hns⟩

end

end

/-! ## Lines -/

/-- A line of a program: an expression, and whether there is a semicolon in front of it. -/
structure Line where
  guarded : Bool
  expression : Expression

namespace Line

variable {semi : Bool} {l : Line}

/-- How a line is written.  Where semicolons are written, one ends the line. -/
def items (semi : Bool) (l : Line) : List Item :=
  (if l.guarded then [.mark ";"] else []) ++ l.expression.items
    ++ (if semi then [.mark ";"] else [])

/-- The words at the end of a line. -/
def ending (semi : Bool) : List Word := if semi then [.mark ";"] else []

/-- The words of a line. -/
def words (semi : Bool) (l : Line) : List Word := wordsOf (l.items semi)

/-- A guarded line starts with a semicolon. -/
theorem words_of_guarded (h : l.guarded = true) :
    l.words semi = .mark ";" :: (l.expression.words ++ ending semi) := by
  cases semi <;> simp [words, items, ending, h, Item.mark, Expression.words]

/-- Another line starts with its expression. -/
theorem words_of_not_guarded (h : l.guarded = false) :
    l.words semi = l.expression.words ++ ending semi := by
  cases semi <;> simp [words, items, ending, h, Item.mark, Expression.words]

/-- The line does not go on with the line before it.  Where that one ends with a semicolon, there is
none in front of this one. -/
structure Starts (semi : Bool) (l : Line) : Prop where
  readable : l.expression.Readable
  guarded : semi = true → l.guarded = false
  free : semi = false → l.guarded = false → StartsFree l.expression.words

/-- The words of a line can be told apart. -/
theorem spelled_items (h : l.expression.Readable) : spelled (l.items semi) = true := by
  have hends : Expression.Trails (if semi then [.mark ";"] else []) := by
    cases semi with
    | false => exact ⟨rfl, rfl⟩
    | true => exact .bracket (by decide) rfl
  have hline := h.spelled_append hends
  cases hguarded : l.guarded with
  | false => simpa [items, hguarded] using hline
  | true =>
    rw [items, hguarded, if_pos rfl, List.append_assoc, List.singleton_append]
    exact (spelled_bracket (by decide)).trans hline

/-- A line has words. -/
theorem words_ne_nil (h : l.expression.Readable) : l.words semi ≠ [] := by
  obtain ⟨w, ws, hwords, -⟩ := h.opens
  cases hguarded : l.guarded with
  | false => simp [words_of_not_guarded hguarded, hwords]
  | true => simp [words_of_guarded hguarded]

/-- Without semicolons at the end, a line starts with one or with a word that goes on with nothing. -/
theorem Starts.startsFree (h : l.Starts false) : StartsFree (l.words false) := by
  cases hguarded : l.guarded with
  | false =>
    rw [words_of_not_guarded hguarded]
    exact (h.free rfl hguarded).append _
  | true => exact ⟨_, _, words_of_guarded hguarded, by decide⟩

end Line

/-- The words of lines and the end of the input. -/
def wordsOfLines (semi : Bool) (lines : List Line) : List Word :=
  (lines.map (Line.words semi)).flatten ++ [Word.eof]

/-- The words of lines come line by line. -/
theorem wordsOfLines_cons {semi : Bool} {l : Line} {lines : List Line} :
    wordsOfLines semi (l :: lines) = l.words semi ++ wordsOfLines semi lines := by
  simp [wordsOfLines]

/-- There are no more lines than words. -/
theorem length_lt_wordsOfLines {semi : Bool} {lines : List Line}
    (hlines : ∀ l ∈ lines, l.Starts semi) : lines.length < (wordsOfLines semi lines).length := by
  induction lines with
  | nil => exact Nat.one_pos
  | cons l lines ih =>
    obtain ⟨hl, hlines⟩ := List.forall_mem_cons.1 hlines
    have hmore := ih hlines
    have hpos : 0 < (l.words semi).length := List.length_pos_iff.2 (l.words_ne_nil hl.readable)
    rw [wordsOfLines_cons, List.length_append, List.length_cons]
    omega

/-- An expression of a line has no more words than the lines. -/
theorem length_words_le_of_mem (semi : Bool) {l : Line} {lines : List Line} (hl : l ∈ lines) :
    l.expression.words.length ≤ (lines.map (Line.words semi)).flatten.length := by
  have hline : l.expression.words.length ≤ (l.words semi).length := by
    cases hguarded : l.guarded with
    | false => simp [Line.words_of_not_guarded hguarded]
    | true =>
      rw [Line.words_of_guarded hguarded, List.length_cons, List.length_append]
      omega
  obtain ⟨before, behind, rfl⟩ := List.append_of_mem hl
  simp only [List.map_append, List.map_cons, List.flatten_append, List.flatten_cons,
    List.length_append]
  omega

/-- Without semicolons, what follows a line starts with a word that goes on with nothing. -/
theorem startsFree_wordsOfLines {lines : List Line} (hlines : ∀ l ∈ lines, l.Starts false) :
    StartsFree (wordsOfLines false lines) := by
  cases lines with
  | nil => exact ⟨_, _, rfl, by decide⟩
  | cons l lines =>
    rw [wordsOfLines_cons]
    exact (hlines l List.mem_cons_self).startsFree.append _

/-! ## Reading lines -/

namespace Grammar

/-- The parser stands before an expression and the end of its line, with lines behind it. -/
def OnLine (semi : Bool) (s : State) (e : Expression) (lines : List Line) : Prop :=
  ∃ us vs, s.Sees (us ++ vs) ∧ us.map Token.word = e.words ++ Line.ending semi ∧
    Lined (lines.map (Line.words semi)) vs

/-- The parser stands behind a statement and the semicolon in front of the first line, if there is a
line and a semicolon in front of it. -/
def Behind (semi : Bool) (s : State) : List Line → Prop
  | [] => Stands s [Word.eof]
  | l :: lines => OnLine semi s l.expression lines

/-- The parser stands before the first line. -/
def Before (semi : Bool) (s : State) : List Line → Prop
  | [] => Stands s [Word.eof]
  | l :: lines => ∃ us vs, s.Sees (us ++ vs) ∧ us.map Token.word = l.words semi ∧
    Lined (lines.map (Line.words semi)) vs

section

variable {semi : Bool} {parse : Rule → Parse Node} {e : Expression} {l : Line} {lines : List Line}
  {s s' : State} {us vs : List Token}

/-- Only what lies ahead matters to where a line is. -/
theorem OnLine.congr (h : OnLine semi s e lines) (hscanner : s'.scanner = s.scanner)
    (htoken : s'.token = s.token) (hend : s'.lastEnd = s.lastEnd) : OnLine semi s' e lines := by
  obtain ⟨us, vs, hsees, hus, hvs⟩ := h
  exact ⟨us, vs, hsees.congr hscanner htoken hend, hus, hvs⟩

/-- So it is behind a line. -/
theorem Behind.congr (h : Behind semi s lines) (hscanner : s'.scanner = s.scanner)
    (htoken : s'.token = s.token) (hend : s'.lastEnd = s.lastEnd) : Behind semi s' lines := by
  cases lines with
  | nil => exact Stands.congr h hscanner htoken hend
  | cons => exact OnLine.congr h hscanner htoken hend

/-- On a line, its words lie ahead, and then those of the other lines. -/
theorem OnLine.stands (h : OnLine semi s e lines) :
    Stands s (e.words ++ (Line.ending semi ++ wordsOfLines semi lines)) := by
  obtain ⟨us, vs, hsees, hus, hvs⟩ := h
  have hwords := hsees.stands
  rwa [List.map_append, hus, hvs.map_word, List.append_assoc] at hwords

/-- The first word of an expression is ahead. -/
theorem OnLine.exists_first (h : OnLine semi s e lines) (he : e.Readable) :
    ∃ w ws, Stands s (w :: ws) ∧ opensExpression w.text = true ∧ w.kind ≠ .endOfInput := by
  obtain ⟨w, ws, hwords, hw, -⟩ := he.opens
  have hstands := h.stands
  rw [hwords] at hstands
  exact ⟨w, _, hstands, hw, he.kind_ne w (by rw [hwords]; exact List.mem_cons_self)⟩

/-- Where a parser stands before the words of an expression, the end of the input is not ahead. -/
theorem OnLine.of_stands (h : e.Readable) (hus : us.map Token.word = e.words ++ Line.ending semi)
    (hvs : Lined (lines.map (Line.words semi)) vs) (hs : Stands s ((us ++ vs).map Token.word))
    (hsees : s.token.kind ≠ .endOfInput → s.Sees (us ++ vs)) : OnLine semi s e lines := by
  obtain ⟨w, ws, hwords, -⟩ := h.opens
  refine ⟨us, vs, hsees ?_, hus, hvs⟩
  rw [List.map_append, hus, hwords] at hs
  rw [hs.kind_eq]
  exact h.kind_ne w (by rw [hwords]; exact List.mem_cons_self)

/-- Where there is no semicolon in front of a line, its expression is ahead. -/
theorem Behind.of_stands (hlines : ∀ l ∈ lines, l.Starts semi)
    (hguarded : ∀ l ∈ lines.head?, l.guarded = false)
    (hvs : Lined (lines.map (Line.words semi)) vs) (hs : Stands s (vs.map Token.word))
    (hsees : s.token.kind ≠ .endOfInput → s.Sees vs) : Behind semi s lines := by
  -- the end of the file, or one more line, which has no semicolon in front
  cases lines with
  | nil =>
    have hwords := hvs.map_word
    rw [hwords] at hs
    exact hs
  | cons l lines =>
    obtain ⟨-, us, vs, rfl, hus, hvs⟩ := hvs
    rw [Line.words_of_not_guarded (hguarded l rfl)] at hus
    exact .of_stands (hlines l List.mem_cons_self).readable hus hvs hs hsees

/-- A line that ends without a semicolon ends its statement, and the next line may start with a
semicolon that ends it. -/
theorem semicolon_between {Q : Node → State → Prop} {f : Unit → Parse Node}
    (hlines : ∀ l ∈ lines, l.Starts false) (hvs : Lined (lines.map (Line.words false)) vs)
    (hs : Stands s (vs.map Token.word)) (hsees : s.token.kind ≠ .endOfInput → s.Sees vs)
    (hf : ∀ s', Behind false s' lines → Gives TooDeep (f ()) s' Q) :
    Gives TooDeep (semicolon >>= f) s Q := by
  -- the end of the file stands for the semicolon
  cases lines with
  | nil =>
    have hend : Stands s [Word.eof] := by
      have hwords := hvs.map_word
      rwa [hwords] at hs
    exact .semicolon_omitted hend (by decide) (by rw [hend.kind_eq]; rfl) (hf s hend)
  | cons l lines =>
    have hl := hlines l List.mem_cons_self
    cases hguarded : l.guarded with
    -- the line break stands for the semicolon
    | false =>
      have hbehind : Behind false s (l :: lines) :=
        .of_stands hlines (by rintro _ ⟨⟩; exact hguarded) hvs hs hsees
      obtain ⟨w, ws, hword, hw, hkind⟩ := OnLine.exists_first hbehind hl.readable
      obtain ⟨rest, hrest⟩ := (hsees (by rwa [hword.kind_eq])).exists_cons
      have hnewline : s.token.newlineBefore = true := hvs.1 _ (by rw [hrest]; rfl)
      exact .semicolon_omitted hword (Word.isOne_of_text hw (by decide))
        (by rw [hnewline, Bool.or_true]) (hf s hbehind)
    | true =>
      -- the semicolon in front of the next line is the one that ends this statement
      obtain ⟨-, us, vs, rfl, hus, hvs⟩ := hvs
      rw [Line.words_of_guarded hguarded] at hus
      obtain ⟨t, us, rfl, ht, hus⟩ := List.map_eq_cons_iff.1 hus
      have hkind : s.token.kind ≠ .endOfInput := by
        have hmark : Stands s (t.word :: (us ++ vs).map Token.word) := hs
        rw [hmark.kind_eq, ht]
        decide
      have hne : us ++ vs ≠ [] := List.append_ne_nil_of_right_ne_nil us hvs.ne_nil
      exact .semicolon_taken (hsees hkind) ht hne fun s1 h1 hsees1 =>
        hf s1 (OnLine.of_stands hl.readable hus hvs h1 hsees1)

/-- Behind an expression comes the semicolon or the end of its line. -/
theorem semicolon_line {Q : Node → State → Prop} {f : Unit → Parse Node}
    (hlines : ∀ l ∈ lines, l.Starts semi) (hus : us.map Token.word = Line.ending semi)
    (hvs : Lined (lines.map (Line.words semi)) vs) (hs : Stands s ((us ++ vs).map Token.word))
    (hsees : s.token.kind ≠ .endOfInput → s.Sees (us ++ vs))
    (hf : ∀ s', Behind semi s' lines → Gives TooDeep (f ()) s' Q) :
    Gives TooDeep (semicolon >>= f) s Q := by
  -- the statement has its own semicolon, or none
  cases semi with
  | false =>
    obtain rfl : us = [] := List.map_eq_nil_iff.1 hus
    exact semicolon_between hlines hvs hs hsees hf
  | true =>
    obtain ⟨t, us, rfl, ht, hnil⟩ := List.map_eq_cons_iff.1 hus
    obtain rfl : us = [] := List.map_eq_nil_iff.1 hnil
    have hkind : s.token.kind ≠ .endOfInput := by
      have hmark : Stands s (t.word :: vs.map Token.word) := hs
      rw [hmark.kind_eq, ht]
      decide
    refine .semicolon_taken (hsees hkind) ht hvs.ne_nil fun s1 h1 hsees1 => hf s1 ?_
    -- with semicolons behind the statements no line has one in front
    have hguarded : ∀ l ∈ lines.head?, l.guarded = false := fun l hl =>
      (hlines l (List.mem_of_mem_head? hl)).guarded rfl
    exact .of_stands hlines hguarded hvs h1 hsees1

/-- An expression and the end of its line are a statement. -/
theorem expressionStatement_line {start : Position} (hf : Follows (parse .expression) ([·]))
    (he : Recognizes (parse .expression) e 0) (hlines : ∀ l ∈ lines, l.Starts semi)
    (hs : OnLine semi s e lines) :
    Gives TooDeep (expressionStatement parse start) s fun n s' =>
      States e n ∧ Behind semi s' lines := by
  have hstands := hs.stands
  obtain ⟨us, vs, hsees, hus, hvs⟩ := hs
  obtain ⟨us, ts, rfl, hwords, hts⟩ := List.map_eq_append_iff.1 hus
  have hfree : StartsFree (Line.ending semi ++ wordsOfLines semi lines) := by
    cases semi with
    | false => exact startsFree_wordsOfLines hlines
    | true => exact ⟨_, _, rfl, by decide⟩
  obtain ⟨w, ws, hnext, hw⟩ := hfree
  rw [hnext] at hstands
  refine ((he s w ws hstands (Nat.le_of_eq hw)).with_leads (hf s hsees.ready)).bind ?_
  rintro n s1 ⟨⟨hn, h1⟩, f1⟩
  -- the words ahead do not tell where lines end, but nothing was read in another mode, so the
  -- tokens ahead are the last ones of the lines
  have hreads : Reads s s1 := f1.reads hsees.fresh (by simpa using e.shows_script hn)
  rw [List.append_assoc] at hsees
  have h1 : Stands s1 ((ts ++ vs).map Token.word) := by
    rwa [List.map_append, hts, hvs.map_word, ← wordsOfLines, hnext]
  have hne : ts ++ vs ≠ [] := List.append_ne_nil_of_right_ne_nil ts hvs.ne_nil
  refine semicolon_line hlines hts hvs h1 (hsees.of_stands hreads hne h1) fun s2 h2 => ?_
  exact .of_ok rfl ⟨⟨n, rfl, hn⟩, h2.congr rfl rfl rfl⟩

/-- A statement of a line. -/
theorem statement_line (h : e.Readable) (hf : Follows (parse .expression) ([·]))
    (he : Recognizes (parse .expression) e 0) (hlines : ∀ l ∈ lines, l.Starts semi)
    (hs : OnLine semi s e lines) :
    Gives TooDeep (statement parse) s fun n s' => States e n ∧ Behind semi s' lines := by
  obtain ⟨w, ws, hword, hw, -⟩ := hs.exists_first h
  refine statement_opens hw hword (fun _ _ _ ⟨hn, h1⟩ => ⟨hn, h1.congr rfl rfl rfl⟩)
    fun depth start => ?_
  exact expressionStatement_line hf he hlines (hs.congr rfl rfl rfl)

/-- The statements of lines, one by one. -/
theorem collect_lines {item : Parse (Node × Bool)} {n : Nat} (hlines : ∀ l ∈ lines, l.Starts semi)
    (hitem : ∀ l ∈ lines, ∀ (more : List Line) (s : State), (∀ l ∈ more, l.Starts semi) →
      OnLine semi s l.expression more →
      Gives TooDeep item s fun r s' =>
        r.2 = true ∧ States l.expression r.1 ∧ Behind semi s' more)
    (hn : lines.length < n) (hs : Behind semi s lines) :
    Gives TooDeep (collectUpTo (return !(← isAtEnd)) item n) s
      fun ns _ => List.Forall₂ States (lines.map Line.expression) ns := by
  obtain ⟨n, rfl⟩ := Nat.exists_eq_succ_of_ne_zero (Nat.ne_of_gt (Nat.zero_lt_of_lt hn))
  -- induction on the lines
  induction lines generalizing n s with
  -- nothing but the end is left
  | nil =>
    refine .look _ rfl ((not_isAtEnd_gives hs).bind ?_)
    rintro _ _ ⟨rfl, rfl⟩
    exact .pure .nil
  | cons l lines ih =>
    obtain ⟨hl, hlines⟩ := List.forall_mem_cons.1 hlines
    obtain ⟨hfirst, hitem⟩ := List.forall_mem_cons.1 hitem
    -- the line has a first word, so that the end has not come
    obtain ⟨w, ws, hword, -, hkind⟩ := OnLine.exists_first hs hl.readable
    refine .look _ rfl ((not_isAtEnd_gives hword).bind ?_)
    rintro go _ ⟨hgo, rfl⟩
    rw [hgo, bne_iff_ne.2 hkind, if_pos rfl]
    refine (hfirst lines _ hlines hs).bind ?_
    rintro ⟨statement, goOn⟩ s1 ⟨rfl, hstatement, h1⟩
    -- to note the token that was seen changes nothing that is read
    refine .bind (P := fun _ s2 => Behind semi s2 lines) (.of_ok rfl (h1.congr rfl rfl rfl))
      fun _ s2 h2 => ?_
    rw [if_pos rfl]
    rw [List.length_cons] at hn
    -- a turn is left for each of the lines behind it
    obtain ⟨n, rfl⟩ := Nat.exists_eq_succ_of_ne_zero (n := n) (by omega)
    have hmore := ih hlines hitem h2 n (by omega)
    exact hmore.bind fun ns s3 h3 => .pure (.cons hstatement h3)

/-- A rule for statements reads a line. -/
theorem statement_line_rule {fuel : Nat} (h : e.Readable) (hfuel : 8 * (e.words.length + 1) ≤ fuel)
    (hlines : ∀ l ∈ lines, l.Starts semi) (hs : OnLine semi s e lines) :
    Gives TooDeep (parseRule (fuel + 1) .statement) s fun n s' =>
      States e n ∧ Behind semi s' lines := by
  have hreads := parseRule_reads (e.words.length + 1) fuel hfuel
  have hread := hreads.expression e h (Nat.lt_succ_self _)
  have hfollows := fun before =>
    (called_follows (parseRule_follows fuel) .statement before).expression
  -- how deep the rules are nested does not tell what is on the line
  exact .look _ rfl (statement_line h (hfollows _) hread.called hlines (hs.congr rfl rfl rfl))

/-- A semicolon in front of the first line is an empty statement. -/
theorem emptyStatement_rule {fuel : Nat} (hl : l.Starts semi) (hguarded : l.guarded = true)
    (hs : Before semi s (l :: lines)) :
    Gives TooDeep (parseRule (fuel + 1) .statement) s fun n s' =>
      n.form = .emptyStatement ∧ Behind semi s' (l :: lines) := by
  obtain ⟨us, vs, hsees, hus, hvs⟩ := hs
  -- the semicolon in front of the line is the first word
  rw [Line.words_of_guarded hguarded] at hus
  obtain ⟨t, us, rfl, ht, hus⟩ := List.map_eq_cons_iff.1 hus
  have hstands : Stands s (.mark ";" :: (us ++ vs).map Token.word) := ht ▸ hsees.stands
  have hne : us ++ vs ≠ [] := List.append_ne_nil_of_right_ne_nil us hvs.ne_nil
  -- to the parser it is an empty statement
  have hempty : Gives TooDeep (parseRule (fuel + 1) .statement) s fun n s' =>
      n.form = .emptyStatement ∧ Stands s' ((us ++ vs).map Token.word) := by
    refine .look _ rfl (.noteDepth hstands fun s0 h0 =>
      .nested (fun _ h => h) h0 fun s1 h1 => .look _ rfl (.look _ rfl ?_))
    rw [h1.isOne_eq, h1.isOne_eq, if_neg (by decide), if_pos (by decide)]
    exact .skip h1 (by simpa using hne) fun s2 h2 => .node h2 fun n s3 hn h3 => ⟨hn, h3⟩
  -- the parser comes to the token behind the semicolon, in the order in which the source has them
  refine (hempty.with_leads ((parseRule_follows (fuel + 1)).statement s hsees.ready)).mono
    (fun _ h => h) ?_
  rintro n s1 ⟨⟨hn, h1⟩, f1⟩
  have hscript : n.Script s.scanner.source := script_of_form hn ⟨rfl, rfl, rfl⟩ nofun
  have hreads : Reads s s1 := f1.reads hsees.fresh (by simpa using hscript)
  have hafter : s.Sees ([t] ++ (us ++ vs)) := hsees
  exact ⟨hn, OnLine.of_stands hl.readable hus hvs h1 (hafter.of_stands hreads hne h1)⟩

/-- A statement of an expression is not empty. -/
theorem filter_states {es : List Expression} {ns : List Node} (h : List.Forall₂ States es ns) :
    ns.filter (!·.isEmptyStatement) = ns := by
  rw [List.filter_eq_self]
  intro n hn
  induction h with
  | nil => cases hn
  | cons hstates _ ih =>
    rcases List.mem_cons.1 hn with rfl | hn
    · obtain ⟨m, hform, -⟩ := hstates
      rw [Node.isEmptyStatement, hform]
      rfl
    · exact ih hn

/-- The contents of a source are the statements of its lines, behind an empty one if there is a
semicolon in front. -/
theorem contents_lines {fuel : Nat} (hlines : ∀ l ∈ lines, l.Starts semi)
    (hfuel : ∀ l ∈ lines, 8 * (l.expression.words.length + 1) ≤ fuel)
    (hs : Before semi s lines) :
    Gives TooDeep (contents false (parseRule (fuel + 1))) s fun ns _ =>
      List.Forall₂ States (lines.map Line.expression) (ns.filter (!·.isEmptyStatement)) := by
  -- the words of the lines are those that are ahead
  have hstands : Stands s (wordsOfLines semi lines) := by
    cases lines with
    | nil => exact hs
    | cons l lines =>
      obtain ⟨us, vs, hsees, hus, hvs⟩ := hs
      have hwords := hsees.stands
      rwa [List.map_append, hus, hvs.map_word, ← wordsOfLines, ← wordsOfLines_cons] at hwords
  have hroom := Nat.lt_of_lt_of_le (length_lt_wordsOfLines hlines) hstands.room
  have hitem : ∀ l ∈ lines, ∀ (more : List Line) (s : State), (∀ l ∈ more, l.Starts semi) →
      OnLine semi s l.expression more →
      Gives TooDeep (do return (← parseRule (fuel + 1) .statement, true)) s fun r s' =>
        r.2 = true ∧ States l.expression r.1 ∧ Behind semi s' more := fun l hl more s hmore hs =>
    (statement_line_rule (hlines l hl).readable (hfuel l hl) hmore hs).bind
      fun n s' h => .pure ⟨rfl, h⟩
  refine .look _ rfl ?_
  -- what the lines state remains when empty statements are taken out
  have hcollect : Behind semi s lines → Gives TooDeep _ s _ := fun hbehind =>
    (collect_lines (n := s.scanner.source.size + 2) hlines hitem (by omega) hbehind).mono
      (fun _ h => h) fun ns _ h => (filter_states h).symm ▸ h
  -- a line with a semicolon in front is an empty statement and the line
  cases lines with
  | nil => exact hcollect hs
  | cons l lines =>
    cases hguarded : l.guarded with
    | false =>
      obtain ⟨us, vs, hsees, hus, hvs⟩ := hs
      exact hcollect ⟨us, vs, hsees, Line.words_of_not_guarded hguarded ▸ hus, hvs⟩
    | true =>
      have hempty : Gives TooDeep (parseRule (fuel + 1) .statement) s fun n s' =>
          n.form = .emptyStatement ∧ Behind semi s' (l :: lines) :=
        emptyStatement_rule (hlines l List.mem_cons_self) hguarded hs
      have hmark := hstands
      rw [wordsOfLines_cons, Line.words_of_guarded hguarded] at hmark
      refine .look _ rfl ((not_isAtEnd_gives hmark).bind ?_)
      rintro _ _ ⟨rfl, rfl⟩
      refine .bind (P := fun r s' => r.2 = true ∧ r.1.isEmptyStatement = true ∧
        Behind semi s' (l :: lines)) (hempty.bind fun n s1 ⟨hn, h1⟩ => .pure ⟨rfl, ?_, h1⟩) ?_
      · rw [Node.isEmptyStatement, hn]
      rintro ⟨statement, _⟩ s1 ⟨rfl, hstatement, h1⟩
      refine .bind (P := fun _ s2 => Behind semi s2 (l :: lines))
        (.of_ok rfl (h1.congr rfl rfl rfl)) fun _ s2 h2 => ?_
      rw [if_pos rfl]
      -- the first statement is empty and falls away, the others are read as lines
      refine (collect_lines hlines hitem (by omega) h2).bind fun ns s3 h3 => .pure ?_
      rw [List.filter_cons_of_neg (by simp [hstatement]), filter_states h3]
      exact h3

/-- The words of all lines can be told apart. -/
theorem spelled_lines (hlines : ∀ l ∈ lines, l.Starts semi) :
    ∀ items ∈ lines.map (Line.items semi), spelled items = true := by
  simp only [List.forall_mem_map]
  exact fun l hl => Line.spelled_items (hlines l hl).readable

/-- A source of lines starts with the first of them. -/
theorem before_start {source : Source} (hlines : ∀ l ∈ lines, l.Starts semi)
    (hsource : source.chars = charsOfLines (lines.map (Line.items semi))) :
    ∃ token scanner, Scan.nextScript (.start source) = (.ok token, scanner) ∧
      Before semi { scanner, token } lines := by
  have hrest : (Scanner.start source).rest = charsOfLines (lines.map (Line.items semi)) :=
    (source.suffix_eq 0).trans hsource
  have hspelled := spelled_lines hlines
  -- no line, or a first one with the tokens of all the others behind
  cases lines with
  | nil =>
    have heof := Scan.nextScript_eof hrest
    exact ⟨_, _, heof, .start heof trivial (Nat.zero_le _)⟩
  | cons l lines =>
    obtain ⟨hl, hlines⟩ := List.forall_mem_cons.1 hlines
    obtain ⟨hline, hmore⟩ := List.forall_mem_cons.1 hspelled
    obtain ⟨us, vs, hleads, hus, hvs⟩ := exists_tokens_of_lines hline (by
      simp only [List.forall_mem_map] at hmore ⊢
      exact fun l' hl' => ⟨hmore l' hl', l'.words_ne_nil (hlines l' hl').readable⟩) hrest
    -- the words of the tokens, which are the words of the lines
    have hwords : (us ++ vs).map Token.word =
        (((l :: lines).map (Line.items semi)).map wordsOf).flatten ++ [Word.eof] := by
      rw [List.map_append, hus, hvs.map_word, List.map_cons, List.map_cons, List.flatten_cons,
        List.append_assoc]
    have hlength := congrArg List.length hwords
    have hroom := length_words_le_charsOfLines hspelled
    rw [← hsource, ← source.size_eq] at hroom
    rw [List.length_map, List.length_append, List.length_append, List.length_singleton] at hlength
    cases us with
    | nil => exact absurd hus.symm (l.words_ne_nil hl.readable)
    | cons t us =>
      obtain ⟨scanner, hnext, hleads⟩ := hleads
      -- there is a token for each of at most as many characters
      have hfew : (us ++ vs).length ≤ source.size := by
        rw [List.length_cons] at hlength
        rw [List.length_append]
        omega
      refine ⟨t, scanner, hnext, t :: us, vs, ?_, hus, by rwa [List.map_map] at hvs⟩
      exact .start hnext hleads (hwords ▸ endOnce_lines hspelled) hfew

/-- What is parsed of a source of lines. -/
theorem root_lines {source : Source} (hlines : ∀ l ∈ lines, l.Starts semi)
    (hsource : source.chars = charsOfLines (lines.map (Line.items semi))) :
    Gives TooDeep (root false) { scanner := .start source } fun n _ => ∃ ns,
      n.form = .program ns ∧
      List.Forall₂ States (lines.map Line.expression) (ns.filter (!·.isEmptyStatement)) := by
  obtain ⟨token, scanner, hnext, hbefore⟩ := before_start hlines hsource
  -- the fuel is enough for every line
  have henough : 8 * (source.size + 1) + 1 ≤ fuelFor source := by
    rw [fuelFor]
    omega
  obtain ⟨fuel, hf, hfuel⟩ := exists_fuel henough
  have hexpressions : ∀ l ∈ lines, 8 * (l.expression.words.length + 1) ≤ fuel := by
    intro l hl
    have hwords := length_words_le_of_mem semi hl
    have hchars := length_words_le_charsOfLines (spelled_lines hlines)
    rw [← hsource, ← source.size_eq, List.map_map] at hchars
    have hle := Nat.le_trans hwords hchars
    omega
  refine root_gives hnext ?_
  rw [hf]
  exact contents_lines hlines hexpressions hbefore

end

end Grammar

/-! ## Written lines -/

namespace Expression

/-- The statement of an expression. -/
def statement (e : Expression) : Node := .ofForm (.expressionStatement e.tree)

/-- The program of expressions. -/
def program (es : List Expression) : Node := .ofForm (.program (es.map statement))

end Expression

/-- The line of an expression whose statement stands at the path: with the parentheses that the printer
puts and, where semicolons are left out, the semicolon that it puts in front. -/
def Path.line (options : Options) (a : Attachments) (p : Path) (e : Expression) : Line :=
  let q := p.child .expression e.tree
  { guarded := !options.semi && p.statementContinuesLine options a
    expression := q.grouped (e.dressed q) }

/-- The lines of a program of expressions. -/
def linesOf (options : Options) (a : Attachments) (es : List Expression) : List Line :=
  es.zipIdx.map fun (e, i) =>
    ((Path.ofRoot (Expression.program es)).item .body i e.statement).line options a e

/-- The text of a program of expressions, each statement on a line of its own. -/
def writtenLines (options : Options) (a : Attachments) (es : List Expression) : String :=
  String.ofList (charsOfLines ((linesOf options a es).map (Line.items options.semi)))

open Grammar

section

variable {options : Options} {a : Attachments} {p : Path} {e : Expression} {es : List Expression}

/-- Lines as the printer writes them do not go on with one another. -/
theorem Path.line_starts (hp : p.node = e.statement) :
    (p.line options a e).Starts options.semi where
  readable := Path.readable_grouped (e.dressed_readable _ rfl)
  guarded hsemi := by rw [Path.line, hsemi]; rfl
  free hsemi hguarded := by
    have hcontinues : (p.child .expression e.tree).continuesLine options a = false := by
      rw [Path.line, hsemi, Path.statementContinuesLine, hp] at hguarded
      exact hguarded
    rw [Path.line, Path.grouped_of_not_continuesLine hcontinues]
    exact e.startsFree _ rfl hcontinues

/-- What shows the expression of a line shows the expression that the line is written for. -/
theorem states_of_line {n : Node} (h : States (p.line options a e).expression n) : States e n := by
  obtain ⟨m, hform, hm⟩ := h
  exact ⟨m, hform, Expression.shows_of_dressed (Path.shows_of_grouped hm)⟩

/-- The statements of the lines are statements of the expressions. -/
theorem forall₂_of_linesOf {ns : List Node}
    (h : List.Forall₂ States ((linesOf options a es).map Line.expression) ns) :
    List.Forall₂ States es ns := by
  rw [linesOf, List.map_map, List.forall₂_map_left_iff] at h
  have hall : List.Forall₂ States (es.zipIdx.map Prod.fst) ns :=
    List.forall₂_map_left_iff.2 (h.imp fun _ _ => states_of_line)
  rwa [List.zipIdx_map_fst] at hall

end

/-- With semicolons or without, what is parsed of a program of expressions that is written line by line
are statements of the expressions, one by one, up to empty statements, unless the input is nested too
deeply. -/
theorem parse_writtenLines (options : Options) (a : Attachments) (es : List Expression) :
    match parse (.ofString (writtenLines options a es)) false with
    | .ok parsed => ∃ statements, parsed.root.form = .program statements ∧
        List.Forall₂ States es (statements.filter (!·.isEmptyStatement))
    | .error fault => ∃ span, fault = .grammar .nestedTooDeeply span := by
  -- every line starts as a line does that is printed
  have hstarts : ∀ l ∈ linesOf options a es, l.Starts options.semi := by
    intro l hl
    obtain ⟨⟨e, i⟩, -, rfl⟩ := List.mem_map.1 hl
    exact Path.line_starts rfl
  have hsource : (Source.ofString (writtenLines options a es)).chars =
      charsOfLines ((linesOf options a es).map (Line.items options.semi)) := by
    rw [Source.chars_ofString, writtenLines, String.toList_ofList]
  -- the root is the program of the lines, or the parser gave up
  have hroot := root_lines hstarts hsource
  rw [parse]
  rcases hr : root false { scanner := .start (.ofString (writtenLines options a es)) } with
    ⟨fault | n, s⟩
  · exact hroot.error hr
  · obtain ⟨ns, hn, hns⟩ := hroot.ok hr
    exact ⟨ns, hn, forall₂_of_linesOf hns⟩

/-- A sign in front of an operand could continue the line before it. -/
example :
    let a : Expression := .target (.name ⟨"a", by decide⟩)
    let plus : UnaryOperator := ⟨"+", by decide⟩
    writtenLines { semi := false } {} [a, .unary plus a] = "a\n;+a\n" := by
  decide +kernel

end Reflow
