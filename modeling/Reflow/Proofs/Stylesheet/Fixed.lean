import Reflow.Proofs.Course
import Reflow.Proofs.Layout.Plain
import Reflow.Proofs.Stylesheet.Places
import Reflow.Proofs.Stylesheet.Reading

/-!
# Formatting a stylesheet twice

A formatted stylesheet is formatted already.  What is printed of a statement is read, wherever it
stands, as a statement that is printed in the same way, and so is what is printed of the statements
that follow it and of those in its block.  Blank lines are printed where the reader finds them again.
So the text is read as statements with the same document.

Three slips are excluded, each of which a statement shows by itself: brackets that are not closed where
the source ends, names of at-rules that in lower case are no such names, and commas in strings at which
the printer, who knows no backslashes, begins a line.  `Statement.isSettled` checks that there are
none.

## Key results

- `Fixed`: what is printed of a statement is read as one that is printed in the same way
- `Understood.areFixed`: so are all statements that the reader makes, if they are settled
- `read_render`: the statements that are read of a printed stylesheet
- `depthOf_of_print`: they have as many levels
- `format_again`: formatting a formatted stylesheet changes nothing
-/

namespace Reflow.Stylesheet

open Layout (Settings Indentation Puts PutsBehind)
open Text (endsBlank)

variable {cs a b rest : List Char} {c : Char} {r : Scan} {settings : Settings} {i : Indentation}
  {read statements block : List Statement} {inner : Bool} {s : Statement} {text : List Char}
  {result : List Statement × List Char}

/-! ## Settled statements -/

/-- Are the brackets closed that are opened in a statement? -/
def Statement.closesBrackets (s : Statement) : Bool :=
  (Scan.over? {} ((s.head []).flatMap Piece.written)).all (·.depth == 0)

mutual
/-- Is the statement read again as it is printed?  One that has no block closes its brackets.  The name
of an at-rule is read as its name in lower case, too.  No comma between selectors is in a string. -/
def Statement.isSettled : Statement → Bool
  | .comment .. => true
  | .declaration property value important semicolon blank =>
    (Statement.declaration property value important semicolon blank).closesBrackets
  | .atRule name params none blank =>
    keepsName name.toList && (Statement.atRule name params none blank).closesBrackets
  | .atRule name _ (some block) _ => keepsName name.toList && areSettled block
  | .rule selector block _ => !cutsString {} {} selector.toList && areSettled block

/-- Are all statements read again as they are printed? -/
def areSettled : List Statement → Bool
  | [] => true
  | s :: rest => s.isSettled && areSettled rest
end

/-! ## One statement -/

/-- What is printed of a statement is read, wherever it stands, as one that is printed in the same
way. -/
structure Fixed (settings : Settings) (i : Indentation) (s : Statement) (text : List Char) : Prop where
  puts : Puts settings i [s.print] text
  ne_nil : text ≠ []
  solid : endsBlank text = false
  rereads : ∀ (inner : Bool) (read : List Statement) (space rest : List Char),
    (∀ x ∈ space, Text.isSpace x = true) → rest.head? = some '\n' →
    ∃ s' : Statement, s'.print = s.print ∧ s'.blankBefore = isSetOff space read ∧
      ∀ result, ReadsTo inner (s' :: read) rest result →
        ReadsTo inner read (space ++ (text ++ rest)) result

/-- A text whose last character is not blank does not end with a blank line. -/
theorem endsBlank_concat (hc : Text.isBlank c = false) (cs : List Char) :
    endsBlank (cs ++ [c]) = false := by
  simp [endsBlank, hc]

/-- Nor does one whose last character is no white space. -/
theorem endsBlank_of_last (h : ∀ c ∈ text.getLast?, Text.isSpace c = false) :
    endsBlank text = false := by
  rw [endsBlank, Option.any_eq_false]
  intro c hc
  rw [Bool.eq_false_iff]
  intro hblank
  have hspace := h c hc
  rw [Text.isSpace_of_isBlank hblank] at hspace
  cases hspace

/-- A comment is kept as it is written, so it is read again as it is printed. -/
theorem fixed_comment (settings : Settings) (i : Indentation) (h : IsComment text) (blank : Bool) :
    Fixed settings i (.comment (String.ofList text) blank) text where
  puts := by
    have hputs := Puts.text settings i (String.ofList text)
    rwa [String.toList_ofList] at hputs
  ne_nil := by cases h <;> simp
  solid := by
    -- either form ends in a character that is not blank
    cases h with
    | block h =>
      obtain ⟨front, rfl⟩ := h.ends
      exact endsBlank_concat (c := '/') (by decide) ('/' :: '*' :: front)
    | @line body _ hlast =>
      apply endsBlank_of_last
      rwa [List.getLast?_cons_cons]
  -- the same comment is read, whatever stands in front of it
  rereads inner read space rest hspace hrest :=
    ⟨.comment (String.ofList text) (isSetOff space read), rfl, rfl, fun _ =>
      ReadsTo.comment hspace h hrest⟩

/-- A placeholder that stands alone, with or without a semicolon. -/
theorem fixed_placeholder (settings : Settings) (i : Indentation) (h : Begins text r)
    (halone : isPlaceholder text = true) (semicolon blank : Bool) :
    Fixed settings i (.declaration (String.ofList text) none false semicolon blank)
      (text ++ if semicolon then [';'] else []) where
  puts := by
    have hputs := Puts.text settings i (String.ofList text ++ if semicolon then ";" else "")
    cases semicolon <;> simpa [Statement.print] using hputs
  ne_nil := by simp [h.opens.ne_nil]
  solid := by
    -- a placeholder ends in its own last character
    cases semicolon with
    | true => exact endsBlank_concat (by decide) text
    | false =>
      rw [if_neg Bool.false_ne_true, List.append_nil]
      exact endsBlank_of_last (tight_of_isPlaceholder halone).last
  rereads inner read space rest hspace hrest := by
    refine ⟨.declaration (String.ofList text) none false semicolon (isSetOff space read), rfl, rfl,
      fun result hresult => ?_⟩
    -- alone on its line a placeholder ends there, and with a semicolon behind it
    cases semicolon with
    | false =>
      rw [if_neg Bool.false_ne_true, List.append_nil]
      exact hresult.placeholder hspace h halone hrest
    | true =>
      -- no bracket is open behind a placeholder
      have hdepth : r.depth = 0 := by
        have hr := h.passes
        rw [over?_placeholder halone] at hr
        cases hr
        rfl
      have hs : simpleStatement 0 (Text.trimChars text) true (isSetOff space read) =
          .ok (.declaration (String.ofList text) none false true (isSetOff space read)) := by
        rw [(tight_of_isPlaceholder halone).trimChars, simpleStatement, if_pos halone]
      exact hresult.simple hspace h hdepth hs

/-- A statement that ends with a semicolon. -/
theorem fixed_simple (hputs : Puts settings i [s.print] (text ++ [';'])) (h : Begins text r)
    (hdepth : r.depth = 0)
    (hs : ∀ blank, ∃ s', simpleStatement 0 (Text.trimChars text) true blank = .ok s' ∧
      s'.print = s.print ∧ s'.blankBefore = blank) :
    Fixed settings i s (text ++ [';']) where
  puts := hputs
  ne_nil := by simp
  solid := endsBlank_concat (by decide) text
  rereads inner read space rest hspace _ := by
    obtain ⟨s', hread, hprint, hblank⟩ := hs (isSetOff space read)
    exact ⟨s', hprint, hblank, fun result hresult => hresult.simple hspace h hdepth hread⟩

/-- A declaration is fixed when its head begins a statement and its brackets are closed: the value
that is printed is formatted to itself. -/
theorem fixed_declaration {head property value : List Char} {important : Bool} (semicolon blank : Bool)
    (hbegins : Begins head r) (hrule : isAtRule head = false)
    (h : Declares head property value important)
    (hsettled : (Statement.declaration (String.ofList property) (some (String.ofList value)) important
      semicolon blank).closesBrackets = true) :
    Fixed settings i (.declaration (String.ofList property) (some (String.ofList value)) important
      semicolon blank) (declarationHead property value important ++ [';']) := by
  -- the printed head passes over as the text does, and leaves the same brackets open
  obtain ⟨r', hprinted, hdepth⟩ := begins_declaration hbegins hrule h
  refine fixed_simple ?_ hprinted (hdepth.trans ?_) fun blank =>
    simpleStatement_declaration hrule h 0 blank
  · rw [Statement.print, printDeclaration_eq]
    -- the texts of the document, one after the other
    have hputs := Puts.texts settings i [String.ofList (Piece.property property).printed, ":",
      String.ofList (spaced (printedValue (Piece.property property).printed value)),
      if important then " !important" else "", ";"]
    have htexts : declarationHead property value important ++ [';'] =
        [String.ofList (Piece.property property).printed, ":",
          String.ofList (spaced (printedValue (Piece.property property).printed value)),
          if important then " !important" else "", ";"].flatMap String.toList := by
      cases important <;> simp [declarationHead]
    rw [htexts]
    exact hputs.cat
  · -- the mark of importance is neutral, so the brackets are those of name and value
    have hmark : ∀ c ∈ if important then ['!'] else [], isNeutral c = true := by
      cases important
      · exact List.forall_mem_nil _
      · exact Text.forall_mem_of_all (by decide)
    have hgap : ∀ c ∈ [], isNeutral c = true := List.forall_mem_nil _
    obtain ⟨t, ht, hcalm⟩ := h.passed (.refl property) hgap (.refl _) hmark
      (by cases important <;> simp) {} r hbegins.passes
    have hwritten : ((Statement.declaration (String.ofList property) (some (String.ofList value))
        important semicolon blank).head []).flatMap Piece.written =
        property ++ ':' :: ([] ++ (value ++ if important then ['!'] else [])) := by
      cases important <;> simp [Statement.head, Piece.written]
    -- that the statement is settled says that they are closed
    rw [Statement.closesBrackets, hwritten, ht] at hsettled
    rw [← Scan.depth_calm, ← hcalm, Scan.depth_calm]
    simpa using hsettled

/-- White space between the name of an at-rule and its parameters means nothing. -/
theorem over?_atRule {head : List Char} {name params : String} (hrule : isAtRule head = true)
    (hsplit : splitAtRule head = (name, params)) (h : Scan.over? {} head = some r) :
    Scan.over? {} ('@' :: (name.toList ++ params.toList)) = some r := by
  obtain ⟨space, rfl, hspace, hname⟩ := splitAtRule_split hrule hsplit
  by_cases hnone : space = []
  · rwa [hnone] at h
  · obtain ⟨-, hchars⟩ := hname.resolve_right fun hother => hnone hother.1
    have hneutral : ∀ c ∈ '@' :: name.toList, isNeutral c = true :=
      List.forall_mem_cons.2 ⟨by decide, fun c hc => isNeutral_of_isNameChar (hchars c hc)⟩
    rw [← List.cons_append, Scan.over?_neutrals hneutral (by simp)] at h ⊢
    exact Scan.over?_quiet (fun x hx => isQuiet_of_isSpace (hspace x hx)) hnone h

/-- An at-rule without a block is fixed when its brackets are closed. -/
theorem fixed_atRule {head : List Char} {name params : String} (blank : Bool)
    (hbegins : Begins head r) (htight : Text.Tight head) (hrule : isAtRule head = true)
    (hsplit : splitAtRule head = (name, params))
    (hsettled : (Statement.atRule name params none blank).isSettled = true) :
    Fixed settings i (.atRule name params none blank) ((atRuleHead name params).toList ++ [';']) := by
  -- the name is kept by lower case, and the brackets are closed
  rw [Statement.isSettled, Bool.and_eq_true] at hsettled
  obtain ⟨hkeeps, hclosed⟩ := hsettled
  obtain ⟨r', hprinted, hdepth⟩ := begins_atRule hbegins hrule hsplit hkeeps
  obtain ⟨halone, hagain, name', params', hread, hhead⟩ :=
    splitAtRule_printed htight hrule hsplit hkeeps
  refine fixed_simple ?_ hprinted (hdepth.trans ?_) fun blank =>
    ⟨.atRule name' params' none blank, ?_, ?_, rfl⟩
  · have hputs := Puts.text settings i (atRuleHead name params ++ ";")
    simpa [Statement.print] using hputs
  · -- the brackets of the rule are those of its name and parameters
    have hwritten : ((Statement.atRule name params none blank).head []).flatMap Piece.written =
        '@' :: (name.toList ++ params.toList) := by
      simp [Statement.head, Piece.written]
    rw [Statement.closesBrackets, hwritten, over?_atRule hrule hsplit hbegins.passes] at hclosed
    simpa using hclosed
  · -- the head that is printed is read as a rule of the same head
    rw [simpleStatement, halone, hagain, hread]
    rfl
  · rw [Statement.print, Statement.print, hhead]

/-! ## Blocks -/

/-- What is printed of the statements at the start of a block, or of a stylesheet, is read as
statements that are printed in the same way. -/
structure FixedFirst (settings : Settings) (i : Indentation) (statements : List Statement)
    (text : List Char) : Prop where
  puts : Puts settings i (printFirst statements) text
  ne_nil : text ≠ []
  solid : endsBlank text = false
  rereads : ∀ (inner : Bool) (space rest : List Char),
    (∀ x ∈ space, Text.isSpace x = true) → rest.head? = some '\n' →
    ∃ again : List Statement, printFirst again = printFirst statements ∧
      ∀ result, ReadsTo inner again.reverse rest result →
        ReadsTo inner [] (space ++ (text ++ rest)) result

/-- So is what is printed of the statements that follow another. -/
structure FixedFollowing (settings : Settings) (i : Indentation) (statements : List Statement)
    (text : List Char) : Prop where
  puts : PutsBehind settings i (printFollowing statements) text
  solid : endsBlank text = false
  head : ∀ rest : List Char, rest.head? = some '\n' → (text ++ rest).head? = some '\n'
  rereads : ∀ (inner : Bool) (read : List Statement) (rest : List Char), read ≠ [] →
    rest.head? = some '\n' →
    ∃ again : List Statement, printFollowing again = printFollowing statements ∧
      ∀ result, ReadsTo inner (again.reverse ++ read) rest result →
        ReadsTo inner read (text ++ rest) result

/-- No statements follow: nothing is printed. -/
theorem fixedFollowing_nil (settings : Settings) (i : Indentation) :
    FixedFollowing settings i [] [] where
  puts := PutsBehind.nil settings i
  solid := rfl
  head _ hrest := hrest
  rereads _ _ _ _ _ := ⟨[], rfl, fun _ h => h⟩

/-- What stands between two statements. -/
def gapBefore (s : Statement) (margin : List Char) : List Char :=
  if s.blankBefore then '\n' :: '\n' :: margin else '\n' :: margin

section Gap

variable {margin : List Char}

/-- Only white space stands between two statements. -/
theorem isSpace_gapBefore (hmargin : ∀ c ∈ margin, Text.isBlank c = true) (s : Statement) :
    ∀ c ∈ gapBefore s margin, Text.isSpace c = true := by
  have hspace : ∀ c ∈ margin, Text.isSpace c = true :=
    fun c hc => Text.isSpace_of_isBlank (hmargin c hc)
  have hline : Text.isSpace '\n' = true := rfl
  unfold gapBefore
  split
  · simpa [hline] using hspace
  · simpa [hline] using hspace

/-- A statement is set off by the gap in front of it as it was set off before. -/
theorem isSetOff_gapBefore (hmargin : ∀ c ∈ margin, Text.isBlank c = true) (s : Statement)
    (hread : read ≠ []) : isSetOff (gapBefore s margin) read = s.blankBefore := by
  have hcount : margin.count '\n' = 0 := by
    rw [List.count_eq_zero]
    intro hmem
    exact absurd (hmargin _ hmem) (by decide)
  unfold isSetOff gapBefore
  split <;> rename_i hblank
  · simp [hcount, hread, hblank]
  · simp [hcount, hblank]

/-- It starts with a line feed, which ends a comment in front of it. -/
theorem head?_gapBefore (s : Statement) (margin back : List Char) :
    (gapBefore s margin ++ back).head? = some '\n' := by
  unfold gapBefore
  split <;> rfl

/-- A statement that ends in a character that is not blank ends solidly behind the gap, too. -/
theorem endsBlank_gapBefore (s : Statement) (margin : List Char) (hne : text ≠ [])
    (hsolid : endsBlank text = false) : endsBlank (gapBefore s margin ++ text) = false := by
  rwa [Layout.endsBlank_append_of_ne_nil hne]

end Gap

/-- The lines in front of a statement depend on whether a blank line is in front of it only. -/
theorem separatorBefore_congr {s' : Statement} (h : s'.blankBefore = s.blankBefore) :
    separatorBefore s' = separatorBefore s := by
  rw [separatorBefore, separatorBefore, h]

/-- A fixed statement in front of fixed ones: the gap before it is read as the blank line that it
had. -/
theorem FixedFollowing.cons {back : List Char} (hi : i.IsPlain) (hs : Fixed settings i s text)
    (hrest : FixedFollowing settings i statements back) :
    FixedFollowing settings i (s :: statements)
      (gapBefore s (i.margin settings).text.toList ++ (text ++ back)) where
  puts := by
    have hbehind := hs.puts.append_behind hs.ne_nil hs.solid hrest.puts
    have hmargin := hi.margin settings
    rw [printFollowing, separatorBefore, gapBefore]
    split
    · exact (PutsBehind.emptyLine hmargin).append_puts hbehind
    · exact (PutsBehind.hardline settings i).append_puts hbehind
  solid := endsBlank_gapBefore s _ (by simp [hs.ne_nil])
    (Layout.endsBlank_append_of_not hs.solid hrest.solid)
  head rest _ := by
    rw [List.append_assoc]
    exact head?_gapBefore ..
  rereads inner read rest hread hline := by
    have hmargin := hi.margin settings
    -- first the statement is read again, and then those that follow it
    obtain ⟨s', hprint, hblank, hone⟩ := hs.rereads inner read _ (back ++ rest)
      (isSpace_gapBefore hmargin s) (hrest.head rest hline)
    obtain ⟨again, hagain, hmore⟩ := hrest.rereads inner (s' :: read) rest (by simp) hline
    rw [isSetOff_gapBefore hmargin s hread] at hblank
    refine ⟨s' :: again, ?_, fun result hresult => ?_⟩
    · rw [printFollowing, printFollowing, separatorBefore_congr hblank, hprint, hagain]
    · rw [List.append_assoc, List.append_assoc]
      apply hone
      apply hmore
      simpa using hresult

/-- The first statement of a block has no gap in front of it. -/
theorem FixedFollowing.first {back : List Char} (hs : Fixed settings i s text)
    (hrest : FixedFollowing settings i statements back) :
    FixedFirst settings i (s :: statements) (text ++ back) where
  puts := hs.puts.append_behind hs.ne_nil hs.solid hrest.puts
  ne_nil := by simp [hs.ne_nil]
  solid := Layout.endsBlank_append_of_not hs.solid hrest.solid
  rereads inner space rest hspace hline := by
    -- the first statement is read, and then those that follow it behind it
    obtain ⟨s', hprint, -, hone⟩ := hs.rereads inner [] space (back ++ rest) hspace
      (hrest.head rest hline)
    obtain ⟨again, hagain, hmore⟩ := hrest.rereads inner [s'] rest (by simp) hline
    refine ⟨s' :: again, ?_, fun result hresult => ?_⟩
    · rw [printFirst, printFirst, hprint, hagain]
    · rw [List.append_assoc]
      apply hone
      apply hmore
      simpa using hresult

/-- The line feed and the margin in front of a line. -/
def lineAt (settings : Settings) (i : Indentation) : List Char :=
  '\n' :: (i.margin settings).text.toList

/-- A line feed and a margin are white space. -/
theorem isSpace_lineAt (settings : Settings) (hi : i.IsPlain) :
    ∀ c ∈ lineAt settings i, Text.isSpace c = true :=
  List.forall_mem_cons.2 ⟨rfl, fun c hc => Text.isSpace_of_isBlank (hi.margin settings c hc)⟩

/-- What is printed of a block behind its brace is read up to its end as statements that are printed in
the same way. -/
structure FixedBlock (settings : Settings) (i : Indentation) (statements : List Statement)
    (text : List Char) : Prop where
  puts : Puts settings i [printBlock (printFirst statements)] ('\x7b' :: text)
  solid : endsBlank ('\x7b' :: text) = false
  rereads : ∀ rest : List Char, ∃ again : List Statement,
    printFirst again = printFirst statements ∧ ReadsTo true [] (text ++ rest) (again, rest)

/-- A block without statements is a line feed and the closing brace. -/
theorem fixedBlock_nil (hi : i.IsPlain) :
    FixedBlock settings i [] (lineAt settings i ++ ['\x7d']) where
  puts := by
    have hbrace := Puts.text settings i "\x7b"
    -- between the braces there is the line end only
    have hend := (PutsBehind.hardline settings i).append_puts (Puts.text settings i "\x7d")
    exact (hbrace.append_behind (by simp) (by decide) hend).cat
  solid := by
    rw [← List.cons_append]
    exact endsBlank_concat (by decide) _
  rereads rest := by
    refine ⟨[], rfl, ?_⟩
    rw [List.append_assoc]
    exact ReadsTo.closes (isSpace_lineAt settings hi) [] rest

/-- The statements of a block stand between two line ends. -/
theorem FixedFirst.inBlock (hi : i.IsPlain) (hne : statements ≠ [])
    (h : FixedFirst settings i.indent statements text) :
    FixedBlock settings i statements
      (lineAt settings i.indent ++ text ++ (lineAt settings i ++ ['\x7d'])) where
  puts := by
    have hbrace := Puts.text settings i "\x7b"
    have hbody := ((PutsBehind.hardline settings i.indent).append_puts h.puts.cat).cat.indent
    have hend := (PutsBehind.hardline settings i).append_puts (Puts.text settings i "\x7d")
    -- the body is not blank at its end, so the line end before the brace stays
    have hsolid : endsBlank (lineAt settings i.indent ++ text) = false := by
      rw [Layout.endsBlank_append_of_ne_nil h.ne_nil, h.solid]
    obtain ⟨s, rest, rfl⟩ := List.exists_cons_of_ne_nil hne
    exact (hbrace.append_behind (by simp) (by decide) (hbody.append hsolid hend)).cat
  solid := by
    rw [← List.cons_append, ← List.append_assoc]
    exact endsBlank_concat (by decide) _
  rereads rest := by
    -- the line end behind the brace is white space in front of the first statement
    obtain ⟨again, hagain, hread⟩ := h.rereads true (lineAt settings i.indent)
      (lineAt settings i ++ '\x7d' :: rest) (isSpace_lineAt settings hi.indent) rfl
    refine ⟨again, hagain, ?_⟩
    -- the block is read up to its closing brace
    have hend := ReadsTo.closes (isSpace_lineAt settings hi) again.reverse rest
    rw [List.reverse_reverse] at hend
    have hall := hread _ hend
    simpa using hall

/-- A statement that has a block. -/
theorem fixed_block {head body : List Char} {headDocs : List Doc}
    (hbody : FixedBlock settings i block body) (hhead : Puts settings i headDocs head)
    (hprint : s.print = .cat (headDocs ++ [.text " ", printBlock (printFirst block)]))
    (hbegins : Begins head r) (hdepth : r.depth = 0)
    (hs : ∀ again blank, printFirst again = printFirst block → ∃ s',
      blockStatement 0 (Text.trimChars head) again blank = .ok s' ∧ s'.print = s.print ∧
        s'.blankBefore = blank) :
    Fixed settings i s (head ++ " \x7b".toList ++ body) where
  puts := by
    -- the head, a space and the block
    have hall := (hhead.append ((Puts.text settings i " ").append hbody.puts)).cat
    rw [hprint]
    simpa using hall
  ne_nil := by simp
  solid := by
    have hsplit : head ++ " \x7b".toList ++ body = (head ++ [' ']) ++ '\x7b' :: body := by simp
    rw [hsplit, Layout.endsBlank_append_of_ne_nil (by simp)]
    exact hbody.solid
  -- the head is read as a head, and the block as the block that is printed in the same way
  rereads inner read space rest hspace hline := by
    obtain ⟨again, hagain, hblock⟩ := hbody.rereads rest
    obtain ⟨s', hread, hprint, hblank⟩ := hs again (isSetOff space read) hagain
    exact ⟨s', hprint, hblank, fun result hresult =>
      ReadsTo.block hspace hbegins hdepth hblock hread hresult⟩

/-- An at-rule with a block is fixed when its block is, and when its name is read as its name again.
-/
theorem fixed_atRuleBlock {head body : List Char} {name params : String} (blank : Bool)
    (hbegins : Begins head r) (hdepth : r.depth = 0) (htight : Text.Tight head)
    (hrule : isAtRule head = true) (hsplit : splitAtRule head = (name, params))
    (hkeeps : keepsName name.toList = true) (hbody : FixedBlock settings i block body) :
    Fixed settings i (.atRule name params (some block) blank)
      ((atRuleHead name params).toList ++ " \x7b".toList ++ body) := by
  -- the head begins a statement again, and is cut into the same name and parameters
  obtain ⟨r', hprinted, hdepth'⟩ := begins_atRule hbegins hrule hsplit hkeeps
  obtain ⟨-, hagain, name', params', hread, hhead⟩ :=
    splitAtRule_printed htight hrule hsplit hkeeps
  refine fixed_block hbody (Puts.text settings i _) (by rw [Statement.print]; rfl) hprinted
    (hdepth'.trans hdepth) fun again blank hsame =>
      ⟨.atRule name' params' (some again) blank, ?_, ?_, rfl⟩
  · rw [blockStatement, hagain, hread]
    rfl
  · rw [Statement.print, Statement.print, hhead, hsame]

/-- The selectors of a rule are put one below the other. -/
theorem puts_selectors (settings : Settings) (i : Indentation) (selector : String) :
    Puts settings i [.join (.cat [",", .hardline]) ((formatSelector selector).map .text)]
      (selectorHead (i.margin settings).text.toList selector.toList) := by
  have hcomma := ((Puts.text settings i ",").append_behind (by simp) (by decide)
    (PutsBehind.hardline settings i)).cat
  have hall := hcomma.join (formatSelector selector)
  simpa [formatSelector, selectorHead, Function.comp_def] using hall

/-- A rule is fixed when its block is, and when no comma between its selectors is in a string. -/
theorem fixed_rule {head body : List Char} (hi : i.IsPlain) (blank : Bool)
    (hbegins : Begins head r) (hdepth : r.depth = 0) (hrule : isAtRule head = false)
    (hcut : cutsString {} {} head = false) (hbody : FixedBlock settings i block body) :
    Fixed settings i (.rule (String.ofList head) block blank)
      (selectorHead (i.margin settings).text.toList head ++ " \x7b".toList ++ body) := by
  -- the margin in front of the other selectors is white space
  have hmargin : ∀ c ∈ (i.margin settings).text.toList, Text.isSpace c = true :=
    fun c hc => Text.isSpace_of_isBlank (hi.margin settings c hc)
  obtain ⟨r', hprinted, hdepth'⟩ := begins_selectors hbegins hcut hmargin
  obtain ⟨hagain, hne⟩ := selectorHead_read hbegins.opens hrule hmargin
  -- the selectors are put below one another, and read as one text
  have hputs := puts_selectors settings i (String.ofList head)
  rw [String.toList_ofList] at hputs
  refine fixed_block hbody hputs (by rw [Statement.print]; rfl) hprinted
    (hdepth'.trans hdepth) fun again blank hsame =>
      ⟨.rule (String.ofList (Text.trimChars (selectorHead (i.margin settings).text.toList head))) again
        blank, ?_, ?_, rfl⟩
  · -- the selectors are no at-rule, and there is something of them
    rw [blockStatement, hagain, if_neg Bool.false_ne_true, if_neg (by simpa using hne)]
  · rw [Statement.print, Statement.print, formatSelector_printed head hmargin, hsame]

/-! ## All statements -/

/-- What is printed of fixed statements between braces is a fixed block, whether there are any or
not. -/
theorem exists_fixedBlock (hi : i.IsPlain)
    (h : statements ≠ [] → ∃ text, FixedFirst settings i.indent statements text) :
    ∃ text, FixedBlock settings i statements text := by
  by_cases hne : statements = []
  · rw [hne]
    exact ⟨_, fixedBlock_nil hi⟩
  · obtain ⟨text, htext⟩ := h hne
    exact ⟨_, htext.inBlock hi hne⟩

/-- The statements are read again as they are printed, at the start of a block and behind others. -/
def AreFixed (settings : Settings) (i : Indentation) (statements : List Statement) : Prop :=
  (statements ≠ [] → ∃ text, FixedFirst settings i statements text) ∧
    ∃ text, FixedFollowing settings i statements text

/-- A fixed statement in front of fixed statements. -/
theorem AreFixed.cons (hi : i.IsPlain) (hs : Fixed settings i s text)
    (hrest : AreFixed settings i statements) : AreFixed settings i (s :: statements) := by
  obtain ⟨-, back, hback⟩ := hrest
  exact ⟨fun _ => ⟨_, hback.first hs⟩, ⟨_, hback.cons hi hs⟩⟩

/-- What a statement without a block is made of. -/
theorem simpleStatement_cases {start : Nat} {semicolon blank : Bool}
    (h : simpleStatement start text semicolon blank = .ok s) :
    (isPlaceholder text = true ∧ s = .declaration (String.ofList text) none false semicolon blank) ∨
    (isAtRule text = true ∧ ∃ name params, splitAtRule text = (name, params) ∧
      s = .atRule name params none blank) ∨
    (isAtRule text = false ∧ ∃ property value before important,
      splitColon? text = some (property, value) ∧ splitImportant value = (before, important) ∧
      s = .declaration (String.ofList (Text.trimChars property))
        (some (String.ofList (Text.trimChars before))) important true blank) := by
  -- a placeholder, an at-rule or a declaration
  unfold simpleStatement at h
  split at h
  · rename_i halone
    cases h
    exact .inl ⟨halone, rfl⟩
  split at h
  · rename_i hrule
    cases h
    exact .inr (.inl ⟨hrule, _, _, rfl, rfl⟩)
  · rename_i hrule
    split at h
    · cases h
    · rename_i property value hcolon
      cases h
      refine .inr (.inr ⟨by simpa using hrule, property, value, _, _, hcolon, rfl, ?_⟩)
      simp [Text.trim]

/-- What a statement with a block is made of. -/
theorem blockStatement_cases {start : Nat} {blank : Bool}
    (h : blockStatement start text block blank = .ok s) :
    (isAtRule text = true ∧ ∃ name params, splitAtRule text = (name, params) ∧
      s = .atRule name params (some block) blank) ∨
    (isAtRule text = false ∧ s = .rule (String.ofList text) block blank) := by
  -- an at-rule or a rule
  unfold blockStatement at h
  split at h
  · rename_i hrule
    cases h
    exact .inl ⟨hrule, _, _, rfl, rfl⟩
  · rename_i hrule
    split at h
    · cases h
    · cases h
      exact .inr ⟨by simpa using hrule, rfl⟩

/-- Settled statements that the reader understands are read again as they are printed. -/
theorem Understood.areFixed (settings : Settings) (h : Understood statements)
    (hsettled : areSettled statements = true) (hi : i.IsPlain) : AreFixed settings i statements := by
  -- by induction on how the statements were read
  induction h generalizing i with
  | nil => exact ⟨fun hne => absurd rfl hne, _, fixedFollowing_nil settings i⟩
  | comment htext _ ih =>
    rw [areSettled, Bool.and_eq_true] at hsettled
    exact (ih hsettled.2 hi).cons hi (fixed_comment settings i htext _)
  | simple hbegins htight hs _ ih =>
    rw [areSettled, Bool.and_eq_true] at hsettled
    obtain ⟨hone, hmore⟩ := hsettled
    have hrest := ih hmore hi
    -- by the kind of the statement
    rcases simpleStatement_cases hs with ⟨halone, rfl⟩ | ⟨hrule, name, params, hsplit, rfl⟩ |
      ⟨hrule, property, value, before, important, hcolon, himportant, rfl⟩
    · exact hrest.cons hi (fixed_placeholder settings i hbegins halone _ _)
    · exact hrest.cons hi (fixed_atRule _ hbegins htight hrule hsplit hone)
    · have hdeclares := declares_of_split htight hcolon himportant
      exact hrest.cons hi (fixed_declaration true _ hbegins hrule hdeclares hone)
  | block hbegins htight hdepth hs _ _ ihblock ih =>
    rw [areSettled, Bool.and_eq_true] at hsettled
    obtain ⟨hone, hmore⟩ := hsettled
    have hrest := ih hmore hi
    rcases blockStatement_cases hs with ⟨hrule, name, params, hsplit, rfl⟩ | ⟨hrule, rfl⟩
    · -- the block is fixed one level further in
      rw [Statement.isSettled, Bool.and_eq_true] at hone
      obtain ⟨body, hbody⟩ := exists_fixedBlock hi (ihblock hone.2 hi.indent).1
      exact hrest.cons hi (fixed_atRuleBlock _ hbegins hdepth htight hrule hsplit hone.1 hbody)
    · rw [Statement.isSettled, Bool.and_eq_true, String.toList_ofList] at hone
      obtain ⟨body, hbody⟩ := exists_fixedBlock hi (ihblock hone.2 hi.indent).1
      exact hrest.cons hi (fixed_rule hi _ hbegins hdepth hrule (by simpa using hone.1) hbody)

/-! ## Formatting -/

/-- What is printed of a stylesheet is put behind nothing. -/
theorem typesets_print (h : FixedFirst settings {} statements text) (hne : statements ≠ []) :
    Layout.Typesets settings {} [] [print statements] (text ++ ['\n']) := by
  obtain ⟨s, rest, rfl⟩ := List.exists_cons_of_ne_nil hne
  have hend : PutsBehind settings {} [Doc.hardline] ['\n'] := PutsBehind.hardline settings {}
  exact (h.puts.cat.append_behind h.ne_nil h.solid hend).cat []

/-- Every statement of a stylesheet was made by the reader of a comment or of a text that begins a
statement. -/
theorem understood_of_read {source : Source} (h : Stylesheet.read source = .ok statements) :
    Understood statements := by
  unfold Stylesheet.read at h
  split at h
  · rename_i hstatements
    cases h
    obtain ⟨new, rfl, hnew⟩ := readStatements_understood hstatements
    exact hnew
  · cases h

/-- What is printed of settled statements is read as statements that are printed in the same way. -/
theorem read_render {source : Source} (settings : Settings)
    (hread : Stylesheet.read source = .ok statements) (hsettled : areSettled statements = true) :
    ∃ again, Stylesheet.read (.ofString (Layout.render settings (print statements))) = .ok again ∧
      print again = print statements := by
  -- an empty sheet prints nothing and is read as nothing
  by_cases hne : statements = []
  · subst hne
    refine ⟨[], ?_, rfl⟩
    have hempty : Layout.render settings (print []) = "" := by
      apply String.toList_inj.1
      exact Layout.toList_render (Puts.text settings {} "" [])
    rw [hempty]
    rfl
  have hplain : Indentation.IsPlain {} := fun _ => List.not_mem_nil
  obtain ⟨text, hfirst⟩ := ((understood_of_read hread).areFixed settings hsettled hplain).1 hne
  obtain ⟨again, hagain, hreads⟩ := hfirst.rereads false [] ['\n'] (List.forall_mem_nil _) rfl
  -- behind the last statement there is the line feed at the end of the text
  have hends : ReadsTo false again.reverse ['\n'] (again, []) := by
    have hline : ∀ c ∈ ['\n'], Text.isSpace c = true := List.forall_mem_singleton.2 rfl
    have hends := ReadsTo.ends hline again.reverse
    rwa [List.reverse_reverse] at hends
  have hchars : (Source.ofString (Layout.render settings (print statements))).chars =
      text ++ ['\n'] := Layout.toList_render (typesets_print hfirst hne)
  generalize Source.ofString (Layout.render settings (print statements)) = printed at hchars
  -- the room that the reader has is more than the text is long
  obtain ⟨offset, hall⟩ := hreads _ hends none 0 (printed.size + 1) rfl
    (by simp [Source.size_eq, hchars])
  refine ⟨again, ?_, ?_⟩
  · rw [List.nil_append, ← hchars] at hall
    unfold Stylesheet.read
    rw [hall]
  · -- both print something
    obtain ⟨s, rest, rfl⟩ := List.exists_cons_of_ne_nil hne
    cases again with
    | nil => cases hagain
    | cons s' rest' => exact congrArg (fun docs => Doc.cat [Doc.cat docs, .hardline]) hagain

/-! ### How deep the document is

The document of statements shows how many levels of them there are.  So the stack that holds the calls
for the statements that were formatted holds those for the statements that are read of the text. -/

mutual
/-- How many blocks are nested in a document of statements. -/
def blocks : Doc → Nat
  | .indent body => blocks body + 1
  | .concat parts => blocksOf parts
  | _ => 0

/-- How many blocks are nested in the documents of statements. -/
def blocksOf : List Doc → Nat
  | [] => 0
  | d :: rest => max (blocks d) (blocksOf rest)
end

/-- The depth of documents behind one another is that of the deepest. -/
theorem blocksOf_append (ds es : List Doc) :
    blocksOf (ds ++ es) = max (blocksOf ds) (blocksOf es) := by
  induction ds with
  | nil => simp [blocksOf]
  | cons d rest ih => rw [List.cons_append, blocksOf, blocksOf, ih, Nat.max_assoc]

/-- An empty document has no blocks. -/
theorem blocks_of_isEmpty {d : Doc} (h : d.isEmpty = true) : blocks d = 0 := by
  unfold Doc.isEmpty at h
  split at h
  · rfl
  · rfl
  · cases h

/-- The depth of a concatenation is that of its parts. -/
@[simp]
theorem blocks_cat (ds : List Doc) : blocks (.cat ds) = blocksOf ds := by
  show blocksOf (ds.filter fun d => !d.isEmpty) = blocksOf ds
  induction ds with
  | nil => rfl
  | cons d rest ih =>
    cases hd : d.isEmpty with
    | true => rw [List.filter_cons_of_neg (by simp [hd]), ih, blocksOf, blocks_of_isEmpty hd, Nat.zero_max]
    | false => rw [List.filter_cons_of_pos (by simp [hd]), blocksOf, blocksOf, ih]

/-- The lines of a selector hold no blocks. -/
theorem blocks_selectors (separator : List Doc) (h : blocksOf separator = 0) (lines : List String) :
    blocks (.join (.cat separator) (lines.map .text)) = 0 := by
  show blocks (.cat ((lines.map Doc.text).intersperse (.cat separator))) = 0
  rw [blocks_cat]
  induction lines with
  | nil => rfl
  | cons line rest ih =>
    cases rest with
    | nil => rfl
    | cons second rest =>
      rw [List.map_cons, List.map_cons, List.intersperse_cons_cons, blocksOf, blocksOf, blocks_cat, h]
      simpa [blocks] using ih

/-- A block that is not empty is one level deeper than what is in it. -/
theorem blocks_printBlock (ds : List Doc) :
    blocks (printBlock ds) = if ds.isEmpty then 0 else blocksOf ds + 1 := by
  have hline : blocks Doc.hardline = 0 := rfl
  unfold printBlock
  split <;> simp [blocks, blocksOf, hline]

/-- The lines between statements have no blocks. -/
theorem blocksOf_separatorBefore (s : Statement) : blocksOf (separatorBefore s) = 0 := by
  unfold separatorBefore
  split <;> rfl

mutual
/-- The document of a statement has as many blocks as the statement has levels below it. -/
theorem blocks_print (s : Statement) : blocks s.print = s.depth := by
  -- only a block adds a level
  cases s with
  | comment text blank => rfl
  | declaration property value important semicolon blank =>
    cases value with
    | none => rfl
    | some value => rw [Statement.print, printDeclaration, blocks_cat]; rfl
  | atRule name params block blank =>
    cases block with
    | none => rfl
    | some block =>
      have hblock := blocks_printBlock_printFirst block
      simp [Statement.print, Statement.depth, blocksOf, blocks, hblock]
  | rule selector block blank =>
    have hblock := blocks_printBlock_printFirst block
    have hselectors := blocks_selectors [",", .hardline] rfl (formatSelector selector)
    simp [Statement.print, Statement.depth, blocksOf, blocks, hblock, hselectors]

/-- The document of a block is as deep as its statements are. -/
theorem blocks_printBlock_printFirst (block : List Statement) :
    blocks (printBlock (printFirst block)) = depthOf block := by
  rw [blocks_printBlock]
  cases block with
  | nil => rfl
  | cons s rest =>
    have hs := blocks_print s
    have hrest := blocksOf_printFollowing rest
    simp only [printFirst, List.isEmpty_cons, blocksOf, depthOf, hs]
    simp
    omega

/-- What is printed of the statements behind another has one block less than there are levels. -/
theorem blocksOf_printFollowing (statements : List Statement) :
    blocksOf (printFollowing statements) = depthOf statements - 1 := by
  cases statements with
  | nil => rfl
  | cons s rest =>
    have hs := blocks_print s
    have hrest := blocksOf_printFollowing rest
    rw [printFollowing, blocksOf_append, blocksOf_separatorBefore, blocksOf, hs, hrest, depthOf]
    omega
end

/-- A stylesheet that is not empty has one level more than its document has blocks. -/
theorem depthOf_cons (s : Statement) (rest : List Statement) :
    depthOf (s :: rest) = blocks (print (s :: rest)) + 1 := by
  have hline : blocks Doc.hardline = 0 := rfl
  rw [← blocks_printBlock_printFirst, blocks_printBlock]
  simp [print, printFirst, blocksOf, hline]

/-- Statements that are printed in the same way have as many levels. -/
theorem depthOf_of_print {again : List Statement} (h : print again = print statements) :
    depthOf again = depthOf statements := by
  cases again with
  | nil =>
    cases statements with
    | nil => rfl
    | cons s rest => cases h
  | cons s rest =>
    cases statements with
    | nil => cases h
    | cons s' rest' => rw [depthOf_cons, depthOf_cons, h]

/-! ### The text of a stylesheet -/

/-- A stylesheet is formatted by laying its document out. -/
theorem format_css {options : Options} (hcss : options.parser = .css) (text : String) :
    format options text =
      match outcomeOf (.ofString text) with
      | .error fault => .error fault
      | .ok doc =>
        match Layout.renderWithin options.settings doc with
        | .error limit => .error (.limit limit)
        | .ok rendered => .ok rendered.text := by
  -- the run of the formatter for stylesheets, without its notes
  have hrun : format options text = ((Format.textToDoc options text >>= fun doc => do
      let rendered ← Run.within (Layout.renderWithin options.settings doc)
      return ⟨rendered.text, none⟩ : Run Format.Formatted) []).1.map (·.text) := by
    unfold format Format.formatSource Format.formatText Run.result
    simp only [hcss]
    rfl
  rw [hrun, Course.bind_apply, textToDoc_apply hcss]
  cases outcomeOf (.ofString text) with
  | error fault => rfl
  | ok doc =>
    dsimp only
    cases Layout.renderWithin options.settings doc <;> rfl

/-- A formatted stylesheet whose statements are settled is formatted already. -/
theorem format_again {options : Options} (hcss : options.parser = .css) {text formatted : String}
    (hread : Stylesheet.read (.ofString text) = .ok statements)
    (hsettled : areSettled statements = true) (h : format options text = .ok formatted) :
    format options formatted = .ok formatted := by
  -- whether there is room to print decides before anything is laid out
  have hreads := outcomeOf_reads (.ofString text)
  rw [format_css hcss] at h
  cases houtcome : outcomeOf (.ofString text) with
  | error fault =>
    rw [houtcome] at h
    cases h
  | ok doc =>
    rw [houtcome] at h hreads
    obtain ⟨_, hread', hdeep, rfl⟩ := hreads
    cases hread.symm.trans hread'
    simp only at h
    cases hrendered : Layout.renderWithin options.settings (print statements) with
    | error limit =>
      rw [hrendered] at h
      cases h
    | ok rendered =>
      rw [hrendered] at h
      cases h
      -- within the limits the layout is the one without limits
      have htext : rendered.text = Layout.render options.settings (print statements) := by
        unfold Layout.renderWithin at hrendered
        split at hrendered
        · cases hrendered
        · cases hrendered
          rfl
      -- what is read again has the same document, whose depth and layout depend on nothing else
      obtain ⟨again, hagain, hprint⟩ := read_render options.settings hread hsettled
      rw [← depthOf_of_print hprint] at hdeep
      rw [format_css hcss, htext, outcomeOf_ok hagain hdeep, hprint]
      simp only [hrendered, htext]

/-- A rule in an at-rule, a comment and a placeholder. -/
def nested : String :=
  "@Media (x )\x7bA>b,c\x7bCOLOR:RED!Important\x7d\x7d\n\n\n/* ; */\n@vxfmt-placeholder-0-id"

/-- The statements of `nested`. -/
def nestedStatements : List Statement :=
  [.atRule "Media" "(x )" (some [.rule "A>b,c" [.declaration "COLOR" (some "RED") true true false]
      false]) false,
    .comment "/* ; */" true, .declaration "@vxfmt-placeholder-0-id" none false false false]

/-- The text of `nested` when it is formatted. -/
def nestedFormatted : String :=
  "@media (x ) \x7b\n  A > b,\n  c \x7b\n    color: RED !important;\n  \x7d\n\x7d\n\n/* ; */\n"
    ++ "@vxfmt-placeholder-0-id\n"

/-- A stylesheet with nested blocks, a comment and a placeholder is formatted to itself the second
time. -/
theorem format_again_nested :
    Stylesheet.read (.ofString nested) = .ok nestedStatements ∧
      areSettled nestedStatements = true ∧
      format { parser := .css } nested = .ok nestedFormatted ∧
      format { parser := .css } nestedFormatted = .ok nestedFormatted := by
  have hread : Stylesheet.read (.ofString nested) = .ok nestedStatements := rfl
  have hsettled : areSettled nestedStatements = true := by decide +kernel
  have hformat : format { parser := .css } nested = .ok nestedFormatted := by decide +kernel
  exact ⟨hread, hsettled, hformat, format_again rfl hread hsettled hformat⟩

/-- A bracket that is open at the end of a stylesheet keeps the semicolon that is printed there inside
the statement. -/
theorem format_adds_semicolon :
    format { parser := .css } "a: (" = .ok "a: (;\n" ∧
      format { parser := .css } "a: (;\n" = .ok "a: (;;\n" := by
  refine ⟨?_, ?_⟩ <;> decide +kernel

end Reflow.Stylesheet
