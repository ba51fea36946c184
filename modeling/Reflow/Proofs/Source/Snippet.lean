import Mathlib.Data.List.DropRight
import Reflow.Proofs.Grammar.PlacesRules
import Reflow.Proofs.Stylesheet.Places
import Reflow.Proofs.Text.Solid
import Reflow.Source.Fault

/-!
# The line that a message quotes

A position counts line feeds, but a message looks up the line of that number among the lines that an
editor shows, which other characters end as well.  Where no such character stands in front of the
line or in it, but for carriage returns at the ends of lines, the two are the same: the message quotes
the line that the fault is on, with its carets under the column of the fault.

## Key results

- `shownLine_eq`: the line that is looked up is the line of the source
- `describe_quotes`: the message of a fault of the scanner, the parser or the stylesheet reader
- `describe_quotes_less`: behind a line separator a message quotes another line
-/

namespace Reflow

namespace Text

/-- Does no character end a line for an editor, but for a carriage return at its end? -/
def isOneLine : List Char → Bool
  | [] => true
  | ['\r'] => true
  | c :: rest => !endsLine c && isOneLine rest

/-- A line without the carriage returns at its end. -/
def bareLine (line : List Char) : List Char := dropEndWhile (· == '\r') line

/-- A line of an editor without line feeds and then carriage returns at its end. -/
def unended (line : List Char) : List Char := bareLine (dropEndWhile (· == '\n') line)

variable {cs body front back : List Char} {c : Char}

/-- Exactly the characters at the end that are to be dropped are. -/
theorem dropEndWhile_append {p : Char → Bool} (hfront : ∀ c ∈ front, p c = false)
    (hback : ∀ c ∈ back, p c = true) : dropEndWhile p (front ++ back) = front := by
  have hnone : front.reverse.dropWhile p = front.reverse := by
    cases hf : front.reverse with
    | nil => rfl
    | cons c rest =>
      have hc := hfront c (List.mem_reverse.1 (hf ▸ List.mem_cons_self))
      rw [List.dropWhile_cons_of_neg (by simp [hc])]
  rw [dropEndWhile, List.reverse_append, List.dropWhile_append_of_pos (by simpa using hback), hnone,
    List.reverse_reverse]

/-! ## Lines of editors -/

/-- A character that ends no line goes in front of the first line. -/
theorem editorLines_cons (hc : endsLine c = false) (cs : List Char) :
    editorLines (c :: cs) = consFirst c (editorLines cs) := by
  rw [editorLines, if_neg (by simp [hc])]
  rintro rest rfl
  exact absurd hc (by decide)

/-- A line feed ends a line that no other character ends. -/
theorem editorLines_lineFeed (h : isOneLine cs = true) (rest : List Char) :
    editorLines (cs ++ '\n' :: rest) = (cs ++ ['\n']) :: editorLines rest := by
  fun_induction isOneLine cs with
  | case1 => simp [editorLines, endsLine]
  | case2 => rfl
  | case3 c cs _ ih =>
    obtain ⟨hc, hcs⟩ : endsLine c = false ∧ isOneLine cs = true := by simpa using h
    rw [List.cons_append, editorLines_cons hc, ih hcs]
    rfl

/-- The first line that an editor shows. -/
def firstLine (cs : List Char) : List Char := (editorLines cs).headD []

/-- Without a line end the first line goes on. -/
theorem firstLine_append (hbody : ∀ c ∈ body, endsLine c = false) (cs : List Char) :
    firstLine (body ++ cs) = body ++ firstLine cs := by
  induction body with
  | nil => rfl
  | cons c body ih =>
    obtain ⟨hc, hbody⟩ := List.forall_mem_cons.1 hbody
    have hrest := ih hbody
    rw [firstLine] at hrest
    rw [List.cons_append, firstLine, editorLines_cons hc, List.cons_append, ← hrest]
    cases editorLines (body ++ cs) <;> rfl

/-- The carriage returns at the end of a line of the source and its line feed are cut into lines by an
editor, but what the first of these is left with is the same. -/
theorem firstLine_returns {returns : List Char} (hreturns : ∀ c ∈ returns, c = '\r')
    (hback : back = [] ∨ ∃ rest, back = '\n' :: rest) :
    ∃ a b, firstLine (returns ++ back) = a ++ b ∧ (∀ c ∈ a, c = '\r') ∧ ∀ c ∈ b, c = '\n' := by
  -- without a return the first line ends at the line feed or at the end
  cases returns with
  | nil =>
    rcases hback with rfl | ⟨rest, rfl⟩
    · exact ⟨[], [], rfl, by simp, by simp⟩
    · exact ⟨[], ['\n'], by simp [firstLine, editorLines, endsLine], by simp, by simp⟩
  | cons c returns =>
    obtain ⟨hc, hmore⟩ := List.forall_mem_cons.1 hreturns
    subst hc
    -- a single return ends the line, with the line feed that may follow it
    cases returns with
    | nil =>
      rcases hback with rfl | ⟨rest, rfl⟩
      · exact ⟨['\r'], [], rfl, by simp, by simp⟩
      · exact ⟨['\r'], ['\n'], rfl, by simp, by simp⟩
    -- of several returns the first one ends the line
    | cons d returns =>
      obtain ⟨rfl, -⟩ := List.forall_mem_cons.1 hmore
      exact ⟨['\r'], [], by simp [firstLine, editorLines, endsLine], by simp, by simp⟩

/-- The first line of a source, without the carriage returns at its end, is what an editor shows. -/
theorem unended_firstLine {line : List Char} (hline : ∀ c ∈ bareLine line, endsLine c = false)
    (hback : back = [] ∨ ∃ rest, back = '\n' :: rest) :
    unended (firstLine (line ++ back)) = bareLine line := by
  have hsplit : bareLine line ++ line.rtakeWhile (· == '\r') = line :=
    List.rdropWhile_append_rtakeWhile
  have hreturns : ∀ c ∈ line.rtakeWhile (· == '\r'), c = '\r' := fun c hc => by
    simpa using List.mem_rtakeWhile_imp hc
  obtain ⟨a, b, hfirst, ha, hb⟩ := firstLine_returns hreturns hback
  -- the line feeds go first, and then the carriage returns
  have hfeeds : ∀ c ∈ bareLine line ++ a, (c == '\n') = false := by
    refine List.forall_mem_append.2 ⟨fun c hc => ?_, fun c hc => by rw [ha c hc]; rfl⟩
    have hends := hline c hc
    simp_all [endsLine]
  have hothers : ∀ c ∈ bareLine line, (c == '\r') = false := fun c hc => by
    have hends := hline c hc
    simp_all [endsLine]
  calc unended (firstLine (line ++ back))
      = unended (bareLine line ++ firstLine (line.rtakeWhile (· == '\r') ++ back)) := by
        rw [← firstLine_append hline, ← List.append_assoc, hsplit]
    _ = bareLine (bareLine line ++ a) := by
        rw [hfirst, ← List.append_assoc, unended,
          dropEndWhile_append hfeeds fun c hc => by rw [hb c hc]; rfl]
    _ = bareLine line := dropEndWhile_append hothers fun c hc => by rw [ha c hc]; rfl

/-- Where the lines in front of a line of a source are lines of an editor, that line is found under
its number. -/
theorem unended_editorLines {line : List Char} {n : Nat}
    (hfront : ∀ l ∈ (splitAt '\n' cs).take n, isOneLine l = true)
    (hn : (splitAt '\n' cs)[n]? = some line) (hline : ∀ c ∈ bareLine line, endsLine c = false) :
    unended ((editorLines cs).getD n []) = bareLine line := by
  induction n generalizing cs with
  | zero =>
    have hfirst : (editorLines cs).getD 0 [] = firstLine cs := by
      rw [firstLine]
      cases editorLines cs <;> rfl
    rw [hfirst]
    rcases splitAt_cases '\n' cs with ⟨-, hlines⟩ | ⟨first, rest, rfl, -, hlines⟩
    · obtain rfl : cs = line := by simpa [hlines] using hn
      simpa using unended_firstLine hline (.inl rfl)
    · obtain rfl : first = line := by simpa [hlines] using hn
      exact unended_firstLine hline (.inr ⟨rest, rfl⟩)
  | succ n ih =>
    rcases splitAt_cases '\n' cs with ⟨-, hlines⟩ | ⟨first, rest, rfl, -, hlines⟩
    · simp [hlines] at hn
    · -- the first line of the source is the first line of the editor
      rw [hlines, List.take_succ_cons, List.forall_mem_cons] at hfront
      rw [hlines, List.getElem?_cons_succ] at hn
      rw [editorLines_lineFeed hfront.1, List.getD_cons_succ]
      exact ih hfront.2 hn

end Text

open Text (splitAt bareLine)

/-! ## Messages -/

/-- The lines of a source, up to the line of a number, are lines of an editor. -/
structure Source.ShownTo (source : Source) (number : Nat) : Prop where
  front : ∀ l ∈ (splitAt '\n' source.chars).take (number - 1), Text.isOneLine l = true
  line : ∀ l, (splitAt '\n' source.chars)[number - 1]? = some l →
    ∀ c ∈ bareLine l, Text.endsLine c = false

/-- The last two lines of a message are a line, behind its number, and carets that start under a
column of it. -/
def Quotes (message : String) (number : Nat) (line : List Char) (column : Nat) : Prop :=
  ∃ front margin carets, splitAt '\n' message.toList = front ++
    [(toString number ++ " | ").toList ++ line,
      margin ++ List.replicate (column - 1) ' ' ++ List.replicate (carets + 1) '^'] ∧
    margin.length = (toString number ++ " | ").length

/-- The second of the last two lines of a message that quotes a line. -/
theorem Quotes.getLast? {message : String} {number column : Nat} {line : List Char}
    (h : Quotes message number line column) :
    (splitAt '\n' message.toList).dropLast.getLast? =
      some ((toString number ++ " | ").toList ++ line) := by
  obtain ⟨front, margin, carets, hlines, -⟩ := h
  rw [hlines]
  simp

variable {source : Source} {fault : SourceFault}

/-- The line that a message looks up is the line of that number, without the carriage returns at its
end. -/
theorem shownLine_eq {number : Nat} {line : List Char} (hnumber : 1 ≤ number)
    (hline : (splitAt '\n' source.chars)[number - 1]? = some line)
    (hshown : source.ShownTo number) : shownLine source number = bareLine line := by
  obtain ⟨n, rfl⟩ : ∃ n, number = n + 1 := ⟨number - 1, by omega⟩
  rw [← Text.unended_editorLines hshown.front hline (hshown.line line hline), shownLine,
    List.getD_eq_getElem?_getD]
  show _ = Text.unended ((Text.editorLines source.chars)[n]?.getD [])
  cases (Text.editorLines source.chars)[n]? <;> rfl

/-- No numeral has a line feed. -/
theorem not_mem_toString (n : Nat) : '\n' ∉ (toString n).toList := by
  show '\n' ∉ n.repr.toList
  rw [Nat.toList_repr]
  exact fun h => absurd (Nat.isDigit_of_mem_toDigits (by decide) (by decide) h) (by decide)

/-- The last lines of a message are those behind its last line feeds. -/
theorem splitAt_message (front gutter line under : String) (hgutter : '\n' ∉ gutter.toList)
    (hline : '\n' ∉ line.toList) (hunder : '\n' ∉ under.toList) :
    splitAt '\n' (front ++ "|\n" ++ gutter ++ line ++ "\n" ++ under).toList =
      splitAt '\n' (front ++ "|").toList ++ [gutter.toList ++ line.toList, under.toList] := by
  have hmessage : (front ++ "|\n" ++ gutter ++ line ++ "\n" ++ under).toList =
      (front ++ "|").toList ++ '\n' :: (gutter.toList ++ line.toList ++ '\n' :: under.toList) := by
    simp
  have hquoted : '\n' ∉ gutter.toList ++ line.toList := by simp [hgutter, hline]
  rw [hmessage, Text.splitAt_append, Text.splitAt_append, Text.splitAt_of_not_mem hquoted,
    Text.splitAt_of_not_mem hunder]
  rfl

/-- A message quotes the line that it looks up. -/
theorem snippet_quotes (message : String) (span : Span) (fileName : String)
    (hfeed : '\n' ∉ shownLine source span.start.line) :
    Quotes (snippet message span source fileName) span.start.line
      (shownLine source span.start.line) span.start.column := by
  unfold snippet
  extract_lets column line carets number margin
  -- there is at least one caret, whatever the span
  obtain ⟨more, hmore⟩ : ∃ more, (max 1 carets).toNat = more + 1 :=
    ⟨_, (Nat.succ_pred_eq_of_pos (by omega)).symm⟩
  have hgutter : '\n' ∉ (number ++ " | ").toList := by
    rw [String.toList_append]
    exact fun h => (List.mem_append.1 h).elim (not_mem_toString _) (by decide)
  have hunder : (margin ++ "| " ++ Text.repeated (column - 1) " " ++
      Text.repeated (max 1 carets).toNat "^").toList =
        (List.replicate (number.length + 1) ' ' ++ ['|', ' ']) ++
          List.replicate (column - 1) ' ' ++ List.replicate (more + 1) '^' := by
    rw [hmore, String.toList_append, String.toList_append, String.toList_append,
      Text.toList_repeated rfl, Text.toList_repeated rfl, Text.toList_repeated rfl]
    rfl
  have hsplit := splitAt_message ("error: " ++ message ++ "\n" ++ margin ++ "--> " ++ fileName ++
    ":" ++ number ++ ":" ++ toString column ++ "\n" ++ margin) (number ++ " | ")
    (String.ofList line) _ hgutter (by simpa using hfeed) (by rw [hunder]; simp)
  rw [hunder, String.toList_ofList] at hsplit
  simp only [← String.append_assoc] at hsplit
  have hwidth : (List.replicate (number.length + 1) ' ' ++ ['|', ' ']).length =
      (number ++ " | ").length := by
    rw [List.length_append, List.length_replicate, String.length_append]
    rfl
  exact ⟨_, _, more, hsplit, hwidth⟩

/-- The fault of a source that cannot be parsed. -/
def Grammar.fault? (source : Source) (html : Bool) : Option SourceFault :=
  match Grammar.parse source html with
  | .ok _ => none
  | .error fault => some fault

/-- A fault that is computed is the one that the parser raises. -/
theorem Grammar.parse_of_fault? {html : Bool} (h : Grammar.fault? source html = some fault) :
    Grammar.parse source html = .error fault := by
  unfold fault? at h
  split at h
  · cases h
  · rename_i hparse
    rw [hparse, Option.some.inj h]

/-- The message of a fault quotes the line of the source that the fault is on, without the carriage
returns at its end, and its carets start under the column of the fault, if up to there an editor shows
the lines of the source. -/
theorem describe_quotes
    (h : (∃ html, Grammar.parse source html = .error fault) ∨
      Stylesheet.read source = .error fault)
    (hshown : source.ShownTo fault.span.start.line) (fileName : String) :
    ∃ line, (splitAt '\n' source.chars)[fault.span.start.line - 1]? = some line ∧
      1 ≤ fault.span.start.line ∧ 1 ≤ fault.span.start.column ∧
      fault.span.start.column ≤ line.length + 1 ∧
      Quotes (fault.describe source fileName) fault.span.start.line (bareLine line)
        fault.span.start.column := by
  -- the fault lies at a place in the source
  have hstart : source.Locates fault.span.start := by
    rcases h with ⟨html, h⟩ | h
    · exact (Grammar.parse_fault h).1
    · exact Stylesheet.read_fault h
  obtain ⟨line, hline, hnumber, hcolumn, hwithin⟩ := Source.Counts.line hstart
  -- the line that is shown is the one that is counted, without what ends it
  have hbare := shownLine_eq hnumber hline hshown
  have hfeed : '\n' ∉ shownLine source fault.span.start.line := by
    rw [hbare]
    exact fun hmem => absurd (hshown.line line hline _ hmem) (by decide)
  refine ⟨line, hline, hnumber, hcolumn, hwithin, ?_⟩
  rw [← hbare]
  exact snippet_quotes _ _ _ hfeed

/-- Two lines that end in carriage returns. -/
def twoLines : Source := .ofString "x;\r\nb c\r"

/-- What is wrong with the second one. -/
def missingSemicolon : SourceFault :=
  .grammar (.expected (.symbol ";") (some "c")) ⟨⟨2, 3, 6⟩, ⟨2, 4, 7⟩⟩

/-- The fault in the second line of a text is shown with that line and a mark under its column. -/
theorem describe_quotes_twoLines :
    Grammar.parse twoLines false = .error missingSemicolon ∧ twoLines.ShownTo 2 ∧
      Quotes (missingSemicolon.describe twoLines "input.vx") 2 "b c".toList 3 := by
  -- the source does not parse, and the fault is computed
  have hparse : Grammar.parse twoLines false = .error missingSemicolon :=
    Grammar.parse_of_fault? (by decide +kernel)
  have hsecond : (splitAt '\n' twoLines.chars)[1]? = some "b c\r".toList := by decide +kernel
  -- nothing else ends the line
  have hshown : twoLines.ShownTo 2 := by
    refine ⟨by decide +kernel, fun line hline => ?_⟩
    obtain rfl : "b c\r".toList = line := Option.some.inj (hsecond.symm.trans hline)
    have hall : (bareLine "b c\r".toList).all (fun c => !Text.endsLine c) = true := by
      decide +kernel
    simpa using hall
  obtain ⟨line, hline, -, -, -, hquotes⟩ :=
    describe_quotes (.inl ⟨false, hparse⟩) hshown "input.vx"
  obtain rfl : "b c\r".toList = line := Option.some.inj (hsecond.symm.trans hline)
  exact ⟨hparse, hshown, hquotes⟩

/-- Behind a line separator the message of a fault does not quote the line that the fault is on: it
quotes what stands in front of the separator. -/
theorem describe_quotes_less :
    ¬∀ (source : Source) (fault : SourceFault) (fileName : String),
      ((∃ html, Grammar.parse source html = .error fault) ∨
        Stylesheet.read source = .error fault) →
      ∀ line, (splitAt '\n' source.chars)[fault.span.start.line - 1]? = some line →
        Quotes (fault.describe source fileName) fault.span.start.line (bareLine line)
          fault.span.start.column := by
  -- the claim for the source in which a separator ends the line that is shown
  intro h
  have hquotes := h (.ofString "a\u2028b c")
    (.grammar (.expected (.symbol ";") (some "c")) ⟨⟨1, 5, 4⟩, ⟨1, 6, 5⟩⟩) "input.vx"
    (.inl ⟨false, Grammar.parse_of_fault? (by decide +kernel)⟩) "a\u2028b c".toList
    (by decide +kernel)
  have hshown := hquotes.getLast?
  -- what is shown is shorter
  revert hshown
  decide +kernel

end Reflow
