import Reflow.Proofs.Token.Words

/-!
# Texts of several lines

Each line of a text is spelled, and ends with a line feed.  The scanner takes the words line by line,
and the first token of a line, from the second line on, tells that a line ended before it.

## Key results

- `Scanner.LeadsTo`: the tokens that the scanner takes
- `Yields.eq_of_endOnce`: what is read up to the end of the input is read only one way
- `exists_lined`: the tokens of lines, and which of them stand at the start of one
-/

namespace Reflow

/-- The scanner takes the tokens, one after the other. -/
def Scanner.LeadsTo (s : Scanner) : List Token → Prop
  | [] => True
  | t :: ts => ∃ s', Scan.nextScript s = (.ok t, s') ∧ s'.LeadsTo ts

/-- The tokens that a scanner leads to yield their words. -/
theorem Scanner.LeadsTo.yields {s : Scanner} {ts : List Token} (h : s.LeadsTo ts) :
    Yields s (ts.map Token.word) := by
  induction ts generalizing s with
  | nil => trivial
  | cons t ts ih =>
    obtain ⟨s', hnext, hmore⟩ := h
    exact ⟨t, s', hnext, rfl, ih hmore⟩

/-! ## The end of the input -/

/-- The last of the words is the end of the input, and no other one is. -/
def EndOnce : List Word → Prop
  | [] => False
  | w :: ws => (w = Word.eof ∧ ws = []) ∨ (w.kind ≠ .endOfInput ∧ EndOnce ws)

/-- Words that are not the end are followed by it once. -/
theorem endOnce_append {ws : List Word} (hws : ∀ w ∈ ws, w.kind ≠ .endOfInput) :
    EndOnce (ws ++ [Word.eof]) := by
  induction ws with
  | nil => exact .inl ⟨rfl, rfl⟩
  | cons w ws ih =>
    obtain ⟨hw, hws⟩ := List.forall_mem_cons.1 hws
    exact .inr ⟨hw, ih hws⟩

/-- The last ones of such words are such words. -/
theorem EndOnce.of_append {us vs : List Word} (h : EndOnce (us ++ vs)) (hvs : vs ≠ []) :
    EndOnce vs := by
  induction us with
  | nil => exact h
  | cons u us ih =>
    rcases h with ⟨-, hnil⟩ | ⟨-, h⟩
    · exact absurd (List.append_eq_nil_iff.1 hnil).2 hvs
    · exact ih h

/-- A scanner reads only one list of words up to the end of the input. -/
theorem Yields.eq_of_endOnce {s : Scanner} {us ws : List Word} (hyields : Yields s us)
    (hyields' : Yields s ws) (hus : EndOnce us) (hws : EndOnce ws) : us = ws := by
  -- induction on the words of the first run
  induction us generalizing s ws with
  | nil => exact hus.elim
  | cons u us ih =>
    cases ws with
    | nil => exact hws.elim
    | cons w ws =>
      obtain ⟨token, s', hnext, rfl, hmore⟩ := hyields
      obtain ⟨token', s'', hnext', rfl, hmore'⟩ := hyields'
      -- the scanner has one token to give
      rw [hnext] at hnext'
      cases hnext'
      -- the end comes once, so that it comes in both or in neither
      rcases hus with ⟨heof, rfl⟩ | ⟨hkind, hus⟩
      · rcases hws with ⟨-, rfl⟩ | ⟨hkind, -⟩
        · rfl
        · exact absurd (congrArg Word.kind heof) hkind
      · rcases hws with ⟨heof, -⟩ | ⟨-, hws⟩
        · exact absurd (congrArg Word.kind heof) hkind
        · rw [ih hmore hmore' hus hws]

/-! ## Lines -/

/-- The characters of lines. -/
def charsOfLines (lines : List (List Item)) : List Char :=
  lines.flatMap fun items => charsOf items ++ ['\n']

@[simp] theorem charsOfLines_nil : charsOfLines [] = [] := rfl

@[simp] theorem charsOfLines_cons (items : List Item) (lines : List (List Item)) :
    charsOfLines (items :: lines) = charsOf items ++ '\n' :: charsOfLines lines := by
  simp [charsOfLines]

/-- The tokens are those of the lines, each behind the end of another line, and then the end of the
input. -/
def Lined : List (List Word) → List Token → Prop
  | [], ts => ts.map Token.word = [Word.eof]
  | line :: lines, ts => (∀ t ∈ ts.head?, t.newlineBefore = true) ∧
    ∃ us vs, ts = us ++ vs ∧ us.map Token.word = line ∧ Lined lines vs

/-- The words of lines. -/
theorem Lined.map_word {lines : List (List Word)} {ts : List Token} (h : Lined lines ts) :
    ts.map Token.word = lines.flatten ++ [Word.eof] := by
  induction lines generalizing ts with
  | nil => exact h
  | cons line lines ih =>
    obtain ⟨-, us, vs, rfl, rfl, hvs⟩ := h
    rw [List.map_append, ih hvs, List.flatten_cons, List.append_assoc]

/-- There is always a token: the end at least. -/
theorem Lined.ne_nil {lines : List (List Word)} {ts : List Token} (h : Lined lines ts) :
    ts ≠ [] := by
  rintro rfl
  simpa using congrArg List.length h.map_word

/-- Behind the words of lines the input ends, and not before. -/
theorem endOnce_lines {lines : List (List Item)} (hlines : ∀ items ∈ lines, spelled items = true) :
    EndOnce ((lines.map wordsOf).flatten ++ [Word.eof]) := by
  refine endOnce_append fun w hw => ?_
  simp only [List.mem_flatten, List.mem_map] at hw
  obtain ⟨_, ⟨items, hitems, rfl⟩, hw⟩ := hw
  exact kind_ne_of_spelled (hlines items hitems) w hw

/-- There are no more words than characters. -/
theorem length_words_le_charsOfLines {lines : List (List Item)}
    (hlines : ∀ items ∈ lines, spelled items = true) :
    (lines.map wordsOf).flatten.length ≤ (charsOfLines lines).length := by
  induction lines with
  | nil => exact Nat.zero_le _
  | cons items lines ih =>
    obtain ⟨hitems, hlines⟩ := List.forall_mem_cons.1 hlines
    have hline := length_wordsOf_le hitems
    have hmore := ih hlines
    simp only [List.map_cons, List.flatten_cons, List.length_append, charsOfLines_cons,
      List.length_cons]
    omega

/-- Every word ends before a line feed. -/
theorem Word.endsBefore_lineFeed {w : Word} (hw : w.isSpelled = true) :
    w.endsBefore '\n' = true := by
  have hpart : isNamePart '\n' = false := by decide
  have hdigit : Text.isDigit '\n' = false := by decide
  have hnonempty : ∀ p ∈ punctuators, p.toList ≠ [] := by decide
  obtain ⟨kind, text⟩ := w
  cases kind with
  | name => simp [endsBefore, hpart]
  | punctuator =>
    have htext : text ∈ punctuators := by simpa [isSpelled] using hw
    exact endsPunctuator_of_not_mem (hnonempty text htext) (by decide) (by decide) hdigit
  | _ => rfl

namespace Scan

variable {s : Scanner}

/-- That a line ended before is told behind any white space and comments. -/
theorem skipPieces_true (pieces : List Trivia) (newline : Bool) (s : Scanner) :
    skipPieces true pieces s =
      ((skipPieces newline pieces s).1.map fun _ => true, (skipPieces newline pieces s).2) := by
  induction pieces generalizing newline s with
  | nil => rfl
  | cons piece pieces ih =>
    cases piece with
    | space c => exact ih (newline || isLineTerminator c) (s.advance 1)
    | lineComment value => exact ih newline _
    | unterminated => rfl
    | blockComment value => exact ih (newline || value.contains '\n') _

/-- A line feed is passed over, and the token behind it tells of it. -/
theorem nextScript_lineFeed {t : Token} {s' : Scanner} {cs : List Char}
    (hrest : s.rest = '\n' :: cs) (h : nextScript (s.advance 1) = (.ok t, s')) :
    nextScript s = (.ok { t with newlineBefore := true }, s') := by
  -- behind the line feed the same characters are left
  have hnext : (s.advance 1).rest = cs := by
    rw [Scanner.rest_advance, hrest]
    rfl
  have hskip : skipTrivia s = skipPieces true (triviaOf cs) (s.advance 1) := by
    show skipPieces false (triviaOf s.rest) s = _
    rw [hrest, triviaOf.eq_def]
    rfl
  have hbind : nextScript s = _ := Course.bind_apply skipTrivia scriptToken s
  have hbind' : nextScript (s.advance 1) = _ :=
    Course.bind_apply skipTrivia scriptToken (s.advance 1)
  have hskip' : skipTrivia (s.advance 1) = skipPieces false (triviaOf cs) (s.advance 1) := by
    show skipPieces false (triviaOf (s.advance 1).rest) _ = _
    rw [hnext]
  -- the two runs differ in where the skipping starts and in what it is told
  rw [h, hskip'] at hbind'
  rw [hbind, hskip, skipPieces_true _ false]
  cases hrun : skipPieces false (triviaOf cs) (s.advance 1) with
  | mk r s1 =>
    rw [hrun] at hbind'
    cases r with
    | error fault => cases hbind'
    | ok newline =>
      show scriptToken true s1 = _
      -- the token is the one that is read without a line before it, but for the mark
      have htoken : scriptToken newline s1 = (.ok t, s') := hbind'.symm
      rw [scriptToken_retell, scriptToken_false htoken]
      rfl

end Scan

/-- In front of what follows a line, the scanner takes the words of the line. -/
theorem exists_tokens {items : List Item} {cs : List Char} {P : List Token → Prop} {s : Scanner}
    (hitems : spelled items = true) (hrest : s.rest = charsOf items ++ '\n' :: cs)
    (hmore : ∀ s' : Scanner, s'.rest = '\n' :: cs → ∃ vs, vs ≠ [] ∧ s'.LeadsTo vs ∧ P vs) :
    ∃ us vs, s.LeadsTo (us ++ vs) ∧ us.map Token.word = wordsOf items ∧ vs ≠ [] ∧ P vs := by
  -- induction on the items, of which the line feed ends the last
  induction items generalizing s with
  | nil =>
    obtain ⟨vs, hvs, hs, hp⟩ := hmore s hrest
    exact ⟨[], vs, hs, rfl, hvs, hp⟩
  | cons item items ih =>
    cases item with
    -- a space is passed over in front of whatever token is next
    | space =>
      have hnext : (s.advance 1).rest = charsOf items ++ '\n' :: cs := by
        rw [Scanner.rest_advance, hrest]
        rfl
      obtain ⟨us, vs, hs, hus, hvs, hp⟩ := ih hitems hnext
      refine ⟨us, vs, ?_, hus, hvs, hp⟩
      obtain ⟨t, ts, hts⟩ := List.exists_cons_of_ne_nil (List.append_ne_nil_of_right_ne_nil us hvs)
      rw [hts] at hs ⊢
      obtain ⟨s', htoken, hmore'⟩ := hs
      exact ⟨s', (Scan.nextScript_space hrest).trans htoken, hmore'⟩
    | word w =>
      simp only [spelled, Bool.and_eq_true] at hitems
      obtain ⟨⟨hw, hends⟩, hitems⟩ := hitems
      -- what follows the word ends it, be it the next item or the line feed
      have hends' : (charsOf items ++ '\n' :: cs).head?.all w.endsBefore = true := by
        cases hchars : charsOf items with
        | nil => simpa using w.endsBefore_lineFeed hw
        | cons c more => simpa [hchars] using hends
      rw [charsOf_word, List.append_assoc] at hrest
      obtain ⟨t, s', htoken, hword, hnext⟩ := Scan.nextScript_word hrest hw hends'
      obtain ⟨us, vs, hs, hus, hvs, hp⟩ := ih hitems hnext
      refine ⟨t :: us, vs, ⟨s', htoken, hs⟩, ?_, hvs, hp⟩
      rw [List.map_cons, hword, hus, wordsOf_word]

/-- Behind a line feed the scanner takes the tokens of the lines. -/
theorem exists_lined {lines : List (List Item)}
    (hlines : ∀ items ∈ lines, spelled items = true ∧ wordsOf items ≠ []) {s : Scanner}
    (hrest : s.rest = '\n' :: charsOfLines lines) :
    ∃ ts, ts ≠ [] ∧ s.LeadsTo ts ∧ Lined (lines.map wordsOf) ts := by
  induction lines generalizing s with
  | nil =>
    have hnext : (s.advance 1).rest = [] := by
      rw [Scanner.rest_advance, hrest]
      rfl
    have heof := Scan.nextScript_lineFeed hrest (Scan.nextScript_eof hnext)
    exact ⟨[_], nofun, ⟨_, heof, trivial⟩, rfl⟩
  | cons items lines ih =>
    obtain ⟨⟨hitems, hwords⟩, hlines⟩ := List.forall_mem_cons.1 hlines
    have hnext : (s.advance 1).rest = charsOf items ++ '\n' :: charsOfLines lines := by
      rw [Scanner.rest_advance, hrest, charsOfLines_cons]
      rfl
    obtain ⟨us, vs, hs, hus, -, hvs⟩ := exists_tokens hitems hnext fun s' hs' => ih hlines hs'
    -- the first token of the line is the one behind the line feed
    cases us with
    | nil => exact absurd hus.symm hwords
    | cons t us =>
      obtain ⟨s', htoken, hmore⟩ := hs
      refine ⟨{ t with newlineBefore := true } :: (us ++ vs), nofun,
        ⟨s', Scan.nextScript_lineFeed hrest htoken, hmore⟩, ?_⟩
      refine ⟨by simp, { t with newlineBefore := true } :: us, vs, rfl, hus, hvs⟩

/-- The tokens of a text of lines are those of the first line and those of the others. -/
theorem exists_tokens_of_lines {items : List Item} {lines : List (List Item)} {s : Scanner}
    (hitems : spelled items = true)
    (hlines : ∀ items ∈ lines, spelled items = true ∧ wordsOf items ≠ [])
    (hrest : s.rest = charsOfLines (items :: lines)) :
    ∃ us vs, s.LeadsTo (us ++ vs) ∧ us.map Token.word = wordsOf items ∧
      Lined (lines.map wordsOf) vs := by
  rw [charsOfLines_cons] at hrest
  obtain ⟨us, vs, hleads, hus, -, hvs⟩ :=
    exists_tokens hitems hrest fun s' hs' => exists_lined hlines hs'
  exact ⟨us, vs, hleads, hus, hvs⟩

end Reflow
