import Reflow.Literal.Quote
import Reflow.Proofs.Token.Alone

/-!
# What printing keeps of a string

Putting the content of a string into other quotes adds backslashes before the new quotes and drops
those that mean nothing.  The result is again the content of a string, with the same value and the
same quotes in it, and it is not changed a second time.

## Key results

- `Requoted`: the contents that are left as they are
- `requoted_requote`: every content ends up as such
- `cookChars_requote`, `count_requote`: the value and the number of quotes stay
- `printString_keeps`: what is printed for a string of the scanner
-/

namespace Reflow.Literal

variable {quote : Char} {body content : List Char} {c : Char} {single : Bool}

/-! ## Quotes -/

/-- The other quote is a quote. -/
theorem isQuote_otherQuote (quote : Char) : Text.isQuote (otherQuote quote) = true := by
  unfold otherQuote
  split <;> rfl

/-- It is not the same one. -/
theorem otherQuote_ne (quote : Char) : otherQuote quote ≠ quote := by
  unfold otherQuote
  split
  · rename_i h
    rw [h]
    decide
  · exact Ne.symm ‹_›

/-- The quote that is chosen is a quote. -/
theorem isQuote_preferredQuote (content : List Char) (single : Bool) :
    Text.isQuote (preferredQuote content single) = true := by
  cases single <;>
  · simp only [preferredQuote, Bool.false_eq_true, if_false, if_true]
    split <;> rfl

/-- The choice of the quote depends on the number of quotes only. -/
theorem preferredQuote_congr (h : ∀ quote, Text.isQuote quote = true →
    body.count quote = content.count quote) :
    preferredQuote body single = preferredQuote content single := by
  have hdouble := h '"' rfl
  have hsingle := h '\'' rfl
  cases single <;> simp only [preferredQuote] <;> simp [hdouble, hsingle]

/-- The content is what stands between the quotes. -/
theorem contentOf_quoted (quote : Char) (body : List Char) :
    contentOf (quote :: body ++ [quote]) = body := by
  rw [contentOf, List.cons_append, List.drop_succ_cons, List.drop_zero, List.dropLast_concat]

/-! ## Escapes -/

/-- An escaped quote keeps its backslash unless the printer takes it. -/
theorem isMeaningfulEscape_of_isQuote (h : Text.isQuote c = true) :
    isMeaningfulEscape c = true := by
  rcases isQuote_iff.1 h with rfl | rfl <;> decide

/-- Without a meaning, a backslash adds nothing to the character behind it. -/
theorem escapeValue_of_meaningless (h : isMeaningfulEscape c = false) : escapeValue c = c := by
  unfold escapeValue
  split <;> first | rfl | exact absurd h (by decide)

/-- It stands for itself. -/
theorem escapeValue_of_isQuote (h : Text.isQuote c = true) : escapeValue c = c := by
  rcases isQuote_iff.1 h with rfl | rfl <;> rfl

/-- A character whose escape means nothing is none of those whose escape does. -/
theorem ne_of_meaningless {d : Char} (h : isMeaningfulEscape c = false)
    (hd : isMeaningfulEscape d = true) : c ≠ d := by
  rintro rfl
  exact Bool.false_ne_true (h.symm.trans hd)

/-- A quote is no backslash. -/
theorem ne_backslash_of_isQuote (h : Text.isQuote c = true) : c ≠ '\\' := by
  rintro rfl
  exact absurd h (by decide)

/-- A quote is no line feed. -/
theorem ne_lineFeed_of_isQuote (h : Text.isQuote c = true) : c ≠ '\n' := by
  rintro rfl
  exact absurd h (by decide)

/-- Any other character stands for itself. -/
theorem cookChars_char (h : c ≠ '\\') (cs : List Char) :
    cookChars (c :: cs) = c :: cookChars cs :=
  cookChars.eq_2 _ _ fun _ _ hc => absurd hc h

/-- A backslash and the character behind it stand for the value of the escape. -/
theorem cookChars_escape (h : c ≠ '\n') (cs : List Char) :
    cookChars ('\\' :: c :: cs) = escapeValue c :: cookChars cs := by
  rw [cookChars, if_neg h]

/-- A quote gets a backslash when it is the one around the string; other characters are kept. -/
theorem requote_char (h : c ≠ '\\') (quote : Char) (cs : List Char) :
    requote quote (c :: cs) =
      if c = quote && Text.isQuote c then '\\' :: c :: requote quote cs
      else c :: requote quote cs :=
  requote.eq_2 _ _ _ fun _ _ hc => absurd hc h

/-- A character other than the enclosing quote stays as it is. -/
theorem requote_other (h : c ≠ '\\') (hquote : c ≠ quote) (cs : List Char) :
    requote quote (c :: cs) = c :: requote quote cs := by
  rw [requote_char h, if_neg (by simp [hquote])]

/-- The enclosing quote gets a backslash. -/
theorem requote_quote (hquote : Text.isQuote quote = true) (cs : List Char) :
    requote quote (quote :: cs) = '\\' :: quote :: requote quote cs := by
  rw [requote_char (ne_backslash_of_isQuote hquote), if_pos (by simp [hquote])]

/-- The other quote loses its backslash. -/
theorem requote_escaped_other (quote : Char) (cs : List Char) :
    requote quote ('\\' :: otherQuote quote :: cs) = otherQuote quote :: requote quote cs := by
  rw [requote, if_pos rfl]

/-- A backslash that means something stays. -/
theorem requote_escape (h : isMeaningfulEscape c = true) (hother : c ≠ otherQuote quote)
    (cs : List Char) : requote quote ('\\' :: c :: cs) = '\\' :: c :: requote quote cs := by
  rw [requote, if_neg hother, if_pos h]

/-- A backslash that means nothing is dropped. -/
theorem requote_meaningless (h : isMeaningfulEscape c = false) (quote : Char) (cs : List Char) :
    requote quote ('\\' :: c :: cs) = c :: requote quote cs := by
  have hother := ne_of_meaningless h (isMeaningfulEscape_of_isQuote (isQuote_otherQuote quote))
  rw [requote, if_neg hother, if_neg (by simp [h])]

/-! ## The content of a string in other quotes -/

/-- A content as it is printed: the enclosing quote stands behind a backslash only, and a backslash
only where it means something and not before the other quote. -/
inductive Requoted (quote : Char) : List Char → Prop
  | nil : Requoted quote []
  | char {c : Char} {cs : List Char} (hescape : c ≠ '\\') (hline : c ≠ '\n') (hquote : c ≠ quote)
    (h : Requoted quote cs) : Requoted quote (c :: cs)
  | escape {c : Char} {cs : List Char} (hmeaning : isMeaningfulEscape c = true)
    (hother : c ≠ otherQuote quote) (h : Requoted quote cs) : Requoted quote ('\\' :: c :: cs)

/-- What is printed between the quotes ends at the closing quote only. -/
theorem Requoted.quoted (h : Requoted quote body) : Quoted quote body := by
  induction h with
  | nil => exact .nil
  | char hescape hline hquote _ ih => exact .char hescape hline hquote ih
  | escape _ _ _ ih => exact .escape _ ih

/-- A content as it is printed stays as it is. -/
theorem Requoted.requote_eq (h : Requoted quote body) : requote quote body = body := by
  induction h with
  | nil => rfl
  | char hescape _ hquote _ ih => rw [requote_other hescape hquote, ih]
  | escape hmeaning hother _ ih => rw [requote_escape hmeaning hother, ih]

/-- What a character behind a backslash becomes. -/
theorem escape_cases (quote c : Char) :
    c = otherQuote quote ∨ (isMeaningfulEscape c = true ∧ c ≠ otherQuote quote) ∨
      isMeaningfulEscape c = false := by
  by_cases hother : c = otherQuote quote
  · exact .inl hother
  · cases hmeaning : isMeaningfulEscape c with
    | true => exact .inr (.inl ⟨rfl, hother⟩)
    | false => exact .inr (.inr rfl)

section

variable {old : Char} (hquote : Text.isQuote quote = true) (h : Quoted old body)

include hquote h

/-- Whatever quotes a string had, its content fits into the new ones. -/
theorem requoted_requote : Requoted quote (requote quote body) := by
  induction h with
  | nil => exact .nil
  | @char c cs hescape hline _ _ ih =>
    by_cases hc : c = quote
    · rw [hc, requote_quote hquote]
      exact .escape (isMeaningfulEscape_of_isQuote hquote) (otherQuote_ne quote).symm ih
    · rw [requote_other hescape hc]
      exact .char hescape hline hc ih
  | escape c _ ih =>
    rcases escape_cases quote c with rfl | ⟨hmeaning, hother⟩ | hnone
    · have hother := isQuote_otherQuote quote
      rw [requote_escaped_other]
      exact .char (ne_backslash_of_isQuote hother) (ne_lineFeed_of_isQuote hother)
        (otherQuote_ne quote) ih
    · rw [requote_escape hmeaning hother]
      exact .escape hmeaning hother ih
    · -- a character that stays behind no backslash is itself none, and no quote or line feed
      rw [requote_meaningless hnone]
      exact .char (ne_of_meaningless hnone (by decide)) (ne_of_meaningless hnone (by decide))
        (ne_of_meaningless hnone (isMeaningfulEscape_of_isQuote hquote)) ih

/-- The value of the string stays. -/
theorem cookChars_requote : cookChars (requote quote body) = cookChars body := by
  -- induction on the body, character by character
  induction h with
  | nil => rfl
  | @char c cs hescape _ _ _ ih =>
    -- a quote is escaped, and reads as itself
    by_cases hc : c = quote
    · rw [hc, requote_quote hquote, cookChars_escape (ne_lineFeed_of_isQuote hquote),
        cookChars_char (ne_backslash_of_isQuote hquote), escapeValue_of_isQuote hquote, ih]
    · rw [requote_other hescape hc, cookChars_char hescape, cookChars_char hescape, ih]
  | escape c _ ih =>
    -- what is escaped is the other quote, something with a meaning, or something without
    rcases escape_cases quote c with rfl | ⟨hmeaning, hother⟩ | hnone
    · have hother := isQuote_otherQuote quote
      rw [requote_escaped_other, cookChars_char (ne_backslash_of_isQuote hother),
        cookChars_escape (ne_lineFeed_of_isQuote hother), escapeValue_of_isQuote hother, ih]
    · rw [requote_escape hmeaning hother, cookChars, cookChars, ih]
    · -- an escape without a meaning reads as the character it stands for
      rw [requote_meaningless hnone, cookChars_char (ne_of_meaningless hnone (by decide)),
        cookChars_escape (ne_of_meaningless hnone (by decide)), escapeValue_of_meaningless hnone,
        ih]

/-- Only backslashes come and go. -/
theorem count_requote {x : Char} (hx : x ≠ '\\') :
    (requote quote body).count x = body.count x := by
  have hback : ('\\' == x) = false := by simpa using hx.symm
  -- induction on the body: only backslashes come or go
  induction h with
  | nil => rfl
  | @char c cs hescape _ _ _ ih =>
    by_cases hc : c = quote
    · rw [hc, requote_quote hquote]
      simp [List.count_cons, hback, ih]
    · rw [requote_other hescape hc]
      simp [List.count_cons, ih]
  | escape c _ ih =>
    rcases escape_cases quote c with rfl | ⟨hmeaning, hother⟩ | hnone
    · rw [requote_escaped_other]
      simp [List.count_cons, hback, ih]
    · rw [requote_escape hmeaning hother]
      simp [List.count_cons, hback, ih]
    · rw [requote_meaningless hnone]
      simp [List.count_cons, hback, ih]

end

/-- A string is printed between the quotes that its body prefers. -/
theorem printString_of_quoted {text : String} (h : text.toList = quote :: body ++ [quote])
    (single : Bool) : printString text single =
      String.ofList (enclose body (preferredQuote body single)) := by
  rw [printString, h, contentOf_quoted]

/-- The value of a string is that of its body. -/
theorem cook_of_quoted {text : String} (h : text.toList = quote :: body ++ [quote]) :
    cook text = String.ofList (cookChars body) := by
  rw [cook, h, contentOf_quoted]

/-- A string of the scanner is printed as a string: the printed text is read as one string again,
has the same value, and is printed in the same way.  It stands in the preferred quotes, unless there
are more of them in the content than of the others. -/
theorem printString_keeps {mode : ScanMode} {s s' : Scanner} {t : Token}
    (h : Scan.next mode s = (.ok t, s')) (ht : t.kind = .string) (single : Bool) :
    let printed := printString t.text single
    let preferred := if single then '\'' else '"'
    let content := contentOf t.text.toList
    let quote :=
      if content.count preferred > content.count (otherQuote preferred) then otherQuote preferred
      else preferred
    ReadsAlone .script .string printed ∧
      cook printed = cook t.text ∧
      (∃ body, Quoted quote body ∧ printed.toList = quote :: body ++ [quote]) ∧
      printString printed single = printed := by
  intro printed preferred content quote
  -- the token is a body between quotes
  obtain ⟨old, body, -, hbody, htext⟩ := Scan.next_string h ht
  have hcontent : content = body := by
    show contentOf t.text.toList = body
    rw [htext, contentOf_quoted]
  -- the quote is the one of the statement
  have hchosen : preferredQuote body single = quote := by
    simp only [quote, hcontent, preferred, preferredQuote]
    cases single <;> rfl
  have hquote : Text.isQuote quote = true := by
    rw [← hchosen]
    exact isQuote_preferredQuote body single
  have hprinted : printed = String.ofList (quote :: requote quote body ++ [quote]) := by
    rw [← hchosen]
    exact printString_of_quoted htext single
  have hlist : printed.toList = quote :: requote quote body ++ [quote] := by
    rw [hprinted, String.toList_ofList]
  -- the body that is printed has the other quotes escaped
  have hrequoted := requoted_requote hquote hbody
  refine ⟨?_, ?_, ⟨_, hrequoted.quoted, hlist⟩, ?_⟩
  · -- the printed text is read as one string
    rw [hprinted]
    exact readsAlone_quoted hquote hrequoted.quoted
  · rw [cook_of_quoted hlist, cook_of_quoted htext, cookChars_requote hquote hbody]
  · -- the counts of the quotes are those of the content, and so the choice is the same
    have hagain : preferredQuote (requote quote body) single = quote := by
      rw [← hchosen]
      exact preferredQuote_congr fun x hx =>
        count_requote (isQuote_preferredQuote body single) hbody (ne_backslash_of_isQuote hx)
    rw [printString_of_quoted hlist, hagain, enclose, hrequoted.requote_eq, hprinted]

/-- An escaped apostrophe is printed without its backslash between double quotes. -/
theorem printString_keeps_apostrophe :
    Scan.next .script (.start (.ofString "'it\\'s'")) =
        (.ok ⟨.string, "'it\\'s'", ⟨{}, (Scanner.behind "'it\\'s'").position⟩, false⟩,
          .behind "'it\\'s'") ∧
      printString "'it\\'s'" false = "\"it's\"" ∧
      ReadsAlone .script .string "\"it's\"" ∧ cook "\"it's\"" = cook "'it\\'s'" ∧
      printString "\"it's\"" false = "\"it's\"" := by
  -- the body of the token, with its escape
  have hbody : Quoted '\'' "it\\'s".toList :=
    .char (by decide) (by decide) (by decide) <| .char (by decide) (by decide) (by decide) <|
      .escape '\'' <| .char (by decide) (by decide) (by decide) .nil
  have htoken := (readsAlone_quoted rfl hbody).token
  have hkeeps := printString_keeps htoken rfl false
  have hprinted : printString "'it\\'s'" false = "\"it's\"" := by decide
  exact ⟨htoken, hprinted, hprinted ▸ hkeeps.1, hprinted ▸ hkeeps.2.1, hprinted ▸ hkeeps.2.2.2⟩

end Reflow.Literal
