import Mathlib.Data.List.Forall2
import Mathlib.Data.List.Infix
import Reflow.Proofs.Stylesheet.Segments
import Reflow.Proofs.Stylesheet.Spacing

/-!
# Strings that the printer spares

The printer of a value keeps out of strings too, but it takes every quote for the end of a string:
to it a backslash means nothing, and neither does a comment.  So it may take itself to be outside
strings where it stands in one.  There it leaves a string alone as long as it comes to no white
space and to no comma between two values.

## Key results

- `stringsOf`: the strings of a text
- `sparesStrings`, `sparesSelector`: texts whose strings the printer leaves alone
- `inOrder_formatValueChars`, `inOrder_formatSelector`: formatted values and selectors have the
  strings of the texts that they are made from
-/

namespace Reflow.Stylesheet

open Text (InOrder EndsSolid)

/-- A part as it is written. -/
def Segment.written : Segment → List Char
  | .char c => [c]
  | .string quote body => quote :: (body ++ [quote])
  | .comment text => '/' :: '*' :: text
  | .unclosed text => text

/-- The string that a part is, with its quotes. -/
def Segment.string? : Segment → Option (List Char)
  | .string quote body => some (Segment.string quote body).written
  | _ => none

/-- The strings of a text, with their quotes. -/
def stringsOf (cs : List Char) : List (List Char) := (segments cs).filterMap Segment.string?

/-- Does the printer of a value change what stands around the character, or the character? -/
def SplitState.touches (s : SplitState) (c : Char) : Bool :=
  s.separates ',' c || (s.quote.isNone && Text.isSpace c)

/-- Behind a text. -/
def SplitState.behind (s : SplitState) (cs : List Char) : SplitState := cs.foldl SplitState.after s

/-- Does the printer of a value leave a text alone to which it comes? -/
def SplitState.spares (s : SplitState) : List Char → Bool
  | [] => true
  | c :: cs => !s.touches c && (s.after c).spares cs

/-- Does the printer of a value leave the strings among the parts alone? -/
def sparesFrom (s : SplitState) : List Segment → Bool
  | [] => true
  | part :: parts =>
    part.string?.all (s.spares ·) && sparesFrom (s.behind part.written) parts

/-- Does the printer of a value leave its strings alone? -/
def sparesStrings (value : List Char) : Bool := sparesFrom {} (segments value)

/-- Are there brackets in a selector, which then keeps its spaces? -/
def hasBrackets (selector : List Char) : Bool := selector.contains '[' || selector.contains '('

/-- Does the printer of selectors leave their strings alone?  In a selector without brackets it puts
spaces around combinators, wherever they stand. -/
def sparesSelector (selector : List Char) : Bool :=
  sparesStrings selector && (splitTopLevel ',' {} selector).all fun part =>
    hasBrackets part ||
      (stringsOf selector).all fun t => !decide (t <:+: part) || !t.any isCombinator

/-- The text is a string with its quotes, or looks like one. -/
def InQuotes (t : List Char) : Prop :=
  ∃ quote body, Text.isQuote quote = true ∧ t = quote :: (body ++ [quote])

/-- The strings stand in the text, and the printer of a value leaves them alone when it comes to the
text. -/
inductive Spares : SplitState → List Char → List (List Char) → Prop
  | nil (s : SplitState) : Spares s [] []
  | char {s : SplitState} {c : Char} {cs : List Char} {ts : List (List Char)}
    (h : Spares (s.after c) cs ts) : Spares s (c :: cs) ts
  | string {s : SplitState} {t cs : List Char} {ts : List (List Char)} (ht : InQuotes t)
    (hspares : s.spares t = true) (h : Spares (s.behind t) cs ts) : Spares s (t ++ cs) (t :: ts)

variable {s : SplitState} {a cs t back front part : List Char} {ts us : List (List Char)}
  {parts : List (List Char)} {c : Char}

/-! ## Quotes -/

/-- A quote is no white space. -/
theorem not_isSpace_of_isQuote (h : Text.isQuote c = true) : Text.isSpace c = false := by
  rcases isQuote_iff.1 h with rfl | rfl <;> rfl

/-- A quote is no combinator. -/
theorem not_isCombinator_of_isQuote (h : Text.isQuote c = true) : isCombinator c = false := by
  rcases isQuote_iff.1 h with rfl | rfl <;> rfl

/-- A string ends with its quote, which is not trimmed. -/
theorem InQuotes.endsSolid (h : InQuotes t) : EndsSolid t := by
  obtain ⟨quote, body, hquote, rfl⟩ := h
  refine ⟨quote :: body, quote, rfl, ?_⟩
  rcases isQuote_iff.1 hquote with rfl | rfl <;> rfl

/-- White space behind a string does not start in it. -/
theorem InQuotes.of_append (h : InQuotes t) (hback : ∀ c ∈ back, Text.isSpace c = true) :
    ∃ front c, t = front ++ [c] ∧ c ∉ back := by
  obtain ⟨quote, body, hquote, rfl⟩ := h
  refine ⟨quote :: body, quote, rfl, fun hmem => ?_⟩
  exact Bool.false_ne_true ((not_isSpace_of_isQuote hquote).symm.trans (hback quote hmem))

/-- Nor does white space in front of it end there. -/
theorem InQuotes.of_front (h : InQuotes t) (hfront : ∀ c ∈ front, Text.isSpace c = true) :
    ∃ c back, t = c :: back ∧ c ∉ front := by
  obtain ⟨quote, body, hquote, rfl⟩ := h
  refine ⟨quote, body ++ [quote], rfl, fun hmem => ?_⟩
  exact Bool.false_ne_true ((not_isSpace_of_isQuote hquote).symm.trans (hfront quote hmem))

/-- Strings stay when a text is trimmed. -/
theorem inOrder_trimChars (hts : ∀ t ∈ ts, InQuotes t) (h : InOrder ts cs) :
    InOrder ts (Text.trimChars cs) := by
  obtain ⟨front, back, hsplit, hfront, hback⟩ := Text.trimChars_split cs
  rw [hsplit] at h
  exact (h.of_front fun t ht => (hts t ht).of_front hfront).of_append fun t ht =>
    (hts t ht).of_append hback

/-! ## The strings of a text -/

/-- The strings among the parts stand in the text one after the other. -/
theorem Scans.inOrder {parts : List Segment} (h : Scans cs parts) :
    InOrder (parts.filterMap Segment.string?) cs := by
  induction h with
  | nil => exact .nil _
  | @char c _ _ _ _ _ ih => exact ih.front [c]
  | @string quote body cs _ _ _ _ ih =>
    have hone := ih.cons [] (quote :: (body ++ [quote]))
    simpa [Segment.string?, Segment.written] using hone
  | @comment text cs _ _ _ ih =>
    have hbehind := ih.front ('/' :: '*' :: text)
    rw [List.cons_append, List.cons_append] at hbehind
    exact hbehind

/-- Each of them has its quotes. -/
theorem Scans.inQuotes {parts : List Segment} (h : Scans cs parts) :
    ∀ t ∈ parts.filterMap Segment.string?, InQuotes t := by
  induction h with
  | nil => nofun
  | char _ _ _ ih | comment _ _ ih => exact ih
  | string hquote _ _ ih => exact List.forall_mem_cons.2 ⟨⟨_, _, hquote, rfl⟩, ih⟩

/-- The strings of a text are those of its longest start that leaves nothing open. -/
theorem stringsOf_eq (cs : List Char) : ∃ front rest parts, cs = front ++ rest ∧
    Scans front parts ∧ stringsOf cs = parts.filterMap Segment.string? := by
  obtain ⟨front, rest, parts, hsplit, hparts, hsegments⟩ := segments_spec cs
  have hnone :
      (if rest = [] then [] else [Segment.unclosed rest]).filterMap Segment.string? = [] := by
    split <;> rfl
  exact ⟨front, rest, parts, hsplit, hparts, by
    rw [stringsOf, hsegments, List.filterMap_append, hnone, List.append_nil]⟩

/-- They have their quotes. -/
theorem inQuotes_stringsOf (cs : List Char) : ∀ t ∈ stringsOf cs, InQuotes t := by
  obtain ⟨front, rest, parts, -, hparts, hstrings⟩ := stringsOf_eq cs
  rw [hstrings]
  exact hparts.inQuotes

/-- The strings of a text stand in it. -/
theorem inOrder_stringsOf (cs : List Char) : InOrder (stringsOf cs) cs := by
  obtain ⟨front, rest, parts, rfl, hparts, hstrings⟩ := stringsOf_eq cs
  rw [hstrings]
  exact hparts.inOrder.back rest

/-- Where the printer leaves the strings among the parts alone, it leaves those of the text alone.
-/
theorem Scans.spares {parts : List Segment} (h : Scans cs parts)
    (hspares : sparesFrom s parts = true) : Spares s cs (parts.filterMap Segment.string?) := by
  -- of what is no string every character is passed over by itself
  have hchars : ∀ a {s : SplitState} {cs ts}, Spares (s.behind a) cs ts →
      Spares s (a ++ cs) ts := by
    intro a
    induction a with
    | nil => exact id
    | cons c a ih => exact fun h => .char (ih h)
  induction h generalizing s with
  | nil => exact .nil s
  | @char c cs parts _ _ _ ih => exact .char (ih hspares)
  | @string quote body cs parts hquote _ _ ih =>
    obtain ⟨hstring, hparts⟩ := Bool.and_eq_true_iff.1 hspares
    have hbehind := (ih hparts).string ⟨quote, body, hquote, rfl⟩ hstring
    simpa [Segment.string?, Segment.written] using hbehind
  | @comment text cs parts _ _ ih => exact hchars ('/' :: '*' :: text) (ih hspares)

/-- In a text that leaves nothing open the strings are left alone if the parts say so. -/
theorem Closed.spares (h : Closed cs) (hspares : sparesStrings cs = true) :
    Spares {} cs (stringsOf cs) := h.scans.spares hspares

/-- Strings that are left alone have their quotes. -/
theorem Spares.inQuotes (h : Spares s cs ts) : ∀ t ∈ ts, InQuotes t := by
  induction h with
  | nil => nofun
  | char _ ih => exact ih
  | string ht _ _ ih => exact List.forall_mem_cons.2 ⟨ht, ih⟩

/-- They stand in the text one after the other. -/
theorem Spares.inOrder (h : Spares s cs ts) : InOrder ts cs := by
  induction h with
  | nil => exact .nil _
  | @char s c cs ts _ ih => exact ih.front [c]
  | @string s t cs ts _ _ _ ih => exact .cons [] t ih

/-! ## Values -/

/-- In a string only its quote ends it; outside, every quote opens one. -/
theorem quote_after (s : SplitState) (c : Char) : (s.after c).quote =
    match s.quote with
    | some q => if c = q then none else some q
    | none => if Text.isQuote c then some c else none := by
  -- in a string only its quote matters, outside only the quotes do
  obtain ⟨depth, quote⟩ := s
  cases quote with
  | some q => rfl
  | none =>
    simp only [SplitState.after]
    split
    · rfl
    · split
      · rfl
      · split <;> rfl

/-- A string that is left alone is in the first part. -/
theorem splitTopLevel_append (hspares : s.spares t = true)
    (h : splitTopLevel ',' (s.behind t) cs = part :: parts) :
    splitTopLevel ',' s (t ++ cs) = (t ++ part) :: parts := by
  induction t generalizing s with
  | nil => exact h
  | cons c t ih =>
    simp only [SplitState.spares, SplitState.touches, Bool.and_eq_true, Bool.not_eq_true',
      Bool.or_eq_false_iff] at hspares
    rw [List.cons_append, splitTopLevel, hspares.1.1, if_neg Bool.false_ne_true, ih hspares.2 h]
    rfl

/-- The printer is outside brackets and strings where it separates. -/
theorem eq_of_separates (h : s.separates ',' c = true) : s = {} ∧ c = ',' := by
  obtain ⟨depth, quote⟩ := s
  simp only [SplitState.separates, Bool.and_eq_true, Option.isNone_iff_eq_none, beq_iff_eq] at h
  obtain ⟨⟨rfl, rfl⟩, rfl⟩ := h
  exact ⟨rfl, rfl⟩

/-- The strings of a text are those of its parts between commas. -/
theorem Spares.split (h : Spares s cs ts) : ∃ part parts us uss,
    splitTopLevel ',' s cs = part :: parts ∧ Spares s part us ∧
      List.Forall₂ (Spares {}) parts uss ∧ ts = us ++ uss.flatten := by
  induction h with
  | nil s => exact ⟨[], [], [], [], rfl, .nil s, .nil, rfl⟩
  | @char s c cs ts h ih =>
    obtain ⟨part, parts, us, uss, hsplit, hpart, hparts, rfl⟩ := ih
    by_cases hsep : s.separates ',' c = true
    · -- behind a comma the printer starts anew, in the state that it is in already
      obtain ⟨rfl, rfl⟩ := eq_of_separates hsep
      refine ⟨[], part :: parts, [], us :: uss, ?_, .nil _, .cons hpart hparts, rfl⟩
      rw [splitTopLevel, if_pos hsep]
      exact congrArg _ hsplit
    · refine ⟨c :: part, parts, us, uss, ?_, .char hpart, hparts, rfl⟩
      rw [splitTopLevel, if_neg hsep, hsplit]
  | @string s t cs ts ht hspares h ih =>
    obtain ⟨part, parts, us, uss, hsplit, hpart, hparts, rfl⟩ := ih
    exact ⟨t ++ part, parts, t :: us, uss, splitTopLevel_append hspares hsplit,
      .string ht hspares hpart, hparts, rfl⟩

/-- The parts of a text between commas have its strings. -/
theorem Spares.splitTopLevel (h : Spares {} cs ts) : ∃ uss,
    List.Forall₂ (Spares {}) (splitTopLevel ',' {} cs) uss ∧ ts = uss.flatten := by
  obtain ⟨part, parts, us, uss, hsplit, hpart, hparts, rfl⟩ := h.split
  rw [hsplit]
  exact ⟨us :: uss, .cons hpart hparts, rfl⟩

/-- Outside strings white space changes nothing for the printer. -/
theorem after_of_isSpace (h : Text.isSpace c = true) : SplitState.after {} c = {} := by
  have hclass : ∀ d ∈ ['"', '\'', '(', '[', ')', ']'], c ≠ d := by
    rintro d hd rfl
    have hnone : ∀ d ∈ ['"', '\'', '(', '[', ')', ']'], Text.isSpace d = false :=
      Text.forall_mem_of_all (by decide)
    exact Bool.false_ne_true ((hnone _ hd).symm.trans h)
  simp only [List.forall_mem_cons, List.not_mem_nil, false_implies, implies_true,
    and_true] at hclass
  obtain ⟨h1, h2, h3, h4, h5, h6⟩ := hclass
  simp [SplitState.after, Text.isQuote, h1, h2, h3, h4, h5, h6]

/-- White space in front of a text. -/
theorem Spares.of_front (hfront : ∀ c ∈ front, Text.isSpace c = true)
    (h : Spares {} (front ++ cs) ts) : Spares {} cs ts := by
  induction front with
  | nil => exact h
  | cons c front ih =>
    have hc := hfront c List.mem_cons_self
    refine ih (fun d hd => hfront d (List.mem_cons_of_mem _ hd)) ?_
    -- white space is no part of a string
    generalize hwhole : c :: front ++ cs = whole at h
    cases h with
    | nil => cases hwhole
    | char h =>
      obtain ⟨rfl, rfl⟩ := List.cons.inj hwhole
      rwa [after_of_isSpace hc] at h
    | string ht =>
      obtain ⟨quote, body, hquote, rfl⟩ := ht
      obtain rfl : c = quote := (List.cons.inj hwhole).1
      rw [not_isSpace_of_isQuote hquote] at hc
      cases hc

/-- There are no strings in white space. -/
theorem Spares.eq_nil_of_spaces (hcs : ∀ c ∈ cs, Text.isSpace c = true) (h : Spares s cs ts) :
    ts = [] := by
  refine List.eq_nil_iff_forall_not_mem.2 fun t ht => ?_
  obtain ⟨quote, body, hquote, rfl⟩ := h.inQuotes t ht
  have hspace := hcs quote ((h.inOrder.infix_of_mem ht).subset List.mem_cons_self)
  rw [not_isSpace_of_isQuote hquote] at hspace
  cases hspace

/-- White space at the end of a text. -/
theorem Spares.before (hback : ∀ c ∈ back, Text.isSpace c = true) (h : Spares s (cs ++ back) ts) :
    Spares s cs ts := by
  generalize hwhole : cs ++ back = whole at h
  induction h generalizing cs with
  | nil s =>
    rw [(List.append_eq_nil_iff.1 hwhole).1]
    exact .nil s
  | @char s c rest ts h ih =>
    rcases List.append_eq_cons_iff.1 hwhole with ⟨rfl, rfl⟩ | ⟨cs, rfl, rfl⟩
    · obtain rfl := h.eq_nil_of_spaces fun d hd => hback d (List.mem_cons_of_mem _ hd)
      exact .nil s
    · exact .char (ih rfl)
  | @string s t rest ts ht hspares h ih =>
    -- a string ends with its quote, in front of the white space
    obtain ⟨front, c, rfl, hc⟩ := ht.of_append hback
    obtain ⟨middle, rfl, hrest⟩ := Text.eq_append_of_not_mem hc hwhole
    exact .string ht hspares (ih hrest.symm)

/-- Trimming leaves the strings alone. -/
theorem Spares.trimChars (h : Spares {} cs ts) : Spares {} (Text.trimChars cs) ts := by
  obtain ⟨front, back, hsplit, hfront, hback⟩ := Text.trimChars_split cs
  rw [hsplit] at h
  exact (h.of_front hfront).before hback

/-- A string that is left alone stays when white space is collapsed. -/
theorem collapseFrom_append (hspares : s.spares t = true) (cs : List Char) :
    collapseFrom ⟨s.quote, false⟩ (t ++ cs) =
      t ++ collapseFrom ⟨(s.behind t).quote, false⟩ cs := by
  induction t generalizing s with
  | nil => rfl
  | cons c t ih =>
    simp only [SplitState.spares, SplitState.touches, Bool.and_eq_true, Bool.not_eq_true',
      Bool.or_eq_false_iff] at hspares
    -- the printer is in a string, or comes to no white space
    obtain ⟨⟨-, hspace⟩, ht⟩ := hspares
    have hafter := quote_after s c
    have hrest := ih ht
    rw [List.cons_append, collapseFrom]
    -- in a string the character stays, and may close it
    cases hquote : s.quote with
    | some q =>
      rw [hquote] at hafter
      rw [hafter] at hrest
      exact congrArg _ hrest
    -- outside it is solid, and may open one
    | none =>
      rw [hquote] at hafter hspace
      rw [hafter] at hrest
      have hspace : Text.isSpace c = false := hspace
      simp only [hspace, Bool.false_eq_true, if_false]
      exact congrArg _ hrest

/-- A space that is owed is written in front of what is no white space. -/
theorem collapseFrom_owed (hc : Text.isSpace c = false) (cs : List Char) :
    collapseFrom ⟨none, true⟩ (c :: cs) = ' ' :: collapseFrom ⟨none, false⟩ (c :: cs) := by
  simp [collapseFrom, hc]

/-- The strings of a text stand in it when its white space is collapsed.  No space is owed in a
string. -/
theorem Spares.collapseFrom (h : Spares s cs ts) (pending : Bool)
    (hpending : s.quote.isSome → pending = false) :
    InOrder ts (collapseFrom ⟨s.quote, pending⟩ cs) := by
  induction h generalizing pending with
  | nil => exact .nil _
  | @char s c cs ts h ih =>
    have hafter := quote_after s c
    rw [Stylesheet.collapseFrom]
    cases hquote : s.quote with
    | some q =>
      -- inside quotes, by the printer's count, every character is copied
      rw [hquote] at hafter
      have hrest := ih false fun _ => rfl
      rw [hafter] at hrest
      obtain rfl : pending = false := hpending (by rw [hquote]; rfl)
      exact hrest.front [c]
    | none =>
      rw [hquote] at hafter
      by_cases hspace : Text.isSpace c = true
      · -- white space is owed from here on; it opens no quotes, so that none are owed inside them
        have hquote : Text.isQuote c ≠ true := fun hc => by
          rw [not_isSpace_of_isQuote hc] at hspace
          cases hspace
        have hnone : (s.after c).quote = none := hafter.trans (if_neg hquote)
        have hrest := ih true (by simp [hnone])
        rw [hnone] at hrest
        simpa [hspace] using hrest
      · have hrest := ih false fun _ => rfl
        rw [hafter] at hrest
        cases pending with
        | false => simpa [hspace] using hrest.front [c]
        | true => simpa [hspace] using hrest.front [' ', c]
  | @string s t cs ts ht hspares h ih =>
    have hstring := InOrder.cons [] t (ih false fun _ => rfl)
    rw [List.nil_append, ← collapseFrom_append hspares] at hstring
    cases pending with
    | false => exact hstring
    | true =>
      -- the space that is owed comes to stand in front of the opening quote
      obtain ⟨quote, body, hquote, rfl⟩ := ht
      have hnone : s.quote = none := by
        cases hs : s.quote with
        | none => rfl
        | some q => cases hpending (by rw [hs]; rfl)
      rw [hnone] at hstring ⊢
      rw [List.cons_append, collapseFrom_owed (not_isSpace_of_isQuote hquote)]
      exact hstring.front [' ']

/-- Collapsing white space does: the printer knows of every string that is left alone that it is
one. -/
theorem Spares.collapse (h : Spares {} cs ts) : InOrder ts (collapse cs) :=
  h.trimChars.collapseFrom false fun _ => rfl

/-- Separated parts have the strings of the parts. -/
theorem inOrder_intercalate {f : List Char → List Char} {separator : List Char}
    {uss : List (List (List Char))}
    (h : List.Forall₂ (fun part us => InOrder us (f part)) parts uss) :
    InOrder uss.flatten (separator.intercalate (parts.map f)) := by
  induction h with
  | nil => exact .nil _
  | @cons part us parts uss hpart hparts ih =>
    -- the last part has no separator behind it
    cases parts with
    | nil =>
      cases hparts
      simpa [List.intercalate] using hpart
    -- the strings of the part stand in front of the separator
    | cons next parts =>
      rw [List.map_cons, List.map_cons, List.intercalate_cons_cons, List.flatten_cons]
      rw [List.map_cons] at ih
      exact (hpart.back separator).append ih

/-- A formatted value has the strings of the value. -/
theorem inOrder_formatValueChars (hclosed : Closed cs) (hspares : sparesStrings cs = true) :
    InOrder (stringsOf cs) (formatValueChars cs) := by
  obtain ⟨uss, hparts, hstrings⟩ := (hclosed.spares hspares).splitTopLevel
  rw [hstrings, formatValueChars]
  exact inOrder_intercalate (hparts.imp fun _ _ hpart => hpart.collapse)

/-! ## Selectors -/

/-- What stands behind a text is spaced behind it. -/
theorem spaceCombinators_append (skipping : Bool) (a b : List Char) : ∃ a' skipping',
    spaceCombinators skipping (a ++ b) = a' ++ spaceCombinators skipping' b := by
  induction a generalizing skipping with
  | nil => exact ⟨[], skipping, rfl⟩
  | cons c a ih =>
    rw [List.cons_append, spaceCombinators]
    -- a combinator, white space or another character, each with its own skipping behind it
    split
    · obtain ⟨a', skipping', ha⟩ := ih true
      exact ⟨' ' :: c :: ' ' :: a', skipping', by rw [ha]; rfl⟩
    split
    · split
      · exact ih skipping
      · obtain ⟨a', skipping', ha⟩ := ih false
        exact ⟨c :: a', skipping', by rw [ha]; rfl⟩
    · obtain ⟨a', skipping', ha⟩ := ih false
      exact ⟨c :: a', skipping', by rw [ha]; rfl⟩

/-- A text without combinators in front of a quote stays. -/
theorem spaceCombinators_body {quote : Char} {body : List Char}
    (hquote : Text.isQuote quote = true) (hbody : ∀ c ∈ body, isCombinator c = false)
    (cs : List Char) : spaceCombinators false (body ++ quote :: cs) =
      body ++ quote :: spaceCombinators false cs := by
  -- white space is dropped in front of combinators only, and there are none up to the quote
  have hnext : ∀ body : List Char, (∀ c ∈ body, isCombinator c = false) →
      ((body ++ quote :: cs).dropWhile Text.isSpace).head?.any isCombinator = false := by
    intro body hbody
    induction body with
    | nil => simp [not_isSpace_of_isQuote hquote, not_isCombinator_of_isQuote hquote]
    | cons c body ih =>
      rw [List.forall_mem_cons] at hbody
      by_cases hc : Text.isSpace c = true
      · simpa [hc] using ih hbody.2
      · simp [hc, hbody.1]
  induction body with
  | nil =>
    simp [spaceCombinators, not_isSpace_of_isQuote hquote, not_isCombinator_of_isQuote hquote]
  | cons c body ih =>
    rw [List.forall_mem_cons] at hbody
    have hrest := ih hbody.2
    simp [spaceCombinators, hbody.1, hnext body hbody.2, hrest]

/-- Strings without combinators stay when combinators are spaced. -/
theorem inOrder_spaceCombinators (h : InOrder ts cs)
    (hts : ∀ t ∈ ts, InQuotes t ∧ ∀ c ∈ t, isCombinator c = false) (skipping : Bool) :
    InOrder ts (spaceCombinators skipping cs) := by
  -- by induction on the strings: what is between them changes, but they do not
  induction h generalizing skipping with
  | nil => exact .nil _
  | @cons gap t ts cs h ih =>
    rw [List.forall_mem_cons] at hts
    obtain ⟨⟨⟨quote, body, hquote, rfl⟩, hnone⟩, hts⟩ := hts
    obtain ⟨gap', skipping', hgap⟩ :=
      spaceCombinators_append skipping gap (quote :: (body ++ [quote]) ++ cs)
    -- no combinator is in a string, so none gets spaces there
    have hbody := spaceCombinators_body hquote
      (fun c hc => hnone c (List.mem_cons_of_mem _ (List.mem_append_left _ hc))) cs
    have hstring : spaceCombinators skipping' (quote :: (body ++ [quote]) ++ cs) =
        quote :: (body ++ [quote]) ++ spaceCombinators false cs := by
      simp [spaceCombinators, not_isSpace_of_isQuote hquote, not_isCombinator_of_isQuote hquote,
        hbody]
    rw [hgap, hstring]
    exact .cons gap' _ (ih hts false)

/-- Collapsing white space takes and adds no essential character. -/
theorem mem_collapse (hc : isEssential c = true) (cs : List Char) : c ∈ collapse cs ↔ c ∈ cs := by
  have hmem : ∀ ds, c ∈ essential ds ↔ c ∈ ds := fun ds => by simp [essential, hc]
  have halike := (alike_collapse cs).essential
  simp only [List.flatMap_singleton] at halike
  rw [← hmem, halike, hmem]

/-- Collapsing neither adds brackets nor takes any. -/
theorem hasBrackets_collapse (cs : List Char) : hasBrackets (collapse cs) = hasBrackets cs := by
  have hsquare := mem_collapse (c := '[') (by decide) cs
  have hround := mem_collapse (c := '(') (by decide) cs
  simp [hasBrackets, hsquare, hround]

/-- A formatted selector has the strings of the selector. -/
theorem inOrder_formatOneSelector (h : Spares {} part ts)
    (hts : hasBrackets part = true ∨ ∀ t ∈ ts, ∀ c ∈ t, isCombinator c = false) :
    InOrder ts (formatOneSelector part) := by
  rw [formatOneSelector]
  split
  · exact h.collapse
  · rename_i hbrackets
    have hts := hts.resolve_left fun hpart => hbrackets ((hasBrackets_collapse part).trans hpart)
    exact inOrder_trimChars h.inQuotes (inOrder_spaceCombinators h.collapse
      (fun t ht => ⟨h.inQuotes t ht, hts t ht⟩) false)

/-- Formatted selectors have the strings of the selectors. -/
theorem inOrder_formatSelector (hclosed : Closed cs) (hspares : sparesSelector cs = true) :
    ∃ uss, List.Forall₂ (fun part us => InOrder us (formatOneSelector part))
      (splitTopLevel ',' {} cs) uss ∧ stringsOf cs = uss.flatten := by
  obtain ⟨hstrings, hselectors⟩ := Bool.and_eq_true_iff.1 hspares
  obtain ⟨uss, hparts, hflatten⟩ := (hclosed.spares hstrings).splitTopLevel
  refine ⟨uss, List.forall₂_iff_zip.2 ⟨hparts.length_eq, fun {part us} hmem => ?_⟩, hflatten⟩
  have hpart := List.forall₂_zip hparts hmem
  obtain ⟨hpartMem, husMem⟩ := List.of_mem_zip hmem
  refine inOrder_formatOneSelector hpart ?_
  rcases Bool.or_eq_true_iff.1 (List.all_eq_true.1 hselectors part hpartMem) with hbrackets | hnone
  · exact .inl hbrackets
  · -- the strings of a selector stand in it, and so the test for the whole text is one for them
    refine .inr fun t ht => ?_
    have hstring : t ∈ stringsOf cs := hflatten ▸ List.mem_flatten.2 ⟨us, husMem, ht⟩
    simpa [hpart.inOrder.infix_of_mem ht] using List.all_eq_true.1 hnone t hstring

end Reflow.Stylesheet
