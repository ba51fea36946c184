import Reflow.Proofs.Stylesheet.Spared

/-!
# Values and selectors that are formatted twice

The printer formats a list part by part: it cuts the text at the commas outside strings and brackets,
formats every part and puts the parts together again.  Of a formatted list it finds the same parts,
with white space in front of them, and formatting a part that is formatted changes nothing.  So a list
stays as it is when it is formatted a second time.

## Key results

- `Formats`: how a part of a list is formatted
- `formats_collapse`, `formats_formatOneSelector`: the parts of values and the selectors of a list are
- `Formats.map_split_join`: the parts of a formatted list are those that it was made of
- `formatValueChars_formatValueChars`: formatting a value again changes nothing
-/

namespace Reflow.Stylesheet

variable {s : SplitState} {a b cs : List Char} {c : Char}

/-! ## The parts of a list -/

/-- Does the printer find no separator in a text to which it comes? -/
def SplitState.keeps (s : SplitState) : List Char → Bool
  | [] => true
  | c :: cs => !s.separates ',' c && (s.after c).keeps cs

/-- The string that the printer is in was opened by a quote. -/
def SplitState.Sound (s : SplitState) : Prop := ∀ quote ∈ s.quote, Text.isQuote quote = true

/-- At the start no string is open. -/
theorem SplitState.sound_start : ({} : SplitState).Sound := nofun

/-- A string is opened by a quote only. -/
theorem SplitState.Sound.after (h : s.Sound) (c : Char) : (s.after c).Sound := by
  intro quote hquote
  rw [Option.mem_def, quote_after] at hquote
  -- in a string the quote stays or goes; outside one may open it
  cases hs : s.quote with
  | some q =>
    simp only [hs] at hquote
    split at hquote
    · cases hquote
    · exact h quote (hs.trans hquote)
  | none =>
    simp only [hs] at hquote
    split at hquote
    · rename_i hc
      exact Option.some.inj hquote ▸ hc
    · cases hquote

/-- White space and semicolons mean nothing to the printer of a list. -/
theorem SplitState.after_of_not_essential (h : s.Sound) (hc : isEssential c = false) :
    s.after c = s ∧ s.separates ',' c = false := by
  -- white space and semicolons are none of the characters that the printer looks at
  have hclass : ∀ d ∈ ['"', '\'', '(', '[', ')', ']', ','], isEssential d = true :=
    Text.forall_mem_of_all (by decide)
  have hne : ∀ d ∈ ['"', '\'', '(', '[', ')', ']', ','], c ≠ d := by
    rintro d hd rfl
    rw [hclass c hd] at hc
    cases hc
  simp only [List.forall_mem_cons, List.not_mem_nil, false_implies, implies_true, and_true] at hne
  obtain ⟨h1, h2, h3, h4, h5, h6, h7⟩ := hne
  constructor
  · -- in a string only its quote matters
    obtain ⟨depth, quote⟩ := s
    cases quote with
    | none => simp [SplitState.after, Text.isQuote, h1, h2, h3, h4, h5, h6]
    | some quote =>
      have hquote : c ≠ quote := by
        rintro rfl
        rcases isQuote_iff.1 (h c rfl) with rfl | rfl
        · exact h1 rfl
        · exact h2 rfl
      simp [SplitState.after, hquote]
  · simp [SplitState.separates, h7]

/-- What the printer of a list finds depends on the essential characters only. -/
theorem SplitState.keeps_essential (h : s.Sound) (cs : List Char) :
    s.keeps (essential cs) = s.keeps cs ∧ s.behind (essential cs) = s.behind cs := by
  induction cs generalizing s with
  | nil => exact ⟨rfl, rfl⟩
  | cons c cs ih =>
    rw [essential_cons]
    -- an essential character is met in either text
    by_cases hc : isEssential c = true
    · have hone : essential [c] = [c] := by simp [essential, hc]
      obtain ⟨hkeeps, hbehind⟩ := ih (h.after c)
      rw [hone, List.singleton_append]
      exact ⟨by rw [keeps, keeps, hkeeps], hbehind⟩
    · -- another one changes nothing
      rw [Bool.not_eq_true] at hc
      have hone : essential [c] = [] := by simp [essential, hc]
      obtain ⟨hafter, hseparates⟩ := after_of_not_essential h hc
      obtain ⟨hkeeps, hbehind⟩ := ih h
      have hcons : s.behind (c :: cs) = (s.after c).behind cs := rfl
      rw [hone, List.nil_append, keeps, hcons, hafter, hseparates]
      exact ⟨hkeeps, hbehind⟩

/-- Without a comma nothing is cut. -/
theorem SplitState.keeps_of_not_mem (h : ',' ∉ cs) : s.keeps cs = true := by
  induction cs generalizing s with
  | nil => rfl
  | cons c cs ih =>
    rw [List.mem_cons, not_or] at h
    have hc : (c == ',') = false := beq_eq_false_iff_ne.2 (Ne.symm h.1)
    rw [keeps, separates, hc, ih h.2]
    simp

/-- White space means nothing in front of a list. -/
theorem SplitState.behind_spaces {space : List Char} (hspace : ∀ x ∈ space, Text.isSpace x = true) :
    ({} : SplitState).behind space = {} := by
  have hnone := (keeps_essential sound_start space).2
  rw [essential_eq_nil hspace] at hnone
  exact hnone.symm

/-- What holds no separator is in the first part. -/
theorem splitTopLevel_keeps {p : List Char} {ps : List (List Char)} (h : s.keeps a = true)
    (hsplit : splitTopLevel ',' (s.behind a) cs = p :: ps) :
    splitTopLevel ',' s (a ++ cs) = (a ++ p) :: ps := by
  induction a generalizing s with
  | nil => exact hsplit
  | cons c a ih =>
    simp only [SplitState.keeps, Bool.and_eq_true, Bool.not_eq_true'] at h
    rw [List.cons_append, splitTopLevel, h.1, if_neg Bool.false_ne_true, ih h.2 hsplit]
    rfl

/-- A text in which the printer finds no comma is one part. -/
theorem splitTopLevel_of_keeps (h : s.keeps a = true) : splitTopLevel ',' s a = [a] := by
  have hnone : splitTopLevel ',' (s.behind a) [] = [[]] := rfl
  have hall := splitTopLevel_keeps h hnone
  rwa [List.append_nil] at hall

/-- The parts of a list: no separator is in any of them, and all but the last one end outside strings
and brackets. -/
inductive Listed : List (List Char) → Prop
  | last {p : List Char} (h : ({} : SplitState).keeps p = true) : Listed [p]
  | cons {p : List Char} {ps : List (List Char)} (h : ({} : SplitState).keeps p = true)
    (hend : ({} : SplitState).behind p = {}) (hrest : Listed ps) : Listed (p :: ps)

/-- A list has at least one part. -/
theorem Listed.ne_nil {ps : List (List Char)} (h : Listed ps) : ps ≠ [] := by
  cases h <;> exact List.cons_ne_nil _ _

/-- The parts that the printer finds in a text, from any place in the first one on. -/
theorem listed_split (s : SplitState) (cs : List Char) : ∃ p ps,
    splitTopLevel ',' s cs = p :: ps ∧ s.keeps p = true ∧
      (ps = [] ∨ s.behind p = {} ∧ Listed ps) := by
  induction cs generalizing s with
  | nil => exact ⟨[], [], rfl, rfl, .inl rfl⟩
  | cons c cs ih =>
    -- a separator ends the first part, another character goes into it
    by_cases hsep : s.separates ',' c = true
    · obtain ⟨rfl, rfl⟩ := eq_of_separates hsep
      obtain ⟨p, ps, hsplit, hkeeps, hps⟩ := ih {}
      refine ⟨[], p :: ps, ?_, rfl, .inr ⟨rfl, ?_⟩⟩
      · rw [splitTopLevel, if_pos hsep, hsplit]
      · rcases hps with rfl | ⟨hend, hps⟩
        · exact .last hkeeps
        · exact .cons hkeeps hend hps
    · obtain ⟨p, ps, hsplit, hkeeps, hps⟩ := ih (s.after c)
      refine ⟨c :: p, ps, ?_, ?_, hps⟩
      · rw [splitTopLevel, if_neg hsep, hsplit]
      · rw [SplitState.keeps, hkeeps, Bool.eq_false_iff.2 hsep]
        rfl

/-- The parts into which a text is cut make a list. -/
theorem listed_splitTopLevel (cs : List Char) : Listed (splitTopLevel ',' {} cs) := by
  obtain ⟨p, ps, hsplit, hkeeps, hps⟩ := listed_split {} cs
  rw [hsplit]
  rcases hps with rfl | ⟨hend, hps⟩
  · exact .last hkeeps
  · exact .cons hkeeps hend hps

/-- Other parts with the same essential characters are the parts of a list too. -/
theorem Listed.map {ps : List (List Char)} {f : List Char → List Char}
    (hf : ∀ p, essential (f p) = essential p) (h : Listed ps) : Listed (ps.map f) := by
  have hsame : ∀ p, ({} : SplitState).keeps (f p) = ({} : SplitState).keeps p ∧
      ({} : SplitState).behind (f p) = ({} : SplitState).behind p := by
    intro p
    obtain ⟨hkeeps, hbehind⟩ := SplitState.keeps_essential SplitState.sound_start (f p)
    obtain ⟨hkeeps', hbehind'⟩ := SplitState.keeps_essential SplitState.sound_start p
    rw [hf p] at hkeeps hbehind
    exact ⟨hkeeps.symm.trans hkeeps', hbehind.symm.trans hbehind'⟩
  induction h with
  | @last p h => exact .last ((hsame p).1.trans h)
  | @cons p ps h hend _ ih => exact .cons ((hsame p).1.trans h) ((hsame p).2.trans hend) ih

/-- Parts that are put together with commas, and white space behind these, are found again, with the
white space in front of all but the first. -/
theorem Listed.split_intercalate {p space : List Char} {ps : List (List Char)}
    (hspace : ∀ x ∈ space, Text.isSpace x = true) (h : Listed (p :: ps)) :
    splitTopLevel ',' {} ((',' :: space).intercalate (p :: ps)) = p :: ps.map (space ++ ·) := by
  -- the comma is no white space
  have hcomma : ',' ∉ space := fun hmem => absurd (hspace ',' hmem) (by decide)
  have hblank := SplitState.behind_spaces hspace
  generalize hall : p :: ps = all at h
  induction h generalizing p ps with
  | last h =>
    cases hall
    simpa [List.intercalate] using splitTopLevel_of_keeps h
  | @cons q qs h hend hrest ih =>
    cases hall
    obtain ⟨q', qs', rfl⟩ := List.exists_cons_of_ne_nil hrest.ne_nil
    -- the part behind the comma has the white space in front of it
    have hfirst : splitTopLevel ',' ({} : SplitState)
        (space ++ (',' :: space).intercalate (q' :: qs')) = (space ++ q') :: qs'.map (space ++ ·) :=
      splitTopLevel_keeps (SplitState.keeps_of_not_mem hcomma) (by rw [hblank]; exact ih rfl)
    -- the first part ends outside strings and brackets, so the comma behind it separates
    have hsep : splitTopLevel ',' (({} : SplitState).behind q)
        (',' :: (space ++ (',' :: space).intercalate (q' :: qs'))) =
          [] :: (space ++ q') :: qs'.map (space ++ ·) := by
      rw [hend, splitTopLevel, if_pos (by decide), hfirst]
    have hjoin : (',' :: space).intercalate (q :: q' :: qs') =
        q ++ ',' :: (space ++ (',' :: space).intercalate (q' :: qs')) := by
      rw [List.intercalate_cons_cons]
      simp
    rw [hjoin, splitTopLevel_keeps h hsep, List.append_nil]
    rfl

/-! ## Formatting the parts -/

/-- How a part of a list is formatted: its essential characters stay, white space around it does not
matter, and a second time nothing changes. -/
structure Formats (f : List Char → List Char) : Prop where
  essential : ∀ p, essential (f p) = essential p
  trim : ∀ p, f (Text.trimChars p) = f p
  again : ∀ p, f (f p) = f p

namespace Formats

variable {f : List Char → List Char} {space : List Char}

/-- White space in front of a part does not matter. -/
theorem front (hf : Formats f) (hspace : ∀ x ∈ space, Text.isSpace x = true) (p : List Char) :
    f (space ++ p) = f p := by
  rw [← hf.trim, Text.trimChars_front hspace, hf.trim]

/-- White space behind a part does not matter. -/
theorem back (hf : Formats f) (hspace : ∀ x ∈ space, Text.isSpace x = true) (p : List Char) :
    f (p ++ space) = f p := by
  rw [← hf.trim, Text.trimChars_back hspace, hf.trim]

/-- The formatted parts of a text that is put together of formatted parts are these. -/
theorem map_split_join (hf : Formats f) (hspace : ∀ x ∈ space, Text.isSpace x = true)
    (cs : List Char) :
    (splitTopLevel ',' {} ((',' :: space).intercalate ((splitTopLevel ',' {} cs).map f))).map f =
      (splitTopLevel ',' {} cs).map f := by
  -- the formatted parts are cut where the parts were
  have hlisted := (listed_splitTopLevel cs).map hf.essential
  obtain ⟨p, ps, hparts⟩ := List.exists_cons_of_ne_nil (splitTopLevel_ne_nil ',' {} cs)
  rw [hparts] at hlisted ⊢
  rw [List.map_cons] at hlisted ⊢
  rw [hlisted.split_intercalate hspace, List.map_cons, hf.again, List.map_map, List.map_map]
  congr 1
  -- white space in front does not matter, and a second time nothing changes
  refine List.map_congr_left fun q _ => ?_
  show f (space ++ f q) = f q
  rw [hf.front hspace, hf.again]

/-- White space behind a text is in its last part. -/
theorem map_split_back (hf : Formats f) (hspace : ∀ x ∈ space, Text.isSpace x = true)
    (s : SplitState) (cs : List Char) :
    (splitTopLevel ',' s (cs ++ space)).map f = (splitTopLevel ',' s cs).map f := by
  have hcomma : ',' ∉ space := fun hmem => absurd (hspace ',' hmem) (by decide)
  -- only the last part gets the white space
  suffices hlast : ∃ ps p, splitTopLevel ',' s cs = ps ++ [p] ∧
      splitTopLevel ',' s (cs ++ space) = ps ++ [p ++ space] by
    obtain ⟨ps, p, hsplit, hsplit'⟩ := hlast
    rw [hsplit, hsplit', List.map_append, List.map_append, List.map_singleton, List.map_singleton,
      hf.back hspace]
  induction cs generalizing s with
  | nil =>
    have hone := splitTopLevel_of_keeps (s := s) (SplitState.keeps_of_not_mem hcomma)
    exact ⟨[], [], rfl, by simpa using hone⟩
  | cons c cs ih =>
    rw [List.cons_append, splitTopLevel, splitTopLevel]
    -- a separator ends a part, another character goes into the first one
    split
    · obtain ⟨ps, p, hsplit, hsplit'⟩ := ih s
      exact ⟨[] :: ps, p, by rw [hsplit]; rfl, by rw [hsplit']; rfl⟩
    · obtain ⟨ps, p, hsplit, hsplit'⟩ := ih (s.after c)
      cases ps with
      | nil => exact ⟨[], c :: p, by rw [hsplit]; rfl, by rw [hsplit']; rfl⟩
      | cons q ps => exact ⟨(c :: q) :: ps, p, by rw [hsplit]; rfl, by rw [hsplit']; rfl⟩

/-- White space in front of a text is in its first part. -/
theorem map_split_front (hf : Formats f) (hspace : ∀ x ∈ space, Text.isSpace x = true)
    (cs : List Char) :
    (splitTopLevel ',' {} (space ++ cs)).map f = (splitTopLevel ',' {} cs).map f := by
  have hcomma : ',' ∉ space := fun hmem => absurd (hspace ',' hmem) (by decide)
  obtain ⟨p, ps, hparts⟩ := List.exists_cons_of_ne_nil (splitTopLevel_ne_nil ',' {} cs)
  have hall := splitTopLevel_keeps (s := {}) (SplitState.keeps_of_not_mem hcomma)
    (by rw [SplitState.behind_spaces hspace]; exact hparts)
  rw [hall, hparts, List.map_cons, List.map_cons, hf.front hspace]

/-- White space around a text does not matter to the formatted parts. -/
theorem map_split_trim (hf : Formats f) (cs : List Char) :
    (splitTopLevel ',' {} (Text.trimChars cs)).map f = (splitTopLevel ',' {} cs).map f := by
  obtain ⟨front, back, hsplit, hfront, hback⟩ := Text.trimChars_split cs
  have hwhole := hf.map_split_front hfront (Text.trimChars cs ++ back)
  rw [hf.map_split_back hback, ← hsplit] at hwhole
  exact hwhole.symm

end Formats

/-! ## Values -/

/-- In a string every character is kept. -/
theorem collapseFrom_string (quote : Char) (pending : Bool) (c : Char) (cs : List Char) :
    collapseFrom ⟨some quote, pending⟩ (c :: cs) =
      c :: collapseFrom ⟨if c = quote then none else some quote, pending⟩ cs := rfl

/-- White space outside strings waits. -/
theorem collapseFrom_space (hc : Text.isSpace c = true) (pending : Bool) (cs : List Char) :
    collapseFrom ⟨none, pending⟩ (c :: cs) = collapseFrom ⟨none, true⟩ cs := by
  simp [collapseFrom, hc]

/-- Any other character is written. -/
theorem collapseFrom_solid (hc : Text.isSpace c = false) (cs : List Char) :
    collapseFrom ⟨none, false⟩ (c :: cs) =
      c :: collapseFrom ⟨if Text.isQuote c then some c else none, false⟩ cs := by
  simp [collapseFrom, hc]

/-- A text in which white space is collapsed: outside strings it has single spaces only, each in front
of another character. -/
inductive Collapsed : Option Char → List Char → Prop
  | nil (quote : Option Char) : Collapsed quote []
  | string {quote c : Char} {cs : List Char}
    (h : Collapsed (if c = quote then none else some quote) cs) : Collapsed (some quote) (c :: cs)
  | solid {c : Char} {cs : List Char} (hc : Text.isSpace c = false)
    (h : Collapsed (if Text.isQuote c then some c else none) cs) : Collapsed none (c :: cs)
  | space {c : Char} {cs : List Char} (hc : Text.isSpace c = false) (h : Collapsed none (c :: cs)) :
    Collapsed none (' ' :: c :: cs)

/-- Collapsing leaves single spaces only; a space that is owed comes first. -/
theorem collapsed_collapseFrom (quote : Option Char) (pending : Bool)
    (h : quote.isSome → pending = false) (cs : List Char) :
    Collapsed quote (collapseFrom ⟨quote, pending⟩ cs) := by
  induction cs generalizing quote pending with
  | nil => exact .nil quote
  | cons c cs ih =>
    cases quote with
    -- within a string every character stays
    | some q =>
      obtain rfl := h rfl
      exact .string (ih _ false fun _ => rfl)
    | none =>
      -- outside, white space waits, and another character is written, with the space that is owed
      cases hc : Text.isSpace c with
      | true =>
        rw [collapseFrom_space hc]
        exact ih none true nofun
      | false =>
        have hsolid : Collapsed none (collapseFrom ⟨none, false⟩ (c :: cs)) := by
          rw [collapseFrom_solid hc]
          exact .solid hc (ih _ false fun _ => rfl)
        cases pending with
        | false => exact hsolid
        | true =>
          rw [collapseFrom_owed hc]
          rw [collapseFrom_solid hc] at hsolid ⊢
          exact .space hc hsolid

/-- A collapsed text stays as it is. -/
theorem Collapsed.collapseFrom_eq {quote : Option Char} (h : Collapsed quote cs) :
    collapseFrom ⟨quote, false⟩ cs = cs := by
  induction h with
  | nil => rfl
  | string _ ih => rw [collapseFrom_string, ih]
  | solid hc _ ih => rw [collapseFrom_solid hc, ih]
  | space hc _ ih => rw [collapseFrom_space rfl, collapseFrom_owed hc, ih]

/-- The last character stays if it is no white space. -/
theorem getLast?_collapseFrom (s : CollapseState)
    (h : ∀ c ∈ cs.getLast?, Text.isSpace c = false) :
    (collapseFrom s cs).getLast? = cs.getLast? := by
  induction cs generalizing s with
  | nil => rfl
  | cons c cs ih =>
    -- the end of the rest is the end of the text
    have htail : ∀ c ∈ cs.getLast?, Text.isSpace c = false := by
      intro d hd
      refine h d ?_
      rw [Option.mem_def] at hd ⊢
      rw [List.getLast?_cons, hd]
      rfl
    have hone : ∀ s', (c :: collapseFrom s' cs).getLast? = (c :: cs).getLast? := by
      intro s'
      rw [List.getLast?_cons, List.getLast?_cons, ih s' htail]
    obtain ⟨quote, pending⟩ := s
    cases quote with
    | some q => exact hone _
    | none =>
      -- outside strings white space is dropped, but it is not the last
      cases hc : Text.isSpace c with
      | true =>
        rw [collapseFrom_space hc, ih _ htail]
        cases cs with
        | nil =>
          have hsolid := h c rfl
          rw [hc] at hsolid
          cases hsolid
        | cons d cs => rw [List.getLast?_cons_cons]
      | false =>
        cases pending with
        | false =>
          -- a character that is written stands in front of the rest
          rw [collapseFrom_solid hc]
          exact hone _
        | true =>
          rw [collapseFrom_owed hc, collapseFrom_solid hc, List.getLast?_cons_cons]
          exact hone _

/-- A collapsed value has no white space around it. -/
theorem tight_collapse (cs : List Char) : Text.Tight (collapse cs) := by
  obtain ⟨hhead, hlast⟩ := Text.tight_trimChars cs
  rw [collapse]
  generalize Text.trimChars cs = text at hhead hlast
  constructor
  · cases text with
    | nil => nofun
    | cons c text =>
      rw [collapseFrom_solid (hhead c rfl)]
      exact hhead
  · rw [getLast?_collapseFrom {} hlast]
    exact hlast

/-- Values are formatted by collapsing their white space. -/
theorem formats_collapse : Formats collapse where
  essential p := by simpa using (alike_collapse p).essential
  trim p := by rw [collapse, Text.trimChars_trimChars]; rfl
  again p := by
    rw [collapse, (tight_collapse p).trimChars]
    exact (collapsed_collapseFrom none false nofun (Text.trimChars p)).collapseFrom_eq

/-- Formatting a value again changes nothing. -/
theorem formatValueChars_formatValueChars (cs : List Char) :
    formatValueChars (formatValueChars cs) = formatValueChars cs := by
  have hspace : ∀ c ∈ [' '], Text.isSpace c = true := List.forall_mem_singleton.2 rfl
  rw [formatValueChars, formatValueChars, formats_collapse.map_split_join hspace]

/-- White space around a value does not matter. -/
theorem formatValueChars_trimChars (cs : List Char) :
    formatValueChars (Text.trimChars cs) = formatValueChars cs := by
  rw [formatValueChars, formatValueChars, formats_collapse.map_split_trim]

/-! ## Selectors -/

/-- A combinator gets a space on either side. -/
theorem spaceCombinators_combinator (hc : isCombinator c = true) (skipping : Bool) (cs : List Char) :
    spaceCombinators skipping (c :: cs) = ' ' :: c :: ' ' :: spaceCombinators true cs := by
  rw [spaceCombinators, if_pos hc]

/-- Other characters are kept. -/
theorem spaceCombinators_other (hc : isCombinator c = false) (hspace : Text.isSpace c = false)
    (skipping : Bool) (cs : List Char) :
    spaceCombinators skipping (c :: cs) = c :: spaceCombinators false cs := by
  rw [spaceCombinators, hc, hspace, if_neg Bool.false_ne_true, if_neg Bool.false_ne_true]

/-- White space is no combinator. -/
theorem not_isCombinator_of_isSpace (hc : Text.isSpace c = true) : isCombinator c = false := by
  rw [Bool.eq_false_iff]
  intro hcombinator
  simp only [isCombinator, Bool.or_eq_true, beq_iff_eq] at hcombinator
  rcases hcombinator with (rfl | rfl) | rfl <;> cases hc

/-- White space is dropped behind a combinator and in front of one. -/
theorem spaceCombinators_space (hc : Text.isSpace c = true) (skipping : Bool) (cs : List Char) :
    spaceCombinators skipping (c :: cs) =
      if skipping || (Text.solid cs).head?.any isCombinator then spaceCombinators skipping cs
      else c :: spaceCombinators false cs := by
  rw [spaceCombinators, not_isCombinator_of_isSpace hc, if_neg Bool.false_ne_true, if_pos hc,
    Text.head?_dropWhile_isSpace]

/-- Spaces around combinators leave the solid characters alone. -/
theorem solid_spaceCombinators (skipping : Bool) (cs : List Char) :
    Text.solid (spaceCombinators skipping cs) = Text.solid cs := by
  obtain ⟨hplain, hbehind⟩ := respacing_spaceCombinators cs
  cases skipping with
  | false => exact hplain.solid.symm
  | true =>
    have hspace := (hbehind ' ' rfl).solid
    rw [Text.solid_cons_of_isSpace rfl, Text.solid_cons_of_isSpace rfl] at hspace
    exact hspace.symm

/-- So does collapsing, as long as no space waits in a string. -/
theorem solid_collapseFrom (s : CollapseState) (hs : s.quote.isSome → s.pending = false)
    (cs : List Char) : Text.solid (collapseFrom s cs) = Text.solid cs := by
  have howed : Text.solid s.owed = [] := by
    rw [CollapseState.owed]
    split <;> rfl
  rw [← (respacing_collapseFrom s hs cs).solid, Text.solid_append, howed, List.nil_append]

/-- In a string a character that is no quote does not close it. -/
theorem collapseFrom_unquoted {quote : Char} (hquote : Text.isQuote quote = true)
    (hc : Text.isQuote c = false) (cs : List Char) :
    collapseFrom ⟨some quote, false⟩ (c :: cs) = c :: collapseFrom ⟨some quote, false⟩ cs := by
  have hne : c ≠ quote := by
    rintro rfl
    rw [hquote] at hc
    cases hc
  rw [collapseFrom_string, if_neg hne]

/-- Outside strings a solid character that is no quote opens none. -/
theorem collapseFrom_plain (hspace : Text.isSpace c = false) (hc : Text.isQuote c = false)
    (cs : List Char) : collapseFrom {} (c :: cs) = c :: collapseFrom {} cs := by
  rw [collapseFrom_solid hspace, hc, if_neg Bool.false_ne_true]

/-- A combinator is no quote. -/
theorem not_isQuote_of_isCombinator (hc : isCombinator c = true) : Text.isQuote c = false := by
  rw [Bool.eq_false_iff]
  intro hquote
  rw [not_isCombinator_of_isQuote hquote] at hc
  cases hc

/-- White space is no quote. -/
theorem not_isQuote_of_isSpace (hc : Text.isSpace c = true) : Text.isQuote c = false := by
  rw [Bool.eq_false_iff]
  intro hquote
  rw [not_isSpace_of_isQuote hquote] at hc
  cases hc

/-- A combinator is no white space. -/
theorem not_isSpace_of_isCombinator (hc : isCombinator c = true) : Text.isSpace c = false := by
  rw [Bool.eq_false_iff]
  intro hspace
  rw [not_isCombinator_of_isSpace hspace] at hc
  cases hc

/-- The space that was put behind a combinator is passed over the second time. -/
theorem spaceCombinators_behind (cs : List Char) :
    spaceCombinators true (' ' :: cs) = spaceCombinators true cs := by
  rw [spaceCombinators_space rfl, Bool.true_or, if_pos rfl]

/-- So is the space in front of it. -/
theorem spaceCombinators_before (hc : isCombinator c = true) (skipping : Bool) (cs : List Char) :
    spaceCombinators skipping (' ' :: c :: cs) = ' ' :: c :: ' ' :: spaceCombinators true cs := by
  have hahead : (Text.solid (c :: cs)).head?.any isCombinator = true := by
    simp [Text.solid, not_isSpace_of_isCombinator hc, hc]
  rw [spaceCombinators_space rfl, hahead, Bool.or_true, if_pos rfl, spaceCombinators_combinator hc]

/-- Combinators with spaces around them stay so.  Where two of them have two spaces in between, one is
taken when white space is collapsed, and put back. -/
theorem Collapsed.spaceCombinators_again {quote : Option Char} (h : Collapsed quote cs)
    (hquote : ∀ q ∈ quote, Text.isQuote q = true) (skipping pending : Bool)
    (hpending : quote.isSome → pending = false) (hskipping : pending = true → skipping = true) :
    spaceCombinators skipping (collapseFrom ⟨quote, pending⟩ (spaceCombinators skipping cs)) =
      spaceCombinators skipping cs := by
  -- by induction on the text in which white space is collapsed
  induction h generalizing skipping pending with
  | nil quote => cases quote <;> rfl
  -- within a string every character stays, so no space waits
  | @string quote c cs h ih =>
    obtain rfl := hpending rfl
    have hstring : Text.isQuote quote = true := hquote quote rfl
    have ih := ih (by
      intro q hq
      split at hq
      · cases hq
      · exact hquote q hq)
    -- only the quote closes the string
    have hstays : Text.isQuote c = false → (if c = quote then none else some quote) = some quote := by
      intro hc
      refine if_neg ?_
      rintro rfl
      rw [hstring] at hc
      cases hc
    -- a combinator is no quote; the spaces around it are passed over the next time
    cases hcombinator : isCombinator c with
    | true =>
      have hc := not_isQuote_of_isCombinator hcombinator
      rw [hstays hc] at ih
      rw [spaceCombinators_combinator hcombinator, collapseFrom_unquoted hstring rfl,
        collapseFrom_unquoted hstring hc, collapseFrom_unquoted hstring rfl,
        spaceCombinators_before hcombinator, spaceCombinators_behind,
        ih true false (fun _ => rfl) (fun _ => rfl)]
    | false =>
      cases hspace : Text.isSpace c with
      | true =>
        have hc := not_isQuote_of_isSpace hspace
        rw [hstays hc] at ih
        rw [spaceCombinators_space hspace]
        split
        · exact ih skipping false (fun _ => rfl) hskipping
        · -- white space that is kept is not in front of a combinator the next time either
          rename_i hkept
          rw [Bool.not_eq_true, Bool.or_eq_false_iff] at hkept
          obtain ⟨rfl, hkept⟩ := hkept
          have hsolid := solid_collapseFrom ⟨some quote, false⟩ (fun _ => rfl)
            (spaceCombinators false cs)
          rw [solid_spaceCombinators] at hsolid
          rw [collapseFrom_unquoted hstring hc, spaceCombinators_space hspace, hsolid, hkept,
            Bool.or_false, if_neg Bool.false_ne_true, ih false false (fun _ => rfl) id]
      | false =>
        rw [spaceCombinators_other hcombinator hspace, collapseFrom_string,
          spaceCombinators_other hcombinator hspace, ih false false (fun _ => rfl) id]
  -- outside strings a solid character may open one
  | @solid c cs hc h ih =>
    have ih := ih (by
      intro q hq
      split at hq
      · rename_i hc
        exact Option.some.inj hq ▸ hc
      · cases hq)
    -- behind a combinator the space waits, and is put again
    cases hcombinator : isCombinator c with
    | true =>
      have hplain := not_isQuote_of_isCombinator hcombinator
      rw [hplain, if_neg Bool.false_ne_true] at ih
      rw [spaceCombinators_combinator hcombinator, collapseFrom_space rfl, collapseFrom_owed hc,
        collapseFrom_plain hc hplain, collapseFrom_space rfl, spaceCombinators_before hcombinator,
        ih true true (fun h => absurd h Bool.false_ne_true) (fun _ => rfl)]
    | false =>
      -- another character stands where it stood
      have hone : spaceCombinators skipping (collapseFrom {} (c :: spaceCombinators false cs)) =
          c :: spaceCombinators false cs := by
        rw [collapseFrom_solid hc, spaceCombinators_other hcombinator hc,
          ih false false (fun _ => rfl) id]
      rw [spaceCombinators_other hcombinator hc]
      cases pending with
      | false => exact hone
      | true =>
        obtain rfl := hskipping rfl
        rw [collapseFrom_owed hc, spaceCombinators_behind]
        exact hone
  -- a single space in front of another character
  | @space c cs hc h ih =>
    have hahead : (Text.solid (c :: cs)).head?.any isCombinator = isCombinator c := by
      simp [Text.solid, hc]
    rw [spaceCombinators_space rfl, hahead]
    split
    · exact ih hquote skipping pending hpending hskipping
    · -- a space that is kept is not in front of a combinator
      rename_i hkept
      rw [Bool.not_eq_true, Bool.or_eq_false_iff] at hkept
      obtain ⟨rfl, hcombinator⟩ := hkept
      obtain rfl : pending = false := Bool.eq_false_iff.2 fun h => Bool.false_ne_true (hskipping h)
      have hone := ih hquote false false (fun _ => rfl) id
      rw [spaceCombinators_other hcombinator hc] at hone ⊢
      -- nor is it the next time, for the solid characters are the same
      have hsolid := solid_collapseFrom {} (fun _ => rfl) (c :: spaceCombinators false cs)
      have hahead : (Text.solid (c :: spaceCombinators false cs)).head?.any isCombinator = false := by
        simp [Text.solid, hc, hcombinator]
      rw [collapseFrom_space rfl, collapseFrom_owed hc, spaceCombinators_space rfl, hsolid, hahead,
        Bool.or_false, if_neg Bool.false_ne_true, hone]

/-- White space behind a text is at most white space behind what is made of it. -/
theorem collapseFrom_end {space : List Char} (hspace : ∀ x ∈ space, Text.isSpace x = true)
    (s : CollapseState) (cs : List Char) : ∃ back, (∀ x ∈ back, Text.isSpace x = true) ∧
      collapseFrom s (cs ++ space) = collapseFrom s cs ++ back := by
  induction cs generalizing s with
  | nil =>
    -- at the end white space is kept within a string and waits outside
    suffices hall : ∀ x ∈ collapseFrom s space, Text.isSpace x = true from ⟨_, hall, rfl⟩
    induction space generalizing s with
    | nil => nofun
    | cons c space ih =>
      rw [List.forall_mem_cons] at hspace
      obtain ⟨quote, pending⟩ := s
      cases quote with
      | some quote => exact List.forall_mem_cons.2 ⟨hspace.1, ih hspace.2 _⟩
      | none =>
        rw [collapseFrom_space hspace.1]
        exact ih hspace.2 _
  | cons c cs ih =>
    obtain ⟨quote, pending⟩ := s
    rw [List.cons_append]
    -- a string goes on up to its end
    cases quote with
    | some quote =>
      obtain ⟨back, hback, hrest⟩ := ih ⟨if c = quote then none else some quote, pending⟩
      exact ⟨back, hback, by rw [collapseFrom_string, collapseFrom_string, hrest]; rfl⟩
    | none =>
      -- outside strings white space waits, and another character is written
      cases hc : Text.isSpace c with
      | true =>
        rw [collapseFrom_space hc, collapseFrom_space hc]
        exact ih ⟨none, true⟩
      | false =>
        obtain ⟨back, hback, hrest⟩ := ih ⟨if Text.isQuote c then some c else none, false⟩
        refine ⟨back, hback, ?_⟩
        cases pending with
        | false => rw [collapseFrom_solid hc, collapseFrom_solid hc, hrest]; rfl
        | true =>
          rw [collapseFrom_owed hc, collapseFrom_owed hc, collapseFrom_solid hc,
            collapseFrom_solid hc, hrest]
          rfl

/-- The same where combinators are spaced. -/
theorem spaceCombinators_end {space : List Char} (hspace : ∀ x ∈ space, Text.isSpace x = true)
    (skipping : Bool) (cs : List Char) : ∃ back, (∀ x ∈ back, Text.isSpace x = true) ∧
      spaceCombinators skipping (cs ++ space) = spaceCombinators skipping cs ++ back := by
  induction cs generalizing skipping with
  | nil =>
    -- white space is dropped or kept, and stays white space
    suffices hall : ∀ x ∈ spaceCombinators skipping space, Text.isSpace x = true from ⟨_, hall, rfl⟩
    induction space generalizing skipping with
    | nil => nofun
    | cons c space ih =>
      rw [List.forall_mem_cons] at hspace
      rw [spaceCombinators_space hspace.1]
      split
      · exact ih hspace.2 skipping
      · exact List.forall_mem_cons.2 ⟨hspace.1, ih hspace.2 false⟩
  | cons c cs ih =>
    rw [List.cons_append]
    -- a combinator is written with its spaces, the rest goes on behind it
    cases hcombinator : isCombinator c with
    | true =>
      obtain ⟨back, hback, hrest⟩ := ih true
      exact ⟨back, hback, by
        rw [spaceCombinators_combinator hcombinator, spaceCombinators_combinator hcombinator, hrest]
        rfl⟩
    | false =>
      obtain ⟨back, hback, hrest⟩ := ih false
      cases hc : Text.isSpace c with
      | true =>
        -- what is solid ahead does not depend on white space at the end
        rw [spaceCombinators_space hc, spaceCombinators_space hc, Text.solid_append,
          Text.solid_eq_nil.2 hspace, List.append_nil]
        split
        · exact ih skipping
        · exact ⟨back, hback, by rw [hrest]; rfl⟩
      | false =>
        exact ⟨back, hback, by
          rw [spaceCombinators_other hcombinator hc, spaceCombinators_other hcombinator hc, hrest]
          rfl⟩

/-- White space around a selector does not matter. -/
theorem trimChars_spaceCombinators (cs : List Char) :
    Text.trimChars (spaceCombinators false (collapseFrom {} (Text.trimChars cs))) =
      Text.trimChars (spaceCombinators false (collapseFrom {} cs)) := by
  -- a space that is owed is trimmed in front
  have howed : ∀ cs, Text.trimChars (spaceCombinators false (collapseFrom ⟨none, true⟩ cs)) =
      Text.trimChars (spaceCombinators false (collapseFrom {} cs)) := by
    intro cs
    cases cs with
    | nil => rfl
    | cons c cs =>
      cases hc : Text.isSpace c with
      | true => rw [collapseFrom_space hc, collapseFrom_space hc]
      | false =>
        rw [collapseFrom_owed hc, spaceCombinators_space rfl]
        split
        · rfl
        · exact Text.trimChars_space _
  obtain ⟨front, back, hsplit, hfront, hback⟩ := Text.trimChars_split cs
  generalize Text.trimChars cs = text at hsplit
  subst hsplit
  obtain ⟨back', hback', hcollapse⟩ := collapseFrom_end hback {} text
  obtain ⟨back'', hback'', hspaced⟩ := spaceCombinators_end hback' false (collapseFrom {} text)
  -- what the white space at the end leaves is white space
  have htail : Text.trimChars (spaceCombinators false (collapseFrom {} (text ++ back))) =
      Text.trimChars (spaceCombinators false (collapseFrom {} text)) := by
    rw [hcollapse, hspaced, Text.trimChars_back hback'']
  rw [← htail]
  -- white space in front only leaves a space owed
  have hspaces : ∀ pending, Text.trimChars (spaceCombinators false
      (collapseFrom ⟨none, pending⟩ (front ++ (text ++ back)))) =
        Text.trimChars (spaceCombinators false (collapseFrom {} (text ++ back))) := by
    induction front with
    | nil =>
      intro pending
      cases pending with
      | false => rfl
      | true => exact howed _
    | cons c front ih =>
      rw [List.forall_mem_cons] at hfront
      intro pending
      rw [List.cons_append, collapseFrom_space hfront.1]
      exact ih hfront.2 true
  exact (hspaces false).symm

/-- A formatted selector has brackets if the selector has. -/
theorem hasBrackets_formatOneSelector (cs : List Char) :
    hasBrackets (formatOneSelector cs) = hasBrackets cs := by
  have halike := (alike_formatOneSelector cs).essential
  simp only [List.flatMap_singleton] at halike
  have hmem : ∀ c, isEssential c = true → (c ∈ formatOneSelector cs ↔ c ∈ cs) := by
    intro c hc
    have hin : ∀ ds, c ∈ essential ds ↔ c ∈ ds := fun ds => by simp [essential, hc]
    rw [← hin, halike, hin]
  have hsquare := hmem '[' (by decide)
  have hround := hmem '(' (by decide)
  simp [hasBrackets, hsquare, hround]

/-- Selectors are formatted: a second time every space is where it is put. -/
theorem formats_formatOneSelector : Formats formatOneSelector where
  essential p := by simpa using (alike_formatOneSelector p).essential
  trim p := by rw [formatOneSelector, formats_collapse.trim]; rfl
  again p := by
    -- the brackets decide, whether white space is collapsed or not
    have hone : ∀ p, formatOneSelector p = if hasBrackets p then collapse p
        else Text.trimChars (spaceCombinators false (collapse p)) := by
      intro p
      rw [← hasBrackets_collapse]
      rfl
    rw [hone (formatOneSelector p), hasBrackets_formatOneSelector, hone p]
    -- with brackets, white space is collapsed; without, combinators get their spaces, too
    split
    · exact formats_collapse.again p
    · have hcollapsed : Collapsed none (collapse p) :=
        collapsed_collapseFrom none false (fun _ => rfl) (Text.trimChars p)
      rw [formats_collapse.trim, collapse, trimChars_spaceCombinators,
        hcollapsed.spaceCombinators_again (fun _ h => absurd h (Option.not_mem_none _)) false false
          (fun _ => rfl) id]

end Reflow.Stylesheet
