import Reflow.Proofs.Stylesheet.Placeholders
import Reflow.Stylesheet.Printer

/-!
# Spacing keeps contents

Printing a stylesheet changes the white space of its values and selectors and the semicolons of its
statements.  The contents of a text are its other characters and its placeholders.  White space is
changed only where it touches other white space, punctuation that is in no placeholder, or the end of
a text.

## Key results

- `Alike`: texts with the same contents together
- `Respaced`: two texts that have the same contents behind any other text
- `Respacing`: what the printer does to the white space of a text
- `respacing_formatValueChars`, `respacing_formatOneSelector`: it does nothing else to values and
  selectors
- `alike_formatValueChars`, `alike_formatOneSelector`: values and selectors keep their contents
-/

namespace Reflow.Stylesheet

/-- Is the character neither white space nor a semicolon? -/
def isEssential (c : Char) : Bool := !Text.isSpace c && c != ';'

/-- The characters of a text that are neither white space nor semicolons. -/
def essential (cs : List Char) : List Char := cs.filter isEssential

@[simp] theorem essential_nil : essential [] = [] := rfl

@[simp] theorem essential_append (a b : List Char) :
    essential (a ++ b) = essential a ++ essential b := List.filter_append ..

/-- The essential characters of a text start with the first one, if it is essential. -/
theorem essential_cons (c : Char) (cs : List Char) :
    essential (c :: cs) = essential [c] ++ essential cs := by
  rw [← essential_append, List.singleton_append]

/-- White space has none. -/
theorem essential_eq_nil {cs : List Char} (h : ∀ c ∈ cs, Text.isSpace c = true) :
    essential cs = [] := by
  rw [essential, List.filter_eq_nil_iff]
  intro c hc
  simp [isEssential, h c hc]

/-- Dropping white space in front leaves the essential characters. -/
theorem essential_dropWhile (cs : List Char) :
    essential (cs.dropWhile Text.isSpace) = essential cs := by
  have hall : (cs.takeWhile Text.isSpace).all Text.isSpace = true := List.all_takeWhile
  have hsplit := congrArg essential
    (List.takeWhile_append_dropWhile (p := Text.isSpace) (l := cs))
  rwa [essential_append, essential_eq_nil (List.all_eq_true.1 hall), List.nil_append] at hsplit

/-- So does dropping it at the end. -/
theorem essential_dropEndWhile (cs : List Char) :
    essential (Text.dropEndWhile Text.isSpace cs) = essential cs := by
  have hreverse : ∀ ds, essential ds.reverse = (essential ds).reverse :=
    fun ds => List.filter_reverse ..
  rw [Text.dropEndWhile, hreverse, essential_dropWhile, hreverse, List.reverse_reverse]

/-! ## Texts with the same contents -/

/-- The texts of two lists have the same contents: the same essential characters, and the same
placeholders, none of which goes from one text to the next. -/
structure Alike (as bs : List (List Char)) : Prop where
  essential : as.flatMap essential = bs.flatMap essential
  placeholders : as.flatMap placeholdersIn = bs.flatMap placeholdersIn

namespace Alike

variable {as bs cs ds : List (List Char)} {a b : List Char} {d : Char}

/-- Texts have their own contents. -/
theorem refl (as : List (List Char)) : Alike as as := ⟨rfl, rfl⟩

theorem symm (h : Alike as bs) : Alike bs as := ⟨h.essential.symm, h.placeholders.symm⟩

theorem trans (h : Alike as bs) (h' : Alike bs cs) : Alike as cs :=
  ⟨h.essential.trans h'.essential, h.placeholders.trans h'.placeholders⟩

/-- Texts with the same contents may be put behind one another. -/
theorem append (h : Alike as bs) (h' : Alike cs ds) : Alike (as ++ cs) (bs ++ ds) := by
  constructor
  · rw [List.flatMap_append, List.flatMap_append, h.essential, h'.essential]
  · rw [List.flatMap_append, List.flatMap_append, h.placeholders, h'.placeholders]

/-- Texts with the same contents may be put in front of others. -/
theorem cons (h : Alike [a] [b]) (h' : Alike as bs) : Alike (a :: as) (b :: bs) := h.append h'

/-- White space has no contents. -/
theorem spaces (h : ∀ c ∈ a, Text.isSpace c = true) : Alike [a] [] := by
  constructor
  · simp [essential_eq_nil h]
  · have hnone := placeholdersIn_delimiters (fun c hc => delimits_of_isSpace (h c hc)) []
    rw [List.append_nil] at hnone
    simp [hnone]

/-- An empty text adds nothing. -/
theorem empty : Alike [[]] [] := spaces (by simp)

/-- A semicolon has no contents. -/
theorem semicolon : Alike [[';']] [] := ⟨rfl, by decide⟩

/-- A text that starts with a delimiter, behind another. -/
theorem join (hb : ∀ d ∈ b.head?, delimits d = true) : Alike [a ++ b] [a, b] := by
  constructor
  · simp
  · simp [placeholdersIn_join a hb]

/-- A text behind another that ends with a delimiter. -/
theorem join_end (hd : delimits d = true) : Alike [(a ++ [d]) ++ b] [a ++ [d], b] := by
  constructor
  · simp [essential_cons d b]
  · simp [placeholdersIn_append hd]

/-- A text is cut at a delimiter. -/
theorem cut (hd : delimits d = true) (a b : List Char) : Alike [a ++ d :: b] [a, [d], b] := by
  constructor
  · simp [essential_cons d b]
  · have hone := placeholdersIn_concat hd []
    simp only [List.nil_append, placeholdersIn_nil] at hone
    simp [placeholdersIn_append hd, hone]

/-- White space in front of a text. -/
theorem front (ha : ∀ c ∈ a, Text.isSpace c = true) (b : List Char) : Alike [a ++ b] [b] := by
  constructor
  · simp [essential_eq_nil ha]
  · simp [placeholdersIn_delimiters fun c hc => delimits_of_isSpace (ha c hc)]

/-- White space in front adds nothing. -/
theorem dropWhile (cs : List Char) : Alike [cs.dropWhile Text.isSpace] [cs] := by
  constructor
  · simp [essential_dropWhile]
  · simp [placeholdersIn_dropWhile]

/-- White space at the end adds nothing. -/
theorem dropEndWhile (cs : List Char) : Alike [Text.dropEndWhile Text.isSpace cs] [cs] := by
  constructor
  · simp [essential_dropEndWhile]
  · simp [placeholdersIn_dropEndWhile]

/-- White space at both ends adds nothing. -/
theorem trimChars (cs : List Char) : Alike [Text.trimChars cs] [cs] :=
  (dropEndWhile _).trans (dropWhile cs)

/-- The parts of a text that are separated by a delimiter, with white space behind it or not. -/
theorem intercalate (hd : delimits d = true) {space : List Char}
    (hspace : ∀ c ∈ space, Text.isSpace c = true) (parts : List (List Char)) :
    Alike [(d :: space).intercalate parts] (parts.intersperse [d]) := by
  induction parts with
  | nil => exact empty
  | cons part parts ih =>
    cases parts with
    -- one part stands alone
    | nil => simpa [List.intercalate] using refl [part]
    | cons next parts =>
      -- a part, the separator and the white space behind it, and then the others
      have hstart : (part ++ (d :: space)) ++ (d :: space).intercalate (next :: parts)
          = part ++ d :: (space ++ (d :: space).intercalate (next :: parts)) := by simp
      rw [List.intercalate_cons_cons, hstart, List.intersperse_cons_cons]
      exact (cut hd ..).trans ((refl [part, [d]]).append ((front hspace _).trans ih))

/-- Separated parts are alike if the parts are. -/
theorem intersperse {separator : List Char} {f : List Char → List Char}
    (hf : ∀ part, Alike [f part] [part]) (parts : List (List Char)) :
    Alike ((parts.map f).intersperse separator) (parts.intersperse separator) := by
  induction parts with
  | nil => exact refl _
  | cons part parts ih =>
    cases parts with
    | nil => simpa using hf part
    | cons next parts =>
      rw [List.map_cons, List.map_cons, List.intersperse_cons_cons, List.intersperse_cons_cons]
      rw [List.map_cons] at ih
      exact (hf part).cons ((refl [separator]).append ih)

end Alike

/-! ## Texts that differ in white space -/

/-- The texts have the same contents behind any other text. -/
structure Respaced (a b : List Char) : Prop where
  essential : essential a = essential b
  placeholders : ∀ front, placeholdersIn (front ++ a) = placeholdersIn (front ++ b)

namespace Respaced

variable {a b c : List Char}

/-- A text is a respacing of itself. -/
theorem refl (a : List Char) : Respaced a a := ⟨rfl, fun _ => rfl⟩

theorem symm (h : Respaced a b) : Respaced b a :=
  ⟨h.essential.symm, fun front => (h.placeholders front).symm⟩

theorem trans (h : Respaced a b) (h' : Respaced b c) : Respaced a c :=
  ⟨h.essential.trans h'.essential, fun front =>
    (h.placeholders front).trans (h'.placeholders front)⟩

/-- The same character may stand in front of both. -/
theorem cons (x : Char) (h : Respaced a b) : Respaced (x :: a) (x :: b) := by
  constructor
  · rw [essential_cons, essential_cons x b, h.essential]
  · intro front
    have := h.placeholders (front ++ [x])
    simpa using this

/-- Texts are alike if they have the same contents behind the empty one. -/
theorem alike (h : Respaced a b) : Alike [a] [b] := by
  constructor
  · simp [h.essential]
  · have := h.placeholders []
    simpa using this

/-- White space at the end. -/
theorem space_end {x : Char} (hx : Text.isSpace x = true) : Respaced [x] [] := by
  constructor
  · exact essential_eq_nil fun c hc => List.mem_singleton.1 hc ▸ hx
  · intro front
    rw [placeholdersIn_concat (delimits_of_isSpace hx), List.append_nil]

/-- White space in front of a delimiter. -/
theorem space_cons {x d : Char} (hx : Text.isSpace x = true) (hd : delimits d = true)
    (cs : List Char) : Respaced (x :: d :: cs) (d :: cs) := by
  constructor
  · rw [essential_cons, essential_eq_nil fun c hc => List.mem_singleton.1 hc ▸ hx]
    rfl
  · intro front
    rw [placeholdersIn_append (delimits_of_isSpace hx), placeholdersIn_append hd,
      placeholdersIn_cons hd]

/-- White space behind a delimiter. -/
theorem cons_space {x d : Char} (hd : delimits d = true) (hx : Text.isSpace x = true)
    (cs : List Char) : Respaced (d :: x :: cs) (d :: cs) := by
  constructor
  · rw [essential_cons, essential_cons x cs,
      essential_eq_nil fun c hc => List.mem_singleton.1 hc ▸ hx, essential_cons d cs]
    rfl
  · intro front
    rw [placeholdersIn_append hd, placeholdersIn_append hd,
      placeholdersIn_cons (delimits_of_isSpace hx)]

/-- One kind of white space instead of another. -/
theorem change_space {x y : Char} (hx : Text.isSpace x = true) (hy : Text.isSpace y = true)
    (cs : List Char) : Respaced (x :: cs) (y :: cs) :=
  (cons_space (delimits_of_isSpace hx) hy cs).symm.trans
    (space_cons hx (delimits_of_isSpace hy) cs)

end Respaced

/-! ## What the printer does to white space -/

/-- May white space be put next to the character, and taken there? -/
def isLoose (c : Char) : Bool := Text.isSpace c || c == ',' || isCombinator c

/-- The printer makes one text of another, one place after the other.  White space becomes a space;
next to other white space, a comma or a combinator and at the end of the text it may go, and behind
any of these and in front of a combinator a space may come. -/
inductive Respacing : List Char → List Char → Prop
  | refl (a : List Char) : Respacing a a
  | trans {a b c : List Char} (h : Respacing a b) (h' : Respacing b c) : Respacing a c
  | cons (x : Char) {a b : List Char} (h : Respacing a b) : Respacing (x :: a) (x :: b)
  | change {x : Char} (hx : Text.isSpace x = true) (cs : List Char) :
    Respacing (x :: cs) (' ' :: cs)
  | dropEnd {x : Char} (hx : Text.isSpace x = true) : Respacing [x] []
  | dropBefore {x d : Char} (hx : Text.isSpace x = true) (hd : isLoose d = true) (cs : List Char) :
    Respacing (x :: d :: cs) (d :: cs)
  | dropBehind {x d : Char} (hd : isLoose d = true) (hx : Text.isSpace x = true)
    (cs : List Char) : Respacing (d :: x :: cs) (d :: cs)
  | putBefore {d : Char} (hd : isCombinator d = true) (cs : List Char) :
    Respacing (d :: cs) (' ' :: d :: cs)
  | putBehind {d : Char} (hd : isLoose d = true) (cs : List Char) :
    Respacing (d :: cs) (d :: ' ' :: cs)

/-- White space may be put next to white space. -/
theorem isLoose_of_isSpace {c : Char} (h : Text.isSpace c = true) : isLoose c = true := by
  simp [isLoose, h]

/-- White space may be put next to a combinator. -/
theorem isLoose_of_isCombinator {c : Char} (h : isCombinator c = true) : isLoose c = true := by
  simp [isLoose, h]

/-- No such character is in a placeholder. -/
theorem delimits_of_isLoose {c : Char} (h : isLoose c = true) : delimits c = true := by
  simp only [isLoose, isCombinator, Bool.or_eq_true, beq_iff_eq] at h
  rcases h with (hspace | rfl) | (rfl | rfl) | rfl
  · exact delimits_of_isSpace hspace
  all_goals decide

namespace Respacing

variable {a b c cs front back : List Char} {d x : Char}

/-- The contents stay. -/
theorem respaced (h : Respacing a b) : Respaced a b := by
  induction h with
  | refl a => exact .refl a
  | trans _ _ ih ih' => exact ih.trans ih'
  | cons x _ ih => exact ih.cons x
  | change hx cs => exact .change_space hx rfl cs
  | dropEnd hx => exact .space_end hx
  | dropBefore hx hd cs => exact .space_cons hx (delimits_of_isLoose hd) cs
  | dropBehind hd hx cs => exact .cons_space (delimits_of_isLoose hd) hx cs
  | putBefore hd cs =>
    exact (Respaced.space_cons rfl (delimits_of_isLoose (isLoose_of_isCombinator hd)) cs).symm
  | putBehind hd cs => exact (Respaced.cons_space (delimits_of_isLoose hd) rfl cs).symm

/-- All characters but white space stay. -/
theorem solid (h : Respacing a b) : Text.solid a = Text.solid b := by
  -- a space is not solid, so every change keeps the solid characters
  have hspace : ∀ cs, Text.solid (' ' :: cs) = Text.solid cs := Text.solid_cons_of_isSpace rfl
  induction h with
  | refl a => rfl
  | trans _ _ ih ih' => exact ih.trans ih'
  | cons x _ ih => rw [Text.solid_cons, ih, ← Text.solid_cons]
  | change hx cs => rw [hspace, Text.solid_cons_of_isSpace hx]
  | dropEnd hx => rw [Text.solid_cons_of_isSpace hx]
  | dropBefore hx _ cs => rw [Text.solid_cons_of_isSpace hx]
  | @dropBehind x d _ hx cs =>
    rw [Text.solid_cons, Text.solid_cons_of_isSpace hx, ← Text.solid_cons]
  | putBefore _ cs => rw [hspace]
  | @putBehind d _ cs => rw [Text.solid_cons d (' ' :: cs), hspace, ← Text.solid_cons]

/-- In front of the text any other may stand. -/
theorem behind (front : List Char) (h : Respacing a b) : Respacing (front ++ a) (front ++ b) := by
  induction front with
  | nil => exact h
  | cons c front ih => exact ih.cons c

/-- Behind the text another may stand, with a character in between that lets white space go. -/
theorem before (h : Respacing a b) (hd : isLoose d = true) (cs : List Char) :
    Respacing (a ++ d :: cs) (b ++ d :: cs) := by
  induction h with
  | refl a => exact .refl _
  | trans _ _ ih ih' => exact ih.trans ih'
  | cons x _ ih => exact ih.cons x
  | change hx a => exact .change hx _
  | dropEnd hx => exact .dropBefore hx hd cs
  | dropBefore hx he a => exact .dropBefore hx he _
  | dropBehind he hx a => exact .dropBehind he hx _
  | putBefore he a => exact .putBefore he _
  | putBehind he a => exact .putBehind he _

/-- White space at the end goes. -/
theorem end_spaces (a : List Char) (hback : ∀ x ∈ back, Text.isSpace x = true) :
    Respacing (a ++ back) a := by
  have hspaces : Respacing back [] := by
    induction back with
    | nil => exact .refl []
    | cons x back ih =>
      rw [List.forall_mem_cons] at hback
      exact ((ih hback.2).cons x).trans (.dropEnd hback.1)
  simpa using hspaces.behind a

/-- White space behind a character that lets it go. -/
theorem spaces_behind (hd : isLoose d = true) (hfront : ∀ x ∈ front, Text.isSpace x = true)
    (cs : List Char) : Respacing (d :: (front ++ cs)) (d :: cs) := by
  induction front with
  | nil => exact .refl _
  | cons x front ih =>
    rw [List.forall_mem_cons] at hfront
    exact (Respacing.dropBehind hd hfront.1 _).trans (ih hfront.2)

/-- Trimming, behind a character that lets white space go. -/
theorem trimChars (hd : isLoose d = true) (cs : List Char) :
    Respacing (d :: cs) (d :: Text.trimChars cs) := by
  obtain ⟨front, back, hsplit, hfront, hback⟩ := Text.trimChars_split cs
  have htail := (end_spaces (Text.trimChars cs) hback).cons d
  have hhead := spaces_behind hd hfront (Text.trimChars cs ++ back)
  rw [← hsplit] at hhead
  exact hhead.trans htail

end Respacing

/-! ## Values -/

/-- The space that is still to be written. -/
def CollapseState.owed (s : CollapseState) : List Char := if s.pending then [' '] else []

/-- Runs of white space become single spaces.  No space is owed in a string. -/
theorem respacing_collapseFrom (s : CollapseState) (hs : s.quote.isSome → s.pending = false)
    (cs : List Char) : Respacing (s.owed ++ cs) (collapseFrom s cs) := by
  induction cs generalizing s with
  | nil =>
    rw [collapseFrom, CollapseState.owed]
    split
    · exact .dropEnd rfl
    · exact .refl _
  | cons c cs ih =>
    obtain ⟨quote, pending⟩ := s
    cases quote with
    -- within a string every character stays
    | some q =>
      have hpending : pending = false := hs rfl
      subst hpending
      exact (ih { quote := if c = q then none else some q } fun _ => rfl).cons c
    -- outside, white space waits until something solid follows
    | none =>
      have hkeep : Respacing (c :: cs) (c :: collapseFrom
          { quote := if Text.isQuote c then some c else none } cs) :=
        (ih { quote := if Text.isQuote c then some c else none } fun _ => rfl).cons c
      simp only [collapseFrom]
      by_cases hc : Text.isSpace c = true
      · rw [if_pos hc]
        refine Respacing.trans ?_ (ih ⟨none, true⟩ (by simp))
        -- the first white space is owed as a space, and that behind it is dropped
        cases pending with
        | false => exact .change hc cs
        | true => exact .dropBehind rfl hc cs
      · rw [if_neg hc]
        cases pending with
        | false => exact hkeep
        -- the space that is owed is written in front
        | true => exact hkeep.cons ' '

/-- A value is respaced behind any character that lets white space go. -/
theorem respacing_collapse {d : Char} (hd : isLoose d = true) (cs : List Char) :
    Respacing (d :: cs) (d :: collapse cs) :=
  (Respacing.trimChars hd cs).trans ((respacing_collapseFrom {} (by simp) _).cons d)

/-- To collapse white space keeps the contents. -/
theorem alike_collapse (cs : List Char) : Alike [collapse cs] [cs] :=
  (respacing_collapseFrom {} (by simp) (Text.trimChars cs)).respaced.alike.symm.trans (.trimChars cs)

/-- A text is cut into at least one part. -/
theorem splitTopLevel_ne_nil (separator : Char) (s : SplitState) (cs : List Char) :
    splitTopLevel separator s cs ≠ [] := by
  cases cs with
  | nil => simp [splitTopLevel]
  | cons c cs =>
    rw [splitTopLevel]
    split
    · simp
    · split <;> simp

/-- A text is made of its parts and the separators between them. -/
theorem intercalate_splitTopLevel (separator : Char) (s : SplitState) (cs : List Char) :
    [separator].intercalate (splitTopLevel separator s cs) = cs := by
  induction cs generalizing s with
  | nil => rfl
  | cons c cs ih =>
    rw [splitTopLevel]
    -- a separator starts a new part
    split
    · rename_i hc
      have hsep : c = separator := by
        simp only [SplitState.separates, Bool.and_eq_true, beq_iff_eq] at hc
        exact hc.2
      have := ih s
      cases hparts : splitTopLevel separator s cs with
      | nil => exact absurd hparts (splitTopLevel_ne_nil _ _ _)
      | cons part parts =>
        rw [hparts] at this
        rw [List.intercalate_cons_cons, this, hsep]
        rfl
    · -- another character goes into the first part
      have := ih (s.after c)
      cases hparts : splitTopLevel separator (s.after c) cs with
      | nil => exact absurd hparts (splitTopLevel_ne_nil _ _ _)
      | cons part parts =>
        rw [hparts] at this
        cases parts with
        | nil => simpa [List.intercalate] using this
        | cons next parts =>
          rw [List.intercalate_cons_cons] at this
          show [separator].intercalate ((c :: part) :: next :: parts) = c :: cs
          rw [List.intercalate_cons_cons, ← this]
          rfl

/-- A text has the contents of its parts between commas. -/
theorem alike_splitTopLevel (cs : List Char) :
    Alike ((splitTopLevel ',' {} cs).intersperse [',']) [cs] := by
  have h := Alike.intercalate (d := ',') (by decide) (List.forall_mem_nil _)
    (splitTopLevel ',' {} cs)
  rw [intercalate_splitTopLevel] at h
  exact h.symm

/-- A formatted value has the contents that it had before. -/
theorem alike_formatValueChars (cs : List Char) : Alike [formatValueChars cs] [cs] :=
  have hspace : ∀ c ∈ [' '], Text.isSpace c = true := Text.forall_mem_of_all (by decide)
  (Alike.intercalate (d := ',') (by decide) hspace _).trans
    ((Alike.intersperse alike_collapse _).trans (alike_splitTopLevel cs))

/-- Parts between commas are respaced one by one; there may be white space behind the commas. -/
theorem respacing_intercalate {f : List Char → List Char}
    (hf : ∀ d part, isLoose d = true → Respacing (d :: part) (d :: f part)) {space : List Char}
    (hspace : ∀ x ∈ space, Text.isSpace x = true) (parts : List (List Char)) {d : Char}
    (hd : isLoose d = true) :
    Respacing (d :: (',' :: space).intercalate parts)
      (d :: (',' :: space).intercalate (parts.map f)) := by
  -- in front of every part there is a comma or white space, which lets white space go
  obtain ⟨front, e, hend, he⟩ : ∃ front e, ',' :: space = front ++ [e] ∧ isLoose e = true := by
    have hne : ',' :: space ≠ [] := List.cons_ne_nil _ _
    refine ⟨_, _, (List.dropLast_concat_getLast hne).symm, ?_⟩
    rcases List.mem_cons.1 (List.getLast_mem hne) with hcomma | hmem
    · rw [hcomma]
      rfl
    · exact isLoose_of_isSpace (hspace _ hmem)
  induction parts generalizing d with
  | nil => exact .refl [d]
  | cons part parts ih =>
    cases parts with
    -- the last part has none behind it
    | nil => simpa [List.intercalate] using hf d part hd
    | cons next parts =>
      have hcomma : isLoose ',' = true := rfl
      -- the first part is formatted behind what stands in front of it, and the others behind the
      -- comma
      have hpart := (hf d part hd).before hcomma (space ++ (',' :: space).intercalate (next :: parts))
      have hrest := (ih he).behind (d :: f part ++ front)
      have hshape : ∀ a b : List Char, a ++ front ++ e :: b = a ++ ',' :: (space ++ b) := by
        intro a b
        have := congrArg (a ++ · ++ b) hend.symm
        simpa using this
      rw [hshape, hshape] at hrest
      rw [List.map_cons, List.map_cons, List.intercalate_cons_cons, List.intercalate_cons_cons,
        ← List.map_cons]
      simpa using hpart.trans hrest

/-- White space behind the commas between the parts goes. -/
theorem respacing_separators {space : List Char} (hspace : ∀ x ∈ space, Text.isSpace x = true)
    (parts : List (List Char)) :
    Respacing ((',' :: space).intercalate parts) ([','].intercalate parts) := by
  induction parts with
  | nil => exact .refl _
  | cons part parts ih =>
    cases parts with
    | nil => exact .refl _
    -- the white space behind the comma goes
    | cons next parts =>
      have hcomma := Respacing.spaces_behind (d := ',') rfl hspace
        ((',' :: space).intercalate (next :: parts))
      rw [List.intercalate_cons_cons, List.intercalate_cons_cons]
      simpa using (hcomma.trans (ih.cons ',')).behind part

/-- A space comes behind the commas between the parts. -/
theorem respacing_spaced (parts : List (List Char)) :
    Respacing ([','].intercalate parts) ([',', ' '].intercalate parts) := by
  induction parts with
  | nil => exact .refl _
  | cons part parts ih =>
    cases parts with
    | nil => exact .refl _
    | cons next parts =>
      have hcomma := Respacing.putBehind (d := ',') rfl ([',', ' '].intercalate (next :: parts))
      rw [List.intercalate_cons_cons, List.intercalate_cons_cons]
      simpa using ((ih.cons ',').trans hcomma).behind part

/-- A value is respaced when it is formatted. -/
theorem respacing_formatValueChars {d : Char} (hd : isLoose d = true) (cs : List Char) :
    Respacing (d :: cs) (d :: formatValueChars cs) := by
  have hparts := respacing_intercalate (fun _ part hd => respacing_collapse hd part)
    (List.forall_mem_nil _) (splitTopLevel ',' {} cs) hd
  rw [intercalate_splitTopLevel] at hparts
  exact hparts.trans ((respacing_spaced _).cons d)

/-! ## Selectors -/

/-- White space in front of white space and a combinator goes. -/
theorem respacing_of_combinator {x : Char} (hx : Text.isSpace x = true) {cs : List Char}
    (h : (cs.dropWhile Text.isSpace).head?.any isCombinator = true) : Respacing (x :: cs) cs := by
  cases cs with
  | nil => simp at h
  | cons c cs =>
    have hc : isLoose c = true := by
      by_cases hspace : Text.isSpace c = true
      · exact isLoose_of_isSpace hspace
      · rw [List.dropWhile_cons_of_neg hspace] at h
        exact isLoose_of_isCombinator h
    exact .dropBefore hx hc cs

/-- Spaces come around combinators; behind a combinator white space may be dropped. -/
theorem respacing_spaceCombinators (cs : List Char) :
    Respacing cs (spaceCombinators false cs) ∧
      ∀ d, isLoose d = true → Respacing (d :: cs) (d :: spaceCombinators true cs) := by
  induction cs with
  | nil => exact ⟨.refl _, fun _ _ => .refl _⟩
  | cons c cs ih =>
    obtain ⟨hplain, hbehind⟩ := ih
    -- a combinator gets spaces on both sides
    by_cases hcombinator : isCombinator c = true
    · have hc := isLoose_of_isCombinator hcombinator
      have hspaced : ∀ skipping, Respacing (c :: cs) (spaceCombinators skipping (c :: cs)) := by
        intro skipping
        rw [spaceCombinators, if_pos hcombinator]
        exact (hbehind c hc).trans ((Respacing.putBehind hc _).trans (.putBefore hcombinator _))
      exact ⟨hspaced false, fun d _ => (hspaced true).cons d⟩
    -- white space goes in front of a combinator and behind one, and stays elsewhere
    by_cases hspace : Text.isSpace c = true
    · have hdropped : spaceCombinators true (c :: cs) = spaceCombinators true cs := by
        simp [spaceCombinators, hcombinator, hspace]
      refine ⟨?_, fun d hd => ?_⟩
      · by_cases hnext : (cs.dropWhile Text.isSpace).head?.any isCombinator = true
        · have hgone : spaceCombinators false (c :: cs) = spaceCombinators false cs := by
            simp [spaceCombinators, hcombinator, hspace, hnext]
          rw [hgone]
          exact (respacing_of_combinator hspace hnext).trans hplain
        · have hkept : spaceCombinators false (c :: cs) = c :: spaceCombinators false cs := by
            simp [spaceCombinators, hcombinator, hspace, hnext]
          rw [hkept]
          exact hplain.cons c
      · rw [hdropped]
        exact (Respacing.dropBehind hd hspace cs).trans (hbehind d hd)
    · -- another character stays
      have hkept : ∀ skipping,
          spaceCombinators skipping (c :: cs) = c :: spaceCombinators false cs := by
        intro skipping
        rw [spaceCombinators, if_neg hcombinator, if_neg hspace]
      exact ⟨by rw [hkept]; exact hplain.cons c,
        fun d _ => by rw [hkept]; exact (hplain.cons c).cons d⟩

/-- A selector is respaced when it is formatted. -/
theorem respacing_formatOneSelector {d : Char} (hd : isLoose d = true) (cs : List Char) :
    Respacing (d :: cs) (d :: formatOneSelector cs) := by
  have hcollapse := respacing_collapse hd cs
  rw [formatOneSelector]
  split
  · exact hcollapse
  · exact hcollapse.trans
      (((respacing_spaceCombinators (collapse cs)).1.cons d).trans (.trimChars hd _))

/-- A formatted selector has the contents that it had before. -/
theorem alike_formatOneSelector (cs : List Char) : Alike [formatOneSelector cs] [cs] := by
  rw [formatOneSelector]
  split
  · exact alike_collapse cs
  · exact (Alike.trimChars _).trans
      ((respacing_spaceCombinators (collapse cs)).1.respaced.alike.symm.trans (alike_collapse cs))

end Reflow.Stylesheet
