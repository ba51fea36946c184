import Reflow.Proofs.Stylesheet.Pieces

/-!
# How the reader passes over a text

Up to the end of a statement the reader of a stylesheet counts the brackets that are open and knows
whether it is in a string or in a comment.  What it knows behind a text depends on a few characters
only: quotes, backslashes, the marks of comments, brackets, semicolons and braces, and line ends, which
no string may hold.  All others are neutral, and the printer puts and takes nothing else.  So the
reader passes over a printed text as it passes over the text that was read.

## Key results

- `Scan.over?`: what the reader knows behind a text
- `Respacing.passed`, `passed_lowerFrom`: printing changes nothing of that
- `comes_of_readPrelude`: up to the end of a statement the reader comes to the end of all that it is in
- `readPrelude_step`, `readPrelude_over`: a text that is passed over is read up to what follows it
-/

namespace Reflow.Stylesheet

/-- What the reader is in. -/
inductive ScanMode where
  /-- Outside strings and comments; `slash` behind a slash, which a star turns into a comment. -/
  | plain (slash : Bool)
  | string (quote : Char) (hquote : Text.isQuote quote = true) (escaped : Bool)
  | comment (star : Bool)
  deriving Repr, DecidableEq

/-- What the reader of a statement knows: how many brackets are open, and what it is in. -/
structure Scan where
  depth : Nat := 0
  mode : ScanMode := .plain false
  deriving Repr, DecidableEq

namespace Scan

/-- Behind a character.  Nothing is behind the end of the statement, nor behind a line end in a
string. -/
def after? (s : Scan) (c : Char) : Option Scan :=
  match s.mode with
  | .plain slash =>
    if hc : Text.isQuote c then some { s with mode := .string c hc false }
    else if slash && c = '*' then some { s with mode := .comment false }
    else if c = '(' || c = '[' then some ⟨s.depth + 1, .plain false⟩
    else if c = ')' || c = ']' then some ⟨s.depth - 1, .plain false⟩
    else if s.depth = 0 && (c = ';' || c = '{' || c = '}') then none
    else some { s with mode := .plain (c = '/') }
  | .string quote hquote escaped =>
    if escaped then some { s with mode := .string quote hquote false }
    else if c = '\\' then some { s with mode := .string quote hquote true }
    else if c = quote then some { s with mode := .plain false }
    else if c = '\n' then none
    else some s
  | .comment star =>
    if star && c = '/' then some { s with mode := .plain false }
    else some { s with mode := .comment (c = '*') }

/-- Behind a text. -/
def over? (s : Scan) (cs : List Char) : Option Scan := cs.foldlM after? s

/-- Behind a character that means nothing: no slash, backslash or star is waiting for the next one. -/
def calm (s : Scan) : Scan :=
  match s.mode with
  | .plain _ => { s with mode := .plain false }
  | .string quote hquote _ => { s with mode := .string quote hquote false }
  | .comment _ => { s with mode := .comment false }

/-- Is it outside strings and comments? -/
def isPlain (s : Scan) : Bool :=
  match s.mode with
  | .plain _ => true
  | _ => false

/-- Is it in a string? -/
def isString (s : Scan) : Bool :=
  match s.mode with
  | .string .. => true
  | _ => false

end Scan

/-- The characters that may mean something to the reader. -/
def marks : List Char := ['"', '\'', '\\', '/', '*', '(', ')', '[', ']', ';', '{', '}', '\n']

/-- Does the character mean nothing to the reader? -/
def isNeutral (c : Char) : Bool := !marks.contains c

variable {s r : Scan} {a b cs rest : List Char} {c d x : Char}

/-- The neutral characters are those that are no marks. -/
theorem isNeutral_iff : isNeutral c = true ↔ c ∉ marks := by
  simp [isNeutral, List.contains_eq_mem]

@[simp] theorem Scan.calm_calm (s : Scan) : s.calm.calm = s.calm := by
  obtain ⟨depth, mode⟩ := s
  cases mode <;> rfl

@[simp] theorem Scan.depth_calm (s : Scan) : s.calm.depth = s.depth := by
  obtain ⟨depth, mode⟩ := s
  cases mode <;> rfl

@[simp] theorem Scan.isPlain_calm (s : Scan) : s.calm.isPlain = s.isPlain := by
  obtain ⟨depth, mode⟩ := s
  cases mode <;> rfl

@[simp] theorem Scan.isString_calm (s : Scan) : s.calm.isString = s.isString := by
  obtain ⟨depth, mode⟩ := s
  cases mode <;> rfl

@[simp] theorem Scan.over?_nil (s : Scan) : s.over? [] = some s := rfl

/-- A text is passed over character by character. -/
theorem Scan.over?_cons (s : Scan) (c : Char) (cs : List Char) :
    s.over? (c :: cs) = (s.after? c).bind (·.over? cs) := rfl

/-- Two texts are passed over one after the other. -/
theorem Scan.over?_append (s : Scan) (a b : List Char) :
    s.over? (a ++ b) = (s.over? a).bind (·.over? b) := List.foldlM_append

/-! ## Neutral characters -/

/-- Behind a neutral character the reader is where it was, and nothing is waiting. -/
theorem Scan.after?_neutral (h : isNeutral c = true) (s : Scan) : s.after? c = some s.calm := by
  simp only [isNeutral_iff, marks, List.mem_cons, List.not_mem_nil, or_false, not_or] at h
  obtain ⟨depth, mode⟩ := s
  cases mode with
  | plain slash => simp [after?, calm, Text.isQuote, h]
  | string quote hquote escaped =>
    have hne : c ≠ quote := by
      rintro rfl
      simp [Text.isQuote, h] at hquote
    cases escaped <;> simp [after?, calm, h, hne]
  | comment star => simp [after?, calm, h]

/-- A neutral character only ends what is waiting. -/
theorem Scan.over?_neutral (h : isNeutral c = true) (s : Scan) (cs : List Char) :
    s.over? (c :: cs) = s.calm.over? cs := by
  rw [over?_cons, after?_neutral h]
  rfl

/-- Neutral characters together mean no more than one of them. -/
theorem Scan.over?_neutrals (ha : ∀ c ∈ a, isNeutral c = true) (hne : a ≠ []) (s : Scan)
    (cs : List Char) : s.over? (a ++ cs) = s.calm.over? cs := by
  induction a generalizing s with
  | nil => exact absurd rfl hne
  | cons c a ih =>
    rw [List.forall_mem_cons] at ha
    rw [List.cons_append, over?_neutral ha.1]
    cases a with
    | nil => rfl
    | cons d a => rw [ih ha.2 (List.cons_ne_nil d a), calm_calm]

/-- White space is neutral but for a line end, behind which a string is not gone on with. -/
theorem Scan.after?_space (hx : Text.isSpace x = true) (h : s.after? x = some r) : r = s.calm := by
  -- a line feed ends what is waiting, outside strings; in a string it is not passed over
  by_cases hline : x = '\n'
  · subst hline
    obtain ⟨depth, mode⟩ := s
    cases mode with
    | plain slash => simpa [after?, calm, Text.isQuote, eq_comm] using h
    | string quote hquote escaped =>
      have hne : '\n' ≠ quote := by
        rintro rfl
        exact absurd hquote (by decide)
      cases escaped <;> simp [after?, calm, hne] at h ⊢
      exact h.symm
    | comment star => simpa [after?, calm, eq_comm] using h
  · -- other white space is neutral
    have hneutral : isNeutral x = true := by
      have hnone : ∀ d ∈ marks, d ≠ '\n' → Text.isSpace d = false :=
        Text.forall_mem_of_all (by decide)
      rw [isNeutral_iff]
      intro hmem
      rw [hnone x hmem hline] at hx
      cases hx
    rw [after?_neutral hneutral] at h
    exact (Option.some.inj h).symm

/-- Apart from a line feed, what white space may be put next to is neutral. -/
theorem isNeutral_of_isLoose (hd : isLoose d = true) (hline : d ≠ '\n') : isNeutral d = true := by
  have hnone : ∀ e ∈ marks, e ≠ '\n' → isLoose e = false := Text.forall_mem_of_all (by decide)
  rw [isNeutral_iff]
  intro hmem
  rw [hnone d hmem hline] at hd
  cases hd

/-- So are the characters next to which white space is put and taken. -/
theorem Scan.after?_loose (hd : isLoose d = true) (h : s.after? d = some r) : r = s.calm := by
  by_cases hline : d = '\n'
  · exact after?_space (hline ▸ rfl) h
  · rw [after?_neutral (isNeutral_of_isLoose hd hline)] at h
    exact (Option.some.inj h).symm

/-- What was waiting does not keep such a character from being passed over. -/
theorem Scan.after?_of_calm (hd : isLoose d = true) (h : s.calm.after? d = some r) :
    s.after? d = some r := by
  -- calmed, the reader passes over the character as it does when something waits
  by_cases hline : d = '\n'
  · subst hline
    have hr := after?_loose hd h
    rw [calm_calm] at hr
    subst hr
    obtain ⟨depth, mode⟩ := s
    cases mode with
    | plain slash => simp [after?, calm, Text.isQuote]
    | string quote hquote escaped =>
      have hne : '\n' ≠ quote := by
        rintro rfl
        exact absurd hquote (by decide)
      simp [after?, calm, hne] at h
    | comment star => simp [after?, calm]
  · -- but for a line feed the character is neutral
    have hneutral := isNeutral_of_isLoose hd hline
    rw [after?_neutral hneutral, calm_calm] at h
    rw [after?_neutral hneutral, h]

/-! ## Printing -/

/-- The reader passes over the second text as it passes over the first one, but for what is waiting
behind it. -/
def Passed (a b : List Char) : Prop :=
  ∀ s r, Scan.over? s a = some r → ∃ r', Scan.over? s b = some r' ∧ r'.calm = r.calm

namespace Passed

/-- Every text is passed as itself. -/
theorem refl (a : List Char) : Passed a a := fun _ r h => ⟨r, h, rfl⟩

/-- The relation goes on from text to text. -/
theorem trans {c : List Char} (h : Passed a b) (h' : Passed b c) : Passed a c := by
  intro s r hs
  obtain ⟨t, ht, hcalm⟩ := h s r hs
  obtain ⟨u, hu, hcalm'⟩ := h' s t ht
  exact ⟨u, hu, hcalm'.trans hcalm⟩

/-- The same text may stand in front of both. -/
theorem behind (front : List Char) (h : Passed a b) : Passed (front ++ a) (front ++ b) := by
  intro s r hs
  rw [Scan.over?_append] at hs ⊢
  obtain ⟨t, ht, hs⟩ := Option.bind_eq_some_iff.1 hs
  obtain ⟨u, hu, hcalm⟩ := h t r hs
  exact ⟨u, by rw [ht]; exact hu, hcalm⟩

/-- So may the same character. -/
theorem cons (x : Char) (h : Passed a b) : Passed (x :: a) (x :: b) := h.behind [x]

/-- Neutral characters in the place of one. -/
theorem neutral (hc : isNeutral c = true) (ha : ∀ d ∈ a, isNeutral d = true) (hne : a ≠ [])
    (h : Passed cs b) : Passed (c :: cs) (a ++ b) := by
  intro s r hs
  rw [Scan.over?_neutral hc] at hs
  rw [Scan.over?_neutrals ha hne]
  exact h _ r hs

end Passed

/-- The printer changes white space only where the reader does not care. -/
theorem Respacing.passed (h : Respacing a b) : Passed a b := by
  have hneutral : isNeutral ' ' = true := by decide
  -- behind the first character nothing is waiting, so that what is put or taken there is passed over
  have hsame : ∀ {s r : Scan} {d : Char} {cs : List Char}, isLoose d = true →
      s.over? (d :: cs) = some r → s.after? d = some s.calm ∧ s.calm.over? cs = some r := by
    intro s r d cs hd hs
    rw [Scan.over?_cons] at hs
    obtain ⟨t, ht, hs⟩ := Option.bind_eq_some_iff.1 hs
    obtain rfl := Scan.after?_loose hd ht
    exact ⟨ht, hs⟩
  -- by induction on the respacing
  induction h with
  | refl a => exact .refl a
  | trans _ _ ih ih' => exact ih.trans ih'
  | cons x _ ih => exact ih.cons x
  | change hx cs =>
    intro s r hs
    refine ⟨r, ?_, rfl⟩
    rw [Scan.over?_neutral hneutral]
    exact (hsame (isLoose_of_isSpace hx) hs).2
  | dropEnd hx =>
    intro s r hs
    have hr := (hsame (isLoose_of_isSpace hx) hs).2
    exact ⟨s, rfl, by rw [← Option.some.inj hr, Scan.calm_calm]⟩
  | dropBefore hx hd cs =>
    intro s r hs
    have hrest := (hsame (isLoose_of_isSpace hx) hs).2
    rw [Scan.over?_cons] at hrest
    obtain ⟨t, ht, hrest⟩ := Option.bind_eq_some_iff.1 hrest
    refine ⟨r, ?_, rfl⟩
    rw [Scan.over?_cons, Scan.after?_of_calm hd ht]
    exact hrest
  | dropBehind hd hx cs =>
    intro s r hs
    obtain ⟨ht, hrest⟩ := hsame hd hs
    have hrest := (hsame (isLoose_of_isSpace hx) hrest).2
    rw [Scan.calm_calm] at hrest
    refine ⟨r, ?_, rfl⟩
    rw [Scan.over?_cons, ht]
    exact hrest
  | putBefore hd cs =>
    intro s r hs
    refine ⟨r, ?_, rfl⟩
    obtain ⟨ht, hrest⟩ := hsame (isLoose_of_isCombinator hd) hs
    have hline : ∀ e, isCombinator e = true → e ≠ '\n' := by
      rintro e he rfl
      cases he
    have hd := isNeutral_of_isLoose (isLoose_of_isCombinator hd) (hline _ hd)
    rw [Scan.over?_neutral hneutral, Scan.over?_neutral hd, Scan.calm_calm]
    exact hrest
  | putBehind hd cs =>
    intro s r hs
    obtain ⟨ht, hrest⟩ := hsame hd hs
    refine ⟨r, ?_, rfl⟩
    rw [Scan.over?_cons, ht]
    show s.calm.over? (' ' :: cs) = some r
    rw [Scan.over?_neutral hneutral, Scan.calm_calm]
    exact hrest

/-- Lower case changes neutral characters only. -/
theorem passed_lowerFrom (before cs : List Char) : Passed cs (Text.lowerFrom before cs) := by
  -- a character with a meaning is its own lower case, and no lower case of another
  have hmarks : ∀ c ∈ marks,
      c ≠ 'Σ' ∧ Text.mapCase Text.Tables.toLowerMany Text.Tables.toLower c = [c] :=
    Text.forall_mem_of_all (by decide)
  have hcodes : ∀ c ∈ marks, ¬(97 ≤ c.toNat ∧ (c.toNat ≤ 122 ∨ 128 ≤ c.toNat)) :=
    Text.forall_mem_of_all (by decide)
  induction cs generalizing before with
  | nil => exact .refl []
  | cons c cs ih =>
    -- a mark stays as it is, another character is neutral in either case
    by_cases hc : c ∈ marks
    · have hsame := Text.lowerFrom_append (a := [c]) (by simpa using hmarks c hc) before cs
      rw [List.singleton_append] at hsame
      rw [hsame]
      exact (ih _).cons c
    · obtain ⟨ds, hds, heq⟩ := Text.lowerFrom_cons before c cs
      rw [heq]
      refine .neutral (isNeutral_iff.2 hc) (fun d hd => isNeutral_iff.2 fun hmem => ?_) hds.ne_nil
        (ih _)
      rcases hds.same d hd with rfl | hcode
      · exact hc hmem
      · exact hcodes d hmem hcode

/-! ## Reading -/

/-- The mode of the reader in front of a text.  It looks ahead for the star of a comment, where behind
a slash the star has not come yet. -/
inductive ScanMode.Stands (ahead : List Char) : ScanMode → PreludeMode → Prop
  | plain {slash : Bool} (h : slash = true → ahead.head? ≠ some '*') : Stands ahead (.plain slash) .plain
  | commentOpen (h : ahead.head? = some '*') (start : Nat) :
    Stands ahead (.plain true) (.commentOpen start)
  | string {quote : Char} (hquote : Text.isQuote quote = true) (start : Nat) (escaped : Bool) :
    Stands ahead (.string quote hquote escaped) (.string quote start escaped)
  | comment (start : Nat) (star : Bool) : Stands ahead (.comment star) (.comment start star)

/-- Outside strings and comments the mode is the plain one, whatever lies ahead. -/
theorem ScanMode.Stands.outside (ahead : List Char) : Stands ahead (.plain false) .plain :=
  .plain (by simp)

/-- Where the reader knows of no comment, a slash and the next character do not open one. -/
theorem not_commentOpen {slash : Bool} (h : slash = true → (c :: cs).head? ≠ some '*') :
    (slash && decide (c = '*')) = false := by
  rw [Bool.and_eq_false_iff, decide_eq_false_iff_not]
  rcases Bool.eq_false_or_eq_true slash with hs | hs
  · exact .inr fun hc => h hs (congrArg some hc)
  · exact .inl hs

/-- What the reader knows behind the text that it has read. -/
def Comes (s : Scan) (read cs : List Char) (p : Prelude) : Prop :=
  ∃ new r, p.text = read.reverse ++ new ∧ cs = new ++ p.ahead.rest ∧ s.over? new = some r ∧
    r.isPlain = true ∧ ∀ c ∈ p.ending, c ≠ '\n' → r.depth = 0

/-- A character that the reader passes over brings it to what it comes to behind the character. -/
theorem Comes.step {read : List Char} {p : Prelude} (hafter : s.after? c = some r)
    (h : Comes r (c :: read) rest p) : Comes s read (c :: rest) p := by
  obtain ⟨new, t, htext, rfl, hover, hplain, hdepth⟩ := h
  refine ⟨c :: new, t, by simp [htext], rfl, ?_, hplain, hdepth⟩
  rw [Scan.over?_cons, hafter]
  exact hover

/-- The reader stops here: outside strings and comments, and outside brackets unless the text ends.
-/
theorem Comes.here {read : List Char} {p : Prelude} (htext : p.text = read.reverse)
    (hrest : p.ahead.rest = cs) (hplain : s.isPlain = true)
    (hdepth : ∀ c ∈ p.ending, c ≠ '\n' → s.depth = 0) : Comes s read cs p :=
  ⟨[], s, by simp [htext], by simp [hrest], rfl, hplain, hdepth⟩

/-- Up to the end of a statement the reader comes to the end of strings, comments and brackets. -/
theorem comes_of_readPrelude {depth offset : Nat} {mode : ScanMode} {m : PreludeMode}
    {read : List Char} {p : Prelude} (h : readPrelude depth m read offset cs = .ok p)
    (hm : mode.Stands cs m) : Comes ⟨depth, mode⟩ read cs p := by
  -- on the text ahead, for all modes at once, as the reader goes from one to another
  induction cs generalizing depth mode m read offset with
  | nil =>
    cases hm with
    | plain =>
      cases h
      exact .here rfl rfl rfl fun _ h => absurd h (Option.not_mem_none _)
    | commentOpen hhead => cases hhead
    | string => cases h
    | comment => cases h
  | cons c rest ih =>
    -- in which mode the reader is
    cases hm with
    | string hquote start escaped =>
      rename_i quote
      simp only [readPrelude] at h
      -- behind a backslash any character is passed
      cases escaped with
      | true => exact .step rfl (ih h (.string hquote start false))
      | false =>
        simp only [Bool.false_eq_true, if_false] at h
        -- a backslash, the closing quote, a line end or any other character
        split at h
        · rename_i hc
          subst hc
          exact .step rfl (ih h (.string hquote start true))
        rename_i hescape
        split at h
        · rename_i hc
          subst hc
          exact .step (by simp [Scan.after?, hescape]) (ih h (.outside rest))
        rename_i hne
        split at h
        · cases h
        rename_i hline
        exact .step (by simp [Scan.after?, hescape, hne, hline]) (ih h (.string hquote start false))
    -- the star behind the slash opens the comment
    | commentOpen hhead start =>
      obtain rfl : c = '*' := Option.some.inj hhead
      exact .step rfl (ih h (.comment start false))
    | comment start star =>
      simp only [readPrelude] at h
      -- a slash behind a star ends it
      split at h
      · rename_i hend
        exact .step (by simp [Scan.after?, hend]) (ih h (.outside rest))
      · rename_i hend
        exact .step (by simp [Scan.after?, hend]) (ih h (.comment start _))
    | @plain slash hslash =>
      have hstar := not_commentOpen hslash
      simp only [readPrelude] at h
      -- a quote, the opening of a comment, brackets, an end, or any other character
      split at h
      · rename_i hc
        have hc : Text.isQuote c = true := by simpa [Text.isQuote] using hc
        exact .step (by simp [Scan.after?, hc]) (ih h (.string hc offset false))
      rename_i hquote
      have hquote : ¬Text.isQuote c = true := by simpa [Text.isQuote] using hquote
      split at h
      · rename_i hc
        obtain ⟨rfl, hhead⟩ : c = '/' ∧ rest.head? = some '*' := by simpa using hc
        exact .step (by simp [Scan.after?, Text.isQuote]) (ih h (.commentOpen hhead offset))
      rename_i hcomment
      split at h
      · rename_i hc
        exact .step (by simp only [Scan.after?, hquote, hstar, hc]; rfl) (ih h (.outside rest))
      rename_i hopen
      split at h
      · rename_i hc
        exact .step (by simp only [Scan.after?, hquote, hstar, hopen, hc]; rfl)
          (ih h (.outside rest))
      rename_i hclose
      split at h
      · rename_i hc
        cases h
        -- the end stands outside brackets
        exact .here rfl rfl rfl fun _ _ _ => by simpa using (Bool.and_eq_true_iff.1 hc).1
      rename_i hstop
      split at h
      · -- a placeholder alone on its line ends with it
        rename_i hc
        cases h
        refine .here rfl rfl rfl fun d hd hline => absurd ?_ hline
        obtain rfl : c = d := Option.some.inj hd
        simpa using (Bool.and_eq_true_iff.1 hc).1
      · refine .step (by simp only [Scan.after?, hquote, hstar, hopen, hclose, hstop]; rfl)
          (ih h (.plain fun hc hhead => hcomment ?_))
        simpa using ⟨of_decide_eq_true hc, hhead⟩

/-- At no line end in the text a placeholder stands alone in front of it, behind what has been read. -/
def Unstopped (read cs : List Char) : Prop :=
  ∀ a b, cs = a ++ '\n' :: b → isPlaceholder (Text.trimChars (read.reverse ++ a)) = false

/-- Behind a character there are only fewer line ends. -/
theorem Unstopped.tail {read : List Char} (h : Unstopped read (c :: cs)) :
    Unstopped (c :: read) cs := by
  rintro a b rfl
  simpa using h (c :: a) b rfl

/-- A character that is passed over is read, and the reader goes on in the mode behind it. -/
theorem readPrelude_step {depth depth' : Nat} {mode mode' : ScanMode} {m : PreludeMode}
    {read : List Char} (hafter : Scan.after? ⟨depth, mode⟩ c = some ⟨depth', mode'⟩)
    (hstop : c = '\n' → isPlaceholder (Text.trimChars read.reverse) = false)
    (hm : mode.Stands (c :: rest) m) (offset : Nat) : ∃ m', mode'.Stands rest m' ∧
      readPrelude depth m read offset (c :: rest) =
        readPrelude depth' m' (c :: read) (offset + 1) rest := by
  -- in which mode the reader is; each way to go on is that of the reader itself
  cases hm with
  | @string quote hquote start escaped =>
    cases escaped with
    | true =>
      cases hafter
      exact ⟨_, .string hquote start false, rfl⟩
    | false =>
      simp only [Scan.after?, Bool.false_eq_true, if_false] at hafter
      split at hafter
      · rename_i hc
        subst hc
        cases hafter
        exact ⟨_, .string hquote start true, rfl⟩
      rename_i hescape
      split at hafter
      · rename_i hc
        subst hc
        cases hafter
        exact ⟨_, .outside _, by simp [readPrelude, hescape]⟩
      rename_i hne
      split at hafter
      · cases hafter
      rename_i hline
      cases hafter
      exact ⟨_, .string hquote start false, by simp [readPrelude, hescape, hne, hline]⟩
  | commentOpen hhead start =>
    obtain rfl : c = '*' := Option.some.inj hhead
    cases hafter
    exact ⟨_, .comment start false, rfl⟩
  | comment start star =>
    -- a slash behind a star ends the comment
    simp only [Scan.after?] at hafter
    split at hafter <;> rename_i hend <;> cases hafter
    · exact ⟨_, .outside _, by simp only [readPrelude, hend]; rfl⟩
    · exact ⟨_, .comment start _, by simp only [readPrelude, hend]; rfl⟩
  | @plain slash hslash =>
    have hstar := not_commentOpen hslash
    simp only [Scan.after?, hstar, Bool.false_eq_true, if_false] at hafter
    simp only [readPrelude]
    -- a quote, the opening of a comment, brackets, an end, or any other character
    split at hafter
    · rename_i hc
      cases hafter
      exact ⟨_, .string hc offset false, if_pos (by simpa [Text.isQuote] using hc)⟩
    rename_i hquote
    rw [if_neg (by simpa [Text.isQuote] using hquote)]
    by_cases hcomment : c = '/' ∧ rest.head? = some '*'
    · rw [if_pos (by simpa using hcomment)]
      obtain ⟨rfl, hhead⟩ := hcomment
      simp at hafter
      obtain ⟨rfl, rfl⟩ := hafter
      exact ⟨_, .commentOpen hhead offset, rfl⟩
    rw [if_neg (by simpa using hcomment)]
    split at hafter
    · rename_i hc
      cases hafter
      exact ⟨_, .outside _, if_pos hc⟩
    rename_i hopen
    rw [if_neg hopen]
    split at hafter
    · rename_i hc
      cases hafter
      exact ⟨_, .outside _, if_pos hc⟩
    rename_i hclose
    rw [if_neg hclose]
    split at hafter
    · cases hafter
    rename_i hend
    -- a line feed does not end the statement here
    have hline : ¬(decide (c = '\n') && isPlaceholder (Text.trimChars read.reverse)) = true := by
      rw [Bool.and_eq_true, decide_eq_true_eq]
      rintro ⟨rfl, halone⟩
      rw [hstop rfl] at halone
      cases halone
    rw [if_neg hend, if_neg hline]
    cases hafter
    exact ⟨_, .plain fun hc hhead => hcomment ⟨of_decide_eq_true hc, hhead⟩, rfl⟩

/-- A text that is passed over is read up to what follows it. -/
theorem readPrelude_over {depth : Nat} {mode : ScanMode} {m : PreludeMode} {read : List Char}
    (h : Scan.over? ⟨depth, mode⟩ cs = some r) (hstop : Unstopped read cs)
    (hm : mode.Stands (cs ++ rest) m) (offset : Nat) : ∃ m', r.mode.Stands rest m' ∧
      readPrelude depth m read offset (cs ++ rest) =
        readPrelude r.depth m' (cs.reverse ++ read) (offset + cs.length) rest := by
  -- by induction on the text that is passed over
  induction cs generalizing depth mode m read offset with
  | nil =>
    cases h
    exact ⟨m, hm, rfl⟩
  | cons c cs ih =>
    rw [Scan.over?_cons] at h
    obtain ⟨⟨depth', mode'⟩, hafter, h⟩ := Option.bind_eq_some_iff.1 h
    have hfirst : c = '\n' → isPlaceholder (Text.trimChars read.reverse) = false := by
      rintro rfl
      simpa using hstop [] cs rfl
    rw [List.cons_append] at hm ⊢
    obtain ⟨m', hm', hone⟩ := readPrelude_step hafter hfirst hm offset
    obtain ⟨m'', hm'', hrest⟩ := ih h hstop.tail hm' (offset + 1)
    refine ⟨m'', hm'', ?_⟩
    rw [hone, hrest]
    simp [Nat.add_assoc, Nat.add_comm 1]

/-- A text is read up to a character that ends its statement. -/
theorem readPrelude_ends (h : Scan.over? {} cs = some r) (hplain : r.isPlain = true)
    (hdepth : r.depth = 0) (hstop : Unstopped [] cs) (hc : c = ';' ∨ c = '{' ∨ c = '}')
    (offset : Nat) (rest : List Char) :
    readPrelude 0 .plain [] offset (cs ++ c :: rest) =
      .ok ⟨cs, some c, ⟨offset + cs.length, c :: rest⟩⟩ := by
  obtain ⟨m, hm, hread⟩ := readPrelude_over h hstop (.outside (cs ++ c :: rest)) offset
  -- the end is no star, so no comment is open in front of it
  have hplainMode : m = .plain := by
    obtain ⟨depth, mode⟩ := r
    cases hm with
    | plain => rfl
    | commentOpen hhead =>
      rcases hc with rfl | rfl | rfl <;> cases hhead
    | string | comment => cases hplain
  rw [hread, hplainMode, hdepth]
  rcases hc with rfl | rfl | rfl <;> simp [readPrelude]

/-! ### Placeholders -/

/-- A placeholder is the placeholder of its digits. -/
theorem eq_placeholderOf (h : isPlaceholder cs = true) : ∃ digits : List Char,
    digits.all Text.isDecimal = true ∧ cs = placeholderOf digits := by
  unfold isPlaceholder at h
  split at h
  · rename_i rest hrest
    simp only [Bool.and_eq_true, beq_iff_eq] at h
    have hsplit := List.prefix_iff_eq_append.1 (List.takeWhile_prefix (l := rest) Text.isDecimal)
    rw [h.2] at hsplit
    refine ⟨rest.takeWhile Text.isDecimal, List.all_takeWhile, ?_⟩
    rw [Text.dropLeading?_eq_some_iff.1 hrest, placeholderOf, List.append_assoc, hsplit]
  · cases h

/-- Nothing in a placeholder means anything to the reader. -/
theorem isNeutral_of_mem_placeholder (h : isPlaceholder cs = true) : ∀ c ∈ cs, isNeutral c = true := by
  obtain ⟨digits, hdigits, rfl⟩ := eq_placeholderOf h
  have hletters : ∀ c ∈ placeholderStart ++ placeholderEnd, isNeutral c = true :=
    Text.forall_mem_of_all (by decide)
  -- the letters of a placeholder are no marks, and no mark is a digit
  have hdecimal : ∀ c ∈ marks, Text.isDecimal c = false := Text.forall_mem_of_all (by decide)
  intro c hc
  simp only [placeholderOf, List.mem_append] at hc
  rcases hc with (hc | hc) | hc
  · exact hletters c (List.mem_append_left _ hc)
  · rw [isNeutral_iff]
    intro hmem
    have hdigit := List.all_eq_true.1 hdigits c hc
    rw [hdecimal c hmem] at hdigit
    cases hdigit
  · exact hletters c (List.mem_append_right _ hc)

/-- A placeholder holds no delimiters. -/
theorem not_mem_placeholder (h : isPlaceholder cs = true) (hc : delimits c = true) : c ∉ cs := by
  obtain ⟨digits, hdigits, rfl⟩ := eq_placeholderOf h
  exact not_mem_placeholderOf hc hdigits

/-- A placeholder neither starts nor ends with white space. -/
theorem tight_of_isPlaceholder (h : isPlaceholder cs = true) : Text.Tight cs := by
  constructor <;> intro c hc <;> rw [Bool.eq_false_iff] <;> intro hspace
  · exact not_mem_placeholder h (delimits_of_isSpace hspace) (List.mem_of_mem_head? hc)
  · exact not_mem_placeholder h (delimits_of_isSpace hspace) (List.mem_of_getLast? hc)

/-- The reader is in nothing behind a placeholder. -/
theorem over?_placeholder (h : isPlaceholder cs = true) : Scan.over? {} cs = some {} := by
  have hne : cs ≠ [] := by
    rintro rfl
    cases h
  have hover := Scan.over?_neutrals (isNeutral_of_mem_placeholder h) hne {} []
  rwa [List.append_nil] at hover

/-- A placeholder that stands alone is read up to the end of its line. -/
theorem readPrelude_alone (h : isPlaceholder cs = true) (offset : Nat) (rest : List Char) :
    readPrelude 0 .plain [] offset (cs ++ '\n' :: rest) =
      .ok ⟨cs, some '\n', ⟨offset + cs.length, '\n' :: rest⟩⟩ := by
  -- there is no line feed in a placeholder
  have hstop : Unstopped [] cs := by
    rintro a b rfl
    exact absurd List.mem_append_cons_self (not_mem_placeholder h (delimits_of_isSpace rfl))
  obtain ⟨m, hm, hread⟩ :=
    readPrelude_over (over?_placeholder h) hstop (.outside (cs ++ '\n' :: rest)) offset
  obtain rfl : m = .plain := by
    cases hm
    rfl
  rw [hread]
  simp [readPrelude, (tight_of_isPlaceholder h).trimChars, h]

/-- The reader does not go past a line end in front of which a placeholder stands alone. -/
theorem not_isPlaceholder_of_readPrelude {depth offset : Nat} {read : List Char} {p : Prelude}
    (ha : ∀ c ∈ a, isNeutral c = true ∨ c = '\n')
    (h : readPrelude depth .plain read offset (a ++ '\n' :: rest) = .ok p)
    (hlength : read.length + a.length < p.text.length) :
    isPlaceholder (Text.trimChars (read.reverse ++ a)) = false := by
  induction a generalizing read offset with
  | nil =>
    rw [List.append_nil, Bool.eq_false_iff]
    intro halone
    simp [readPrelude, halone] at h
    simp [← h] at hlength
  | cons c a ih =>
    rw [List.forall_mem_cons] at ha
    -- the reader either ends here, with too short a text, or goes on
    have hgo : readPrelude depth .plain (c :: read) (offset + 1) (a ++ '\n' :: rest) = .ok p := by
      rcases ha.1 with hc | rfl
      · simp only [isNeutral_iff, marks, List.mem_cons, List.not_mem_nil, or_false, not_or] at hc
        simpa [readPrelude, hc] using h
      · cases halone : isPlaceholder (Text.trimChars read.reverse) with
        | false => simpa [readPrelude, halone] using h
        | true =>
          simp [readPrelude, halone] at h
          have htext : p.text = read.reverse := by rw [← h]
          rw [htext, List.length_reverse, List.length_cons] at hlength
          omega
    have hrest := ih ha.2 hgo (by simp only [List.length_cons] at hlength ⊢; omega)
    simpa using hrest

/-- The reader has not stopped in the text that it read, so no placeholder stands alone in front of
a line end there. -/
theorem unstopped_of_readPrelude {offset : Nat} {p : Prelude}
    (h : readPrelude 0 .plain [] offset cs = .ok p) : Unstopped [] (Text.trimChars p.text) := by
  obtain ⟨front, back, hsplit, hfront, -⟩ := Text.trimChars_split p.text
  intro a b htext
  -- where the placeholder would stand alone the reader would have stopped
  have hwhole : p.text = (front ++ a) ++ '\n' :: (b ++ back) := by
    rw [hsplit, htext]
    simp
  obtain ⟨hcs, -⟩ := readPrelude_text h
  rw [Bool.eq_false_iff]
  intro halone
  rw [List.reverse_nil, List.nil_append, ← Text.trimChars_front hfront] at halone
  refine Bool.false_ne_true ((Eq.symm ?_).trans halone)
  have hread : readPrelude 0 .plain [] offset ((front ++ a) ++ '\n' :: (b ++ back ++ p.ahead.rest)) =
      .ok p := by
    rw [← h]
    congr 1
    rw [hwhole] at hcs
    simpa using hcs
  refine not_isPlaceholder_of_readPrelude ?_ hread ?_
  · -- around the placeholder there is white space only
    obtain ⟨front', back', hsplit', hfront', hback'⟩ := Text.trimChars_split (front ++ a)
    have hspace : ∀ x, Text.isSpace x = true → isNeutral x = true ∨ x = '\n' := by
      intro x hx
      by_cases hline : x = '\n'
      · exact .inr hline
      · exact .inl (isNeutral_of_isLoose (isLoose_of_isSpace hx) hline)
    intro c hc
    have hc : c ∈ front ++ a := hc
    rw [hsplit', List.mem_append, List.mem_append] at hc
    rcases hc with hc | hc | hc
    · exact hspace c (hfront' c hc)
    · exact .inl (isNeutral_of_mem_placeholder halone c hc)
    · exact hspace c (hback' c hc)
  · simp [hwhole]

end Reflow.Stylesheet
