import Reflow.Proofs.Stylesheet.Passage

/-!
# Where a statement begins

What is printed of a statement has to begin a statement again, and the same kind of statement: it must
not look like a comment, an at-rule or a placeholder that stands alone where the text that was read did
not.  All that is told by the first character and by the first word of the text, up to the first
character that the printer may put white space next to, and these it does not change.  At the other end
a value must not come to be marked as important.

## Key results

- `Opens`, `Begins`: the texts with which a statement begins
- `Respacing.words`, `SameStart.prefix_iff`: the printer does not change the first word
- `Begins.of_passed`: a printed text begins a statement if the text that was read did
- `Respacing.isMarked`: the printer marks nothing as important
-/

namespace Reflow.Stylesheet

variable {a b cs : List Char} {c d : Char} {s r : Scan}

/-! ## First words -/

/-- The characters up to the first one that white space may be put next to. -/
def leading (cs : List Char) : List Char := cs.takeWhile fun c => !isLoose c

/-- The first of the words between such characters. -/
def firstWord (cs : List Char) : List Char := leading (cs.dropWhile isLoose)

/-- A text that starts with such a character has no leading word. -/
theorem leading_loose (hc : isLoose c = true) (cs : List Char) : leading (c :: cs) = [] := by
  simp [leading, hc]

/-- The first word is looked for behind it. -/
theorem firstWord_loose (hc : isLoose c = true) (cs : List Char) :
    firstWord (c :: cs) = firstWord cs := by
  rw [firstWord, List.dropWhile_cons_of_pos hc, firstWord]

/-- Any other character starts the first word. -/
theorem firstWord_cons (hc : isLoose c = false) (cs : List Char) :
    firstWord (c :: cs) = c :: leading cs := by
  rw [firstWord, List.dropWhile_cons_of_neg (by simp [hc])]
  simp [leading, hc]

/-- The printer does not change the first word. -/
theorem Respacing.words (h : Respacing a b) : leading a = leading b ∧ firstWord a = firstWord b := by
  have hspace : isLoose ' ' = true := rfl
  -- by induction on the respacing: words end at characters that may be loose
  induction h with
  | refl a => exact ⟨rfl, rfl⟩
  | trans _ _ ih ih' => exact ⟨ih.1.trans ih'.1, ih.2.trans ih'.2⟩
  -- a character that stays ends the word in either text, or goes on with it
  | @cons x a b _ ih =>
    cases hx : isLoose x with
    | true => rw [leading_loose hx, leading_loose hx, firstWord_loose hx, firstWord_loose hx]
              exact ⟨rfl, ih.2⟩
    | false =>
      rw [firstWord_cons hx, firstWord_cons hx, ih.1]
      simp only [leading, List.takeWhile_cons, hx] at ih ⊢
      simp [ih.1]
  | change hx cs =>
    have hx := isLoose_of_isSpace hx
    rw [leading_loose hx, leading_loose hspace, firstWord_loose hx, firstWord_loose hspace]
    exact ⟨rfl, rfl⟩
  | dropEnd hx =>
    have hx := isLoose_of_isSpace hx
    rw [leading_loose hx, firstWord_loose hx]
    exact ⟨rfl, rfl⟩
  | dropBefore hx hd cs =>
    have hx := isLoose_of_isSpace hx
    rw [leading_loose hx, leading_loose hd, firstWord_loose hx]
    exact ⟨rfl, rfl⟩
  | dropBehind hd hx cs =>
    have hx := isLoose_of_isSpace hx
    rw [leading_loose hd, leading_loose hd, firstWord_loose hd, firstWord_loose hd,
      firstWord_loose hx]
    exact ⟨rfl, rfl⟩
  | putBefore hd cs =>
    have hd := isLoose_of_isCombinator hd
    rw [leading_loose hd, leading_loose hspace, firstWord_loose hspace]
    exact ⟨rfl, rfl⟩
  | putBehind hd cs =>
    rw [leading_loose hd, leading_loose hd, firstWord_loose hd, firstWord_loose hd,
      firstWord_loose hspace]
    exact ⟨rfl, rfl⟩

/-! ## The beginning of a statement -/

/-- A statement begins with the text, and no comment. -/
inductive Opens : List Char → Prop
  | intro {c : Char} {cs : List Char} (hspace : Text.isSpace c = false) (hend : c ∉ ['}', ';'])
    (hcomment : c = '/' → cs.head? ∉ [some '*', some '/']) : Opens (c :: cs)

/-- A statement does not begin with white space. -/
theorem Opens.head (h : Opens cs) : ∀ c ∈ cs.head?, Text.isSpace c = false := by
  obtain ⟨hspace, -, -⟩ := h
  rintro c ⟨⟩
  exact hspace

/-- It begins with something. -/
theorem Opens.ne_nil (h : Opens cs) : cs ≠ [] := by
  obtain ⟨⟩ := h
  exact List.cons_ne_nil _ _

/-- The texts start with the same character and the same word. -/
structure SameStart (a b : List Char) : Prop where
  head : a.head? = b.head?
  word : firstWord a = firstWord b

/-- Texts with the same solid characters and the same first word start in the same way, when neither
starts with white space. -/
theorem SameStart.of_solid (hsolid : Text.solid a = Text.solid b) (hword : firstWord a = firstWord b)
    (ha : ∀ c ∈ a.head?, Text.isSpace c = false) (hb : ∀ c ∈ b.head?, Text.isSpace c = false) :
    SameStart a b := by
  have hhead : ∀ cs : List Char, (∀ c ∈ cs.head?, Text.isSpace c = false) →
      cs.head? = (Text.solid cs).head? := by
    intro cs hcs
    cases cs with
    | nil => rfl
    | cons c cs => simp [Text.solid, hcs c rfl]
  exact ⟨by rw [hhead a ha, hhead b hb, hsolid], hword⟩

/-- They start with the same character, and with the same word behind it. -/
theorem SameStart.leading (h : SameStart (c :: a) (d :: b)) (hc : isLoose c = false) :
    c = d ∧ Stylesheet.leading a = Stylesheet.leading b := by
  obtain rfl : c = d := Option.some.inj h.head
  have hword := h.word
  rw [firstWord_cons hc, firstWord_cons hc] at hword
  exact ⟨rfl, (List.cons.inj hword).2⟩

/-- Characters that no white space is put next to are found in a text if they are found in its start. -/
theorem prefix_iff_leading (ha : ∀ c ∈ a, isLoose c = false) : a <+: cs ↔ a <+: leading cs := by
  induction a generalizing cs with
  | nil => simp
  | cons c a ih =>
    rw [List.forall_mem_cons] at ha
    cases cs with
    | nil => simp [leading]
    | cons d cs =>
      -- the word has no loose character, so it ends before one
      cases hd : isLoose d with
      | true =>
        have hne : c ≠ d := by
          rintro rfl
          rw [ha.1] at hd
          cases hd
        simp [leading_loose hd, List.cons_prefix_cons, hne]
      | false =>
        have hcons : leading (d :: cs) = d :: leading cs := by simp [leading, hd]
        rw [hcons, List.cons_prefix_cons, List.cons_prefix_cons, ih ha.2]

/-- A word that one of them starts with the other starts with, too. -/
theorem SameStart.prefix_iff (h : SameStart a b) {w : List Char} (hw : ∀ c ∈ w, isLoose c = false) :
    w <+: a ↔ w <+: b := by
  cases w with
  | nil => simp
  | cons c w =>
    rw [List.forall_mem_cons] at hw
    -- the first characters are the same, and the words behind them
    cases a with
    | nil =>
      cases b with
      | nil => rfl
      | cons d b => cases h.head
    | cons d a =>
      cases b with
      | nil => cases h.head
      | cons e b =>
        obtain rfl : d = e := Option.some.inj h.head
        rw [List.cons_prefix_cons, List.cons_prefix_cons]
        refine and_congr_right ?_
        rintro rfl
        rw [prefix_iff_leading hw.2, (h.leading hw.1).2, ← prefix_iff_leading hw.2]

/-- A statement begins with a text when one begins with another that starts in the same way. -/
theorem Opens.of_sameStart (h : Opens a) (hsame : SameStart a b) : Opens b := by
  obtain ⟨hspace, hend, hcomment⟩ := h
  rename_i c a
  cases b with
  | nil => cases hsame.head
  | cons d b =>
    obtain rfl : c = d := Option.some.inj hsame.head
    refine .intro hspace hend ?_
    rintro rfl hmem
    -- the first two characters make a word
    have hin : ∀ e, some e ∈ [some '*', some '/'] → b.head? = some e → False := by
      intro e he hb
      have hloose : ∀ e, some e ∈ [some '*', some '/'] → ∀ x ∈ ['/', e], isLoose x = false := by
        intro e he
        simp only [List.mem_cons, Option.some.injEq, List.not_mem_nil, or_false] at he
        rcases he with rfl | rfl <;> exact Text.forall_mem_of_all (by decide)
      obtain ⟨rest, rfl⟩ := List.head?_eq_some_iff.1 hb
      have hpre : ['/', e] <+: '/' :: e :: rest := ⟨rest, rfl⟩
      -- what starts with a comment would have done so before
      rw [← hsame.prefix_iff (hloose e he)] at hpre
      obtain ⟨rest', hrest'⟩ := hpre
      obtain ⟨-, rfl⟩ := List.cons.inj hrest'
      exact hcomment rfl he
    -- the text has a second character, or none
    cases hb : b.head? with
    | none =>
      rw [hb] at hmem
      simp at hmem
    | some e => exact hin e (hb ▸ hmem) hb

/-- A statement begins with the text.  The reader passes over it and comes to `r`, outside strings and
comments, and no placeholder in it ends a statement of its own. -/
structure Begins (cs : List Char) (r : Scan) : Prop where
  opens : Opens cs
  passes : Scan.over? {} cs = some r
  plain : r.isPlain = true
  unstopped : Unstopped [] cs

/-- A placeholder stands at the start of a text if one is what stands before its first line end. -/
theorem unstopped_of_not_startsWith (hspace : ∀ c ∈ cs.head?, Text.isSpace c = false)
    (h : ¬placeholderStart <+: cs) : Unstopped [] cs := by
  intro a b hsplit
  rw [Bool.eq_false_iff]
  intro halone
  obtain ⟨digits, -, htext⟩ := eq_placeholderOf halone
  obtain ⟨front, back, ha, hfront, -⟩ := Text.trimChars_split a
  -- the text does not start with white space, so the placeholder stands at its start
  have hnone : front = [] := by
    cases front with
    | nil => rfl
    | cons c front =>
      rw [List.forall_mem_cons] at hfront
      have hc := hspace c (by rw [hsplit, ha]; rfl)
      rw [hfront.1] at hc
      cases hc
  rw [List.reverse_nil, List.nil_append] at htext
  refine h ⟨digits ++ placeholderEnd ++ back ++ '\n' :: b, ?_⟩
  rw [hsplit, ha, hnone, htext, placeholderOf]
  simp

/-- A placeholder with white space around it holds no other character that is in no placeholder. -/
theorem not_mem_of_alone (halone : isPlaceholder (Text.trimChars cs) = true) (hd : delimits d = true)
    (hspace : Text.isSpace d = false) : d ∉ cs := by
  intro hmem
  have hsolid : d ∈ Text.solid cs := by simp [Text.solid, hmem, hspace]
  rw [← Text.solid_trimChars] at hsolid
  exact not_mem_placeholder halone hd (List.mem_filter.1 hsolid).1

/-- No placeholder stands alone behind such a character. -/
theorem Unstopped.front (h : Unstopped [] (cs ++ a)) (hd : delimits d = true)
    (hspace : Text.isSpace d = false) : Unstopped [] (cs ++ d :: b) := by
  -- the delimiter is no line feed
  have hline : d ≠ '\n' := by
    rintro rfl
    cases hspace
  intro front back hsplit
  -- the line end lies behind the delimiter, or within the text in front
  rcases List.append_eq_append_iff.1 hsplit with ⟨t, hfront, ht⟩ | ⟨t, hcs, ht⟩
  · -- with the delimiter in front of it the text is no placeholder alone
    cases t with
    | nil => exact absurd (List.cons.inj ht).1 hline
    | cons x t =>
      obtain rfl : d = x := (List.cons.inj ht).1
      rw [Bool.eq_false_iff]
      intro halone
      exact not_mem_of_alone halone hd hspace (by simp [hfront])
  · cases t with
    | nil => exact absurd (List.cons.inj ht).1.symm hline
    | cons x t =>
      obtain ⟨rfl, -⟩ := List.cons.inj ht
      exact h front (t ++ a) (by simp [hcs])

/-! ## Passing over a head -/

/-- Does the character mean nothing to the reader where it goes on behind it? -/
def isQuiet (c : Char) : Bool := isNeutral c || Text.isSpace c

/-- Quiet characters only end what is waiting. -/
theorem Scan.over?_quiet (ha : ∀ c ∈ a, isQuiet c = true) (hne : a ≠ [])
    (h : Scan.over? s (a ++ cs) = some r) : Scan.over? s.calm cs = some r := by
  induction a generalizing s with
  | nil => exact absurd rfl hne
  | cons c a ih =>
    rw [List.forall_mem_cons] at ha
    rw [List.cons_append, over?_cons] at h
    obtain ⟨t, ht, h⟩ := Option.bind_eq_some_iff.1 h
    -- a neutral character and white space end what is waiting
    obtain rfl : t = s.calm := by
      rcases Bool.or_eq_true_iff.1 ha.1 with hc | hc
      · rw [after?_neutral hc] at ht
        exact (Option.some.inj ht).symm
      · exact after?_space hc ht
    -- behind the last of them nothing else is waiting
    cases a with
    | nil => exact h
    | cons d a =>
      have hrest := ih ha.2 (List.cons_ne_nil d a) h
      rwa [calm_calm] at hrest

/-- Quiet characters between two parts of a text may become neutral ones. -/
theorem Passed.join {m m' ds : List Char} (h : Passed a b) (hm : ∀ c ∈ m, isQuiet c = true)
    (hne : m ≠ []) (hm' : ∀ c ∈ m', isNeutral c = true) (hne' : m' ≠ [])
    (h' : Passed (' ' :: cs) (' ' :: ds)) : Passed (a ++ (m ++ cs)) (b ++ (m' ++ ds)) := by
  have hneutral : isNeutral ' ' = true := by decide
  intro s r hs
  rw [Scan.over?_append] at hs
  obtain ⟨t, ht, hs⟩ := Option.bind_eq_some_iff.1 hs
  obtain ⟨u, hu, hcalm⟩ := h s t ht
  -- what is quiet ends what is waiting behind the first text
  have hrest := Scan.over?_quiet hm hne hs
  obtain ⟨r', hr', hcalm'⟩ := h' t r (by rwa [Scan.over?_neutral hneutral])
  rw [Scan.over?_neutral hneutral] at hr'
  refine ⟨r', ?_, hcalm'⟩
  rw [Scan.over?_append, hu]
  show Scan.over? u (m' ++ ds) = some r'
  -- so does what is neutral in the other one
  rw [Scan.over?_neutrals hm' hne', hcalm]
  exact hr'

/-- So do quiet characters at the end, if there are any. -/
theorem Passed.end {m m' : List Char} (h : Passed a b) (hm : ∀ c ∈ m, isQuiet c = true)
    (hne : m ≠ []) (hm' : ∀ c ∈ m', isNeutral c = true) (hne' : m' ≠ []) :
    Passed (a ++ m) (b ++ m') := by
  have hall := h.join hm hne hm' hne' (.refl [' '])
  rwa [List.append_nil, List.append_nil] at hall

/-- A statement begins with what is printed of its head if the reader passes over it in the same way. -/
theorem Begins.of_passed (h : Begins a r)
    (hpassed : ∃ r', Scan.over? {} b = some r' ∧ r'.calm = r.calm) (hopens : Opens b)
    (hunstopped : Unstopped [] b) : ∃ r', Begins b r' ∧ r'.depth = r.depth := by
  obtain ⟨r', hover, hcalm⟩ := hpassed
  have hdepth := congrArg Scan.depth hcalm
  have hplain := congrArg Scan.isPlain hcalm
  rw [Scan.depth_calm, Scan.depth_calm] at hdepth
  rw [Scan.isPlain_calm, Scan.isPlain_calm, h.plain] at hplain
  exact ⟨r', ⟨hopens, hover, hplain, hunstopped⟩, hdepth⟩

/-- A neutral character is quiet. -/
theorem isQuiet_of_isNeutral (h : isNeutral c = true) : isQuiet c = true := by
  simp [isQuiet, h]

/-- White space is quiet, the line feed included. -/
theorem isQuiet_of_isSpace (h : Text.isSpace c = true) : isQuiet c = true := by
  simp [isQuiet, h]

/-- Neutral characters have a neutral lower case. -/
theorem isNeutral_lowerChars (h : ∀ c ∈ cs, isNeutral c = true) :
    ∀ c ∈ Text.lowerChars cs, isNeutral c = true := by
  have hcodes : ∀ c ∈ marks, ¬(97 ≤ c.toNat ∧ (c.toNat ≤ 122 ∨ 128 ≤ c.toNat)) :=
    Text.forall_mem_of_all (by decide)
  intro c hc
  rw [isNeutral_iff]
  intro hmem
  rcases (Text.mem_lowerFrom hc).2 with hsame | hcode
  · exact isNeutral_iff.1 (h c hsame) hmem
  · exact hcodes c hmem hcode

/-! ## Marks of importance -/

/-- The text is the word, with white space around it. -/
def IsWord (word cs : List Char) : Prop := ∃ front back,
  (∀ x ∈ front, Text.isSpace x = true) ∧ (∀ x ∈ back, Text.isSpace x = true) ∧
    cs = front ++ (word ++ back)

/-- The text ends with an exclamation mark and the word. -/
def IsMarked (word cs : List Char) : Prop := ∃ front back, cs = front ++ '!' :: back ∧ IsWord word back

/-- A word between white space is found again in a respacing. -/
theorem Respacing.isWord {word : List Char} (h : Respacing a b) (hword : ∀ c ∈ word, isLoose c = false)
    (hne : word ≠ []) (hb : IsWord word b) : IsWord word a := by
  obtain ⟨front, back, hfront, hback, rfl⟩ := hb
  have hloose : ∀ x, Text.isSpace x = true → isLoose x = true := fun _ => isLoose_of_isSpace
  -- the word is the first one of the text, and there is nothing else in it
  have hfirst : firstWord (front ++ (word ++ back)) = word := by
    obtain ⟨c, word, rfl⟩ := List.exists_cons_of_ne_nil hne
    have hstart : leading (c :: word ++ back) = c :: word := by
      rw [leading, List.takeWhile_append_of_pos fun d hd => by simp [hword d hd]]
      cases back with
      | nil => simp
      | cons x back => simp [hloose x (hback x List.mem_cons_self)]
    rw [firstWord, List.dropWhile_append_of_pos fun x hx => hloose x (hfront x hx),
      List.cons_append, List.dropWhile_cons_of_neg (by simp [hword c List.mem_cons_self])]
    exact hstart
  -- a word has no white space
  have hall : Text.solid word = word := by
    refine List.filter_eq_self.2 fun c hc => ?_
    have hc := hword c hc
    simp only [isLoose, Bool.or_eq_false_iff] at hc
    simp [hc.1.1]
  -- around the word there is white space, so the solid characters are those of the word
  have hsolid := h.solid
  rw [Text.solid_append, Text.solid_append, Text.solid_eq_nil.2 hfront, Text.solid_eq_nil.2 hback,
    hall] at hsolid
  -- the word is the first word of either text
  have hsplit : a = a.takeWhile isLoose ++
      (word ++ (a.dropWhile isLoose).dropWhile fun c => !isLoose c) := by
    rw [← hfirst, ← h.words.2, firstWord, leading, List.takeWhile_append_dropWhile,
      List.takeWhile_append_dropWhile]
  refine ⟨_, _, Text.solid_eq_nil.1 ?_, Text.solid_eq_nil.1 ?_, hsplit⟩
  -- nothing solid is left for what stands around it
  all_goals
    rw [hsplit, Text.solid_append, Text.solid_append, hall] at hsolid
    have hlength := congrArg List.length hsolid
    simp only [List.length_append, List.nil_append, List.append_nil] at hlength
    exact List.length_eq_zero_iff.1 (by omega)

/-- The mark and its word do not reach over a character that white space may be put next to. -/
theorem IsMarked.tail {word : List Char} (hd : isLoose d = true) (h : IsMarked word (d :: cs)) :
    IsMarked word cs := by
  obtain ⟨front, back, hsplit, hback⟩ := h
  cases front with
  | nil =>
    obtain ⟨rfl, -⟩ := List.cons.inj hsplit
    cases hd
  | cons y front => exact ⟨front, back, (List.cons.inj hsplit).2, hback⟩

/-- Characters may stand in front of the mark. -/
theorem IsMarked.cons {word : List Char} (c : Char) (h : IsMarked word cs) :
    IsMarked word (c :: cs) := by
  obtain ⟨front, back, rfl, hback⟩ := h
  exact ⟨c :: front, back, rfl, hback⟩

/-- White space may stand behind it. -/
theorem IsMarked.append {word : List Char} (hb : ∀ x ∈ b, Text.isSpace x = true)
    (h : IsMarked word a) : IsMarked word (a ++ b) := by
  obtain ⟨front, back, rfl, front', back', hfront', hback', rfl⟩ := h
  exact ⟨front, front' ++ (word ++ (back' ++ b)), by simp, front', back' ++ b, hfront',
    List.forall_mem_append.2 ⟨hback', hb⟩, rfl⟩

/-- The printer marks nothing as important. -/
theorem Respacing.isMarked {word : List Char} (h : Respacing a b)
    (hword : ∀ c ∈ word, isLoose c = false) (hne : word ≠ []) (hb : IsMarked word b) :
    IsMarked word a := by
  -- the exclamation mark is not one of the characters that white space is put next to
  have hspace : isLoose ' ' = true := rfl
  induction h with
  | refl a => exact hb
  | trans _ _ ih ih' => exact ih (ih' hb)
  | cons x h ih =>
    obtain ⟨front, back, hsplit, hback⟩ := hb
    cases front with
    | nil =>
      obtain ⟨rfl, rfl⟩ := List.cons.inj hsplit
      exact ⟨[], _, rfl, h.isWord hword hne hback⟩
    | cons y front =>
      obtain ⟨rfl, rfl⟩ := List.cons.inj hsplit
      exact (ih ⟨front, back, rfl, hback⟩).cons x
  | @change x hx cs => exact (hb.tail hspace).cons x
  | @dropEnd x hx => exact hb.cons x
  | @dropBefore x d hx hd cs => exact hb.cons x
  | @dropBehind x d hd hx cs => exact ((hb.tail hd).cons x).cons d
  | putBefore hd cs => exact hb.tail hspace
  | @putBehind d hd cs => exact ((hb.tail hd).tail hspace).cons d

/-- The characters of an important word. -/
theorem not_isLoose_of_isImportant {word : List Char} (h : isImportant word = true) :
    ∀ c ∈ word, isLoose c = false ∧ isNeutral c = true ∧ c ≠ '!' := by
  have hletters : ∀ c ∈ "important".toList.flatMap fun letter => [letter, letter.toUpper, 'İ', 'ı'],
      isLoose c = false ∧ isNeutral c = true ∧ c ≠ '!' := Text.forall_mem_of_all (by decide)
  intro c hc
  obtain ⟨letter, hletter, hc⟩ := isLetterOf_of_mem h hc
  refine hletters c (List.mem_flatMap.2 ⟨letter, hletter, ?_⟩)
  simp only [isLetterOf, Bool.or_eq_true, Bool.and_eq_true, beq_iff_eq] at hc
  rcases hc with (rfl | rfl) | ⟨-, rfl | rfl⟩ <;> simp

/-- A value is marked as important by an exclamation mark and the word behind it. -/
theorem splitImportant_marked {word : List Char} (hspace : ∀ x ∈ b, Text.isSpace x = true)
    (hword : isImportant word = true) :
    splitImportant (a ++ '!' :: (b ++ word)) = (Text.dropEndWhile Text.isSpace a, true) := by
  -- behind the mark there are white space and the letters, and no other mark
  have hmark : ∀ c ∈ (b ++ word).reverse, (c != '!') = true := by
    intro c hc
    rw [List.mem_reverse, List.mem_append] at hc
    rw [bne_iff_ne]
    rcases hc with hc | hc
    · rintro rfl
      exact absurd (hspace _ hc) (by decide)
    · exact (not_isLoose_of_isImportant hword c hc).2.2
  have hreverse : (a ++ '!' :: (b ++ word)).reverse = (b ++ word).reverse ++ '!' :: a.reverse := by
    simp
  -- the text is cut at the last mark
  have htake : (a ++ '!' :: (b ++ word)).reverse.takeWhile (· != '!') = (b ++ word).reverse := by
    rw [hreverse, List.takeWhile_append_of_pos hmark]
    simp
  have hdrop : (a ++ '!' :: (b ++ word)).reverse.drop ((b ++ word).reverse.length + 1) =
      a.reverse := by
    rw [hreverse, ← List.drop_drop, List.drop_left]
    rfl
  have hmem : (a ++ '!' :: (b ++ word)).contains '!' = true := by simp
  -- the white space behind the mark is dropped
  have hhead : (b ++ word).dropWhile Text.isSpace = word := by
    rw [List.dropWhile_append_of_pos hspace]
    cases word with
    | nil => rfl
    | cons c word =>
      have hc := (not_isLoose_of_isImportant hword c List.mem_cons_self).1
      simp only [isLoose, Bool.or_eq_false_iff] at hc
      exact List.dropWhile_cons_of_neg (by simp [hc.1.1])
  simp only [splitImportant, htake, hdrop, hmem, Bool.true_and, List.reverse_reverse, hhead, hword,
    if_true]
  rfl

/-- A value that has the mark of importance, cut in front of it. -/
theorem splitImportant_true {value before : List Char} (h : splitImportant value = (before, true)) :
    ∃ space space' word, value = before ++ (space ++ '!' :: (space' ++ word)) ∧
      (∀ x ∈ space, Text.isSpace x = true) ∧ (∀ x ∈ space', Text.isSpace x = true) ∧
        isImportant word = true := by
  simp only [splitImportant] at h
  split at h
  · rename_i himportant
    rw [Bool.and_eq_true, List.contains_eq_mem, decide_eq_true_eq] at himportant
    obtain ⟨hmark, hword⟩ := himportant
    obtain ⟨rfl, -⟩ := Prod.mk.inj h
    -- the last mark is where the text is cut
    have hvalue := congrArg List.reverse (eq_takeWhile_append (List.mem_reverse.2 hmark))
    generalize value.reverse.takeWhile (· != '!') = word at hvalue hword ⊢
    generalize value.reverse.drop (word.length + 1) = before at hvalue ⊢
    refine ⟨(before.takeWhile Text.isSpace).reverse, word.reverse.takeWhile Text.isSpace, _, ?_,
      fun x hx => List.mem_takeWhile_imp (List.mem_reverse.1 hx),
      fun x hx => List.mem_takeWhile_imp hx, hword⟩
    -- white space is taken from the word in front, and from the value behind
    rw [List.takeWhile_append_dropWhile, ← List.append_assoc, ← List.reverse_append,
      List.takeWhile_append_dropWhile]
    simpa using hvalue
  · cases h

/-- A value that is not important is kept as it is. -/
theorem splitImportant_false {value before : List Char} (h : splitImportant value = (before, false)) :
    before = value := by
  simp only [splitImportant] at h
  split at h <;> cases h
  rfl

/-- White space at the end of a text is all that stands behind its last other character. -/
theorem eq_nil_of_last {space : List Char} (hspace : ∀ x ∈ space, Text.isSpace x = true)
    (h : ∀ c ∈ (a ++ space).getLast?, Text.isSpace c = false) : space = [] := by
  by_contra hne
  have hlast := h (space.getLast hne) (by
    rw [Option.mem_def, List.getLast?_append_of_ne_nil _ hne, List.getLast?_eq_some_getLast hne])
  rw [hspace _ (List.getLast_mem hne)] at hlast
  cases hlast

/-- A value that ends with the mark of importance is cut in front of it. -/
theorem splitImportant_of_isMarked {value word : List Char} (hword : isImportant word = true)
    (hlast : ∀ c ∈ value.getLast?, Text.isSpace c = false) (h : IsMarked word value) :
    (splitImportant value).2 = true := by
  obtain ⟨front, back, rfl, front', back', hfront', hback', rfl⟩ := h
  have hend : front ++ '!' :: (front' ++ (word ++ back')) =
      front ++ '!' :: (front' ++ word) ++ back' := by
    simp
  rw [hend] at hlast ⊢
  rw [eq_nil_of_last hback' hlast, List.append_nil, splitImportant_marked hfront' hword]

/-! ## Lower case -/

/-- Does the character stand for itself only in lower case? -/
def isCaseless (c : Char) : Bool := c.toNat < 97 || (122 < c.toNat && c.toNat < 128)

/-- What is no letter in a text in lower case was there before. -/
theorem lowerFrom_caseless {before : List Char} (hd : isCaseless d = true)
    (h : Text.lowerFrom before cs = d :: a) :
    ∃ b, cs = d :: b ∧ a = Text.lowerFrom (d :: before) b := by
  cases cs with
  | nil => cases h
  | cons c cs =>
    obtain ⟨ds, hds, heq⟩ := Text.lowerFrom_cons before c cs
    rw [heq] at h
    obtain ⟨e, ds, rfl⟩ := List.exists_cons_of_ne_nil hds.ne_nil
    obtain ⟨rfl, -⟩ := List.cons.inj h
    -- in lower case the first character is its own, or one that comes of another
    have hsame : e = c := by
      refine (hds.same e List.mem_cons_self).resolve_right fun hcode => ?_
      simp only [isCaseless, Bool.or_eq_true, Bool.and_eq_true, decide_eq_true_eq] at hd
      omega
    subst hsame
    -- it stands there whatever follows, unless lower case looks at what follows
    have hfinal := hds.final e List.mem_cons_self
    have hone := Text.lowerFrom_append (a := [e]) (by simpa using hfinal) before cs
    rw [List.singleton_append] at hone
    rw [← heq, hone] at h
    exact ⟨cs, rfl, (List.cons.inj h).2.symm⟩

/-- A character that lower case does not make stood in the text before. -/
theorem mem_lowerChars_caseless (hd : isCaseless d = true) (h : d ∈ Text.lowerChars cs) : d ∈ cs := by
  refine (Text.mem_lowerFrom h).2.resolve_right fun hcode => ?_
  simp only [isCaseless, Bool.or_eq_true, Bool.and_eq_true, decide_eq_true_eq] at hd
  omega

/-- Lower case puts no white space at the end. -/
theorem getLast?_lowerFrom (before : List Char) (h : ∀ c ∈ cs.getLast?, Text.isSpace c = false) :
    ∀ d ∈ (Text.lowerFrom before cs).getLast?, Text.isSpace d = false := by
  induction cs generalizing before with
  | nil => nofun
  | cons c cs ih =>
    obtain ⟨ds, hds, heq⟩ := Text.lowerFrom_cons before c cs
    rw [heq]
    intro d hd
    rw [Option.mem_def, List.getLast?_append] at hd
    -- the last character decides, or what follows the first one
    cases cs with
    | nil =>
      have hd : d ∈ ds := List.mem_of_getLast? (by simpa [Text.lowerFrom] using hd)
      rcases hds.solid d hd with rfl | hsolid
      · exact h d rfl
      · exact hsolid
    | cons e cs =>
      refine ih (c :: before) (by simpa using h) d ?_
      -- lower case of the rest is not empty
      obtain ⟨es, hes, heq'⟩ := Text.lowerFrom_cons (c :: before) e cs
      have hne : Text.lowerFrom (c :: before) (e :: cs) ≠ [] := by
        rw [heq']
        exact List.append_ne_nil_of_left_ne_nil hes.ne_nil _
      rw [List.getLast?_eq_some_getLast hne] at hd ⊢
      simpa using hd

/-- Lower case puts no white space at the start. -/
theorem head?_lowerFrom (before : List Char) (h : ∀ c ∈ cs.head?, Text.isSpace c = false) :
    ∀ d ∈ (Text.lowerFrom before cs).head?, Text.isSpace d = false := by
  cases cs with
  | nil => nofun
  | cons c cs =>
    obtain ⟨ds, hds, heq⟩ := Text.lowerFrom_cons before c cs
    obtain ⟨e, ds, rfl⟩ := List.exists_cons_of_ne_nil hds.ne_nil
    rw [heq]
    rintro d ⟨⟩
    rcases hds.solid e List.mem_cons_self with rfl | hsolid
    · exact h e rfl
    · exact hsolid

/-- A tight text is tight in lower case. -/
theorem tight_lowerChars (h : Text.Tight cs) : Text.Tight (Text.lowerChars cs) :=
  ⟨head?_lowerFrom [] h.head, getLast?_lowerFrom [] h.last⟩

/-- Only the empty text is empty in lower case. -/
theorem lowerChars_eq_nil : Text.lowerChars cs = [] ↔ cs = [] := by
  constructor
  · intro h
    cases cs with
    | nil => rfl
    | cons c cs =>
      obtain ⟨ds, hds, heq⟩ := Text.lowerFrom_cons [] c cs
      rw [Text.lowerChars, heq] at h
      exact absurd (List.append_eq_nil_iff.1 h).1 hds.ne_nil
  · rintro rfl
    rfl

/-- Behind the start of a statement other texts may stand, but for the second character of a comment. -/
theorem Opens.front {rest rest' : List Char} (h : Opens (cs ++ rest)) (hne : cs ≠ [])
    (hd : some d ∉ [some '*', some '/']) : Opens (cs ++ d :: rest') := by
  obtain ⟨c, cs, rfl⟩ := List.exists_cons_of_ne_nil hne
  obtain ⟨hspace, hend, hcomment⟩ := h
  refine .intro hspace hend fun hc => ?_
  cases cs with
  | nil => exact hd
  | cons e cs => exact hcomment hc

/-- A statement begins with a name in lower case when one begins with the name, and what follows
opens no comment. -/
theorem Opens.lowerChars {rest rest' : List Char} (h : Opens (cs ++ rest)) (hne : cs ≠ [])
    (hd : some d ∉ [some '*', some '/']) : Opens (Text.lowerChars cs ++ d :: rest') := by
  have hcaseless : ∀ e ∈ ['}', ';', '/', '*'], isCaseless e = true :=
    Text.forall_mem_of_all (by decide)
  -- lower case of a name is not empty
  cases hlower : Text.lowerChars cs with
  | nil => exact absurd (lowerChars_eq_nil.1 hlower) hne
  | cons e es =>
    obtain ⟨c, cs, rfl⟩ := List.exists_cons_of_ne_nil hne
    obtain ⟨hspace, hend, hcomment⟩ := h
    refine .intro ?_ (fun he => ?_) ?_
    · -- it starts with no white space, for the name does not
      have hhead : ∀ x ∈ (c :: cs).head?, Text.isSpace x = false := by
        rintro x ⟨⟩
        exact hspace
      exact head?_lowerFrom [] hhead e (by rw [← Text.lowerChars, hlower]; rfl)
    · -- what ends a statement is its own lower case only
      have he' : e ∈ ['}', ';', '/', '*'] := List.mem_of_mem_take (i := 2) he
      obtain ⟨b, hb, -⟩ := lowerFrom_caseless (hcaseless e he') hlower
      exact hend ((List.cons.inj hb).1 ▸ he)
    · -- so is a slash, and the star or slash behind it
      rintro rfl hmem
      obtain ⟨b, hb, rfl⟩ := lowerFrom_caseless (hcaseless '/' (by decide)) hlower
      obtain ⟨rfl, rfl⟩ := List.cons.inj hb
      cases hnext : Text.lowerFrom ['/'] cs with
      | nil =>
        rw [hnext] at hmem
        exact hd hmem
      | cons x xs =>
        rw [hnext] at hmem
        change some x ∈ [some '*', some '/'] at hmem
        have hx : x ∈ ['}', ';', '/', '*'] := by
          simp only [List.mem_cons, Option.some.injEq, List.not_mem_nil, or_false] at hmem
          rcases hmem with rfl | rfl <;> decide
        obtain ⟨b, rfl, -⟩ := lowerFrom_caseless (hcaseless x hx) hnext
        exact hcomment rfl hmem

end Reflow.Stylesheet
