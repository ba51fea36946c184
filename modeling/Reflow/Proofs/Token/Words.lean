import Reflow.Proofs.Text.Ranges
import Reflow.Proofs.Text.Solid
import Reflow.Proofs.Token.Rescan

/-!
# Texts of separated words

A text can be written as a list of words with spaces between them: names and punctuators, each of
which ends before the character that follows it.  The scanner reads such a text as these words, and
then the end of the input.

## Key results

- `Word.isSpelled`, `spelled`: when a word is one that the scanner knows, and when it ends
- `nextScript_word`: the scanner takes one word
- `yields_of_spelled`: the scanner takes all words of a spelled text
-/

namespace Reflow

/-- The kind and the text of a token. -/
structure Word where
  kind : TokenKind
  text : String
  deriving Repr, DecidableEq

/-- The kind and the text of a token, without its place. -/
def Token.word (token : Token) : Word := ⟨token.kind, token.text⟩

/-- A name or a keyword. -/
def Word.name (text : String) : Word := ⟨.name, text⟩

/-- A punctuator. -/
def Word.mark (text : String) : Word := ⟨.punctuator, text⟩

/-- The end of the input. -/
def Word.eof : Word := ⟨.endOfInput, ""⟩

/-- A piece of a text: a word or a space. -/
inductive Item where
  | word (w : Word)
  | space
  deriving Repr, DecidableEq

/-- The characters of a piece. -/
def Item.chars : Item → List Char
  | .word w => w.text.toList
  | .space => [' ']

/-- The characters of a text. -/
def charsOf (items : List Item) : List Char := items.flatMap Item.chars

/-- The word that a piece is. -/
def Item.word? : Item → Option Word
  | .word w => some w
  | .space => none

/-- The words of a text. -/
def wordsOf (items : List Item) : List Word := items.filterMap Item.word?

section Lists

variable (items others : List Item) (w : Word)

@[simp] theorem charsOf_nil : charsOf [] = [] := rfl

@[simp] theorem charsOf_word : charsOf (.word w :: items) = w.text.toList ++ charsOf items := rfl

@[simp] theorem charsOf_space : charsOf (.space :: items) = ' ' :: charsOf items := rfl

@[simp] theorem charsOf_append : charsOf (items ++ others) = charsOf items ++ charsOf others :=
  List.flatMap_append

@[simp] theorem wordsOf_nil : wordsOf [] = [] := rfl

@[simp] theorem wordsOf_word : wordsOf (.word w :: items) = w :: wordsOf items := rfl

@[simp] theorem wordsOf_space : wordsOf (.space :: items) = wordsOf items := rfl

@[simp] theorem wordsOf_append : wordsOf (items ++ others) = wordsOf items ++ wordsOf others :=
  List.filterMap_append ..

end Lists

/-! ## When a word ends -/

/-- Is the text a name, as far as its characters go? -/
def isNameText : List Char → Bool
  | [] => false
  | c :: rest => isNameStart c && rest.all isNamePart

/-- Is the word one that the scanner knows? -/
def Word.isSpelled (w : Word) : Bool :=
  match w.kind with
  | .name => isNameText w.text.toList
  | .punctuator => punctuators.contains w.text
  | _ => false

/-- Is there a longer punctuator with the character behind the text? -/
def isExtended (text : String) (c : Char) : Bool :=
  punctuators.any fun p => Text.startsWith p.toList (text.toList ++ [c])

/-- Does a punctuator end before a character? -/
def endsPunctuator (text : String) (c : Char) : Bool :=
  !isExtended text c && !(text == "/" && (c == '/' || c == '*'))
    && !((text == "." || text == "?.") && Text.isDigit c)

/-- Does the word end before the character? -/
def Word.endsBefore (w : Word) (c : Char) : Bool :=
  match w.kind with
  | .name => !isNamePart c
  | .punctuator => endsPunctuator w.text c
  | _ => true

/-- Is the text made of words that the scanner knows, and does each end where the next piece starts? -/
def spelled : List Item → Bool
  | [] => true
  | .space :: rest => spelled rest
  | .word w :: rest => w.isSpelled && (charsOf rest).head?.all w.endsBefore && spelled rest

/-- The words of a spelled text are words that the scanner knows. -/
theorem isSpelled_of_mem {items : List Item} (h : spelled items = true) :
    ∀ w ∈ wordsOf items, w.isSpelled = true := by
  induction items with
  | nil => exact List.forall_mem_nil _
  | cons item items ih =>
    cases item with
    | space => exact ih h
    | word w =>
      simp only [spelled, Bool.and_eq_true] at h
      exact List.forall_mem_cons.2 ⟨h.1.1, ih h.2⟩

/-- No word of a spelled text is the end of the input. -/
theorem kind_ne_of_spelled {items : List Item} (h : spelled items = true) :
    ∀ w ∈ wordsOf items, w.kind ≠ .endOfInput := fun w hw heof => by
  have hspelled := isSpelled_of_mem h w hw
  rw [Word.isSpelled, heof] at hspelled
  cases hspelled

/-- A word that the scanner knows has characters. -/
theorem Word.text_ne_nil {w : Word} (h : w.isSpelled = true) : w.text.toList ≠ [] := by
  have hall : ∀ p ∈ punctuators, p.toList ≠ [] := by decide
  obtain ⟨kind, text⟩ := w
  cases kind with
  | name =>
    intro hnil
    have hname : isNameText text.toList = true := h
    rw [show text.toList = [] from hnil] at hname
    cases hname
  | punctuator => exact hall text (List.contains_iff_mem.1 h)
  | _ => cases h

/-- A spelled text has as many characters as words at least. -/
theorem length_wordsOf_le {items : List Item} (h : spelled items = true) :
    (wordsOf items).length ≤ (charsOf items).length := by
  -- induction on the items, of which a word has a character at least
  induction items with
  | nil => exact Nat.le_refl _
  | cons item items ih =>
    cases item with
    | space => exact Nat.le_succ_of_le (ih h)
    | word w =>
      simp only [spelled, Bool.and_eq_true] at h
      have hword := List.length_pos_iff.2 (w.text_ne_nil h.1.1)
      have hmore := ih h.2
      rw [wordsOf_word, charsOf_word, List.length_cons, List.length_append]
      omega

/-- The scanner reads the words, one after the other. -/
def Yields (s : Scanner) : List Word → Prop
  | [] => True
  | w :: ws => ∃ token s', Scan.nextScript s = (.ok token, s') ∧ token.word = w ∧ Yields s' ws

/-! ## Characters -/

/-- A character that starts a name. -/
theorem not_isDigit_of_isNameStart {c : Char} (h : isNameStart c = true) :
    Text.isDigit c = false := by
  have happart : Text.Ranges.apart Text.Tables.letter Text.Tables.digit = true := by decide +kernel
  simp only [isNameStart, Bool.or_eq_true, beq_iff_eq] at h
  rcases h with (h | rfl) | rfl
  · exact Text.Ranges.not_contains_of_apart happart h
  · decide
  · decide

/-- A character that starts a name is no white space. -/
theorem not_isTokenSpace_of_isNameStart {c : Char} (h : isNameStart c = true) :
    isTokenSpace c = false := by
  have hspaces : ∀ d ∈ [' ', '\t', '\n', '\r', '\x0b', '\x0c', '\u00a0', '\ufeff', '\u2028',
      '\u2029'], isNameStart d = false :=
    Text.forall_mem_of_all (by decide +kernel)
  rw [isTokenSpace, Bool.eq_false_iff]
  intro hc
  rw [hspaces c (by simpa using hc)] at h
  cases h

/-- Where a word starts there is no white space and no comment. -/
theorem triviaOf_eq_nil {c : Char} {cs : List Char} (hspace : isTokenSpace c = false)
    (hcomment : c = '/' → ∀ d ∈ cs.head?, d ≠ '/' ∧ d ≠ '*') : triviaOf (c :: cs) = [] := by
  rw [triviaOf.eq_def]
  simp only [hspace, Bool.false_eq_true, if_false]
  split
  · rename_i hc
    split
    · exact absurd rfl (hcomment hc '/' rfl).1
    · exact absurd rfl (hcomment hc '*' rfl).2
    · rfl
  · rfl

/-- The characters that can make a punctuator longer. -/
def lengthening : List Char := ['=', '.', '*', '<', '>', '&', '|', '?', '+', '-']

/-- A character that makes a punctuator longer is one of those that may. -/
theorem mem_lengthening {text : String} {c : Char} (htext : text.toList ≠ [])
    (h : isExtended text c = true) : c ∈ lengthening := by
  have hall : ∀ p ∈ punctuators, (p.toList.drop 1).all lengthening.contains = true := by
    decide
  obtain ⟨p, hp, hstart⟩ := List.any_eq_true.1 h
  obtain ⟨rest, hlong⟩ := Text.startsWith_iff.1 hstart
  refine List.contains_iff_mem.1 (List.all_eq_true.1 (hall p hp) c ?_)
  cases htext' : text.toList with
  | nil => exact absurd htext' htext
  | cons d ds => simp [← hlong, htext']

/-- A punctuator ends where a character follows that lengthens none. -/
theorem endsPunctuator_of_not_mem {text : String} {c : Char} (htext : text.toList ≠ [])
    (hc : c ∉ lengthening) (hslash : c ≠ '/') (hdigit : Text.isDigit c = false) :
    endsPunctuator text c = true := by
  have hextended : isExtended text c = false :=
    Bool.eq_false_iff.2 fun h => hc (mem_lengthening htext h)
  have hstar : c ≠ '*' := fun h => hc (h ▸ by decide)
  simp [endsPunctuator, hextended, hslash, hstar, hdigit]

/-! ## Reading a word -/

namespace Scan

variable {s : Scanner}

/-- Taking a text takes its characters. -/
theorem take_text {kind : TokenKind} {text : String} {cs : List Char}
    (hrest : s.rest = text.toList ++ cs) :
    ∃ token s', take kind text.length false s = (.ok token, s') ∧
      token.word = ⟨kind, text⟩ ∧ s'.rest = cs := by
  rw [← String.length_toList]
  refine ⟨_, s.advance text.toList.length, rfl, ?_, ?_⟩
  · show Word.mk kind (String.ofList (s.rest.take text.toList.length)) = _
    rw [hrest, List.take_left, String.ofList_toList]
  · rw [Scanner.rest_advance, hrest, List.drop_left]

/-- The scanner takes a name. -/
theorem nextScript_name {text : String} {cs : List Char} (hrest : s.rest = text.toList ++ cs)
    (htext : isNameText text.toList = true) (hcs : ∀ c ∈ cs.head?, isNamePart c = false) :
    nextScript s = take .name text.length false s := by
  rw [← String.length_toList]
  -- the text is not empty, and starts a name
  cases hchars : text.toList with
  | nil => simp [hchars, isNameText] at htext
  | cons c rest =>
    rw [hchars, isNameText, Bool.and_eq_true] at htext
    obtain ⟨hstart, hpart⟩ := htext
    rw [hchars, List.cons_append] at hrest
    -- no comment starts here, and the text does not end
    have hslash : c ≠ '/' := fun h => by
      have hnot : isNameStart '/' = false := by decide
      rw [h, hnot] at hstart
      cases hstart
    have hzero : c.toNat ≠ 0 := fun h => by
      have hnot : isNameStart (Char.ofNat 0) = false := by decide
      rw [← h, Char.ofNat_toNat, hstart] at hnot
      cases hnot
    have htrivia : triviaOf s.rest = [] := by
      rw [hrest]
      exact triviaOf_eq_nil (not_isTokenSpace_of_isNameStart hstart) fun h => absurd h hslash
    -- the name is the text, because what follows is no part of a name
    have hword : (c :: (rest ++ cs)).takeWhile isNamePart = c :: rest := by
      have hfirst : isNamePart c = true := by
        simp only [isNameStart, isNamePart, Text.isLetter, Text.isAlphanumeric,
          Bool.or_eq_true] at hstart ⊢
        exact hstart.imp_left (·.imp_left .inl)
      rw [List.takeWhile_cons_of_pos hfirst,
        List.takeWhile_append_of_pos (List.all_eq_true.1 hpart)]
      cases cs with
      | nil => simp
      | cons d cs => simp [hcs d rfl]
    rw [nextScript_of_trivia htrivia, scriptToken, get_bind_apply, hrest]
    simp only [hzero, if_false, hstart, if_true, hword]

/-- The longest punctuator at the start of a text is the word that ends there. -/
theorem punctuator?_append {text : String} {cs : List Char} (htext : text ∈ punctuators)
    (hcs : ∀ c ∈ cs.head?, endsPunctuator text c = true) :
    punctuator? (text.toList ++ cs) = some text := by
  -- of the punctuators the longest is found first
  have hlongest : ∀ p ∈ punctuators,
      punctuators.find? (fun q => Text.startsWith p.toList q.toList) = some p := by decide
  -- only one punctuator asks for what follows
  have hoptional : ∀ p ∈ punctuators, Text.startsWith p.toList "?.".toList = true → p = "?." := by
    decide
  rw [← hlongest text htext, punctuator?, ← List.head?_filter, ← List.head?_filter]
  refine congrArg List.head? (List.filter_congr fun q hq => ?_)
  rw [Bool.eq_iff_iff, Bool.and_eq_true, Text.startsWith_iff, Text.startsWith_iff]
  constructor
  · -- a punctuator that is found starts with the text
    rintro ⟨hstarts, -⟩
    -- a longer one would be the word and the character behind it at least
    rcases Nat.le_total q.toList.length text.toList.length with hle | hle
    · exact List.prefix_of_prefix_length_le hstarts (List.prefix_append ..) hle
    · obtain ⟨more, hmore⟩ := List.prefix_of_prefix_length_le (List.prefix_append ..) hstarts hle
      cases more with
      | nil => simp [← hmore]
      | cons c more =>
        rw [← hmore, List.prefix_append_right_inj] at hstarts
        obtain ⟨after, rfl⟩ := hstarts
        have hextended : isExtended text c = true :=
          List.any_eq_true.2 ⟨q, hq, Text.startsWith_iff.2 ⟨more, by simp [← hmore]⟩⟩
        have hends := hcs c rfl
        simp [endsPunctuator, hextended] at hends
  · -- the text itself is found, unless a digit follows the optional mark
    intro hstarts
    refine ⟨hstarts.trans (List.prefix_append ..), ?_⟩
    rw [Bool.not_eq_true', Bool.and_eq_false_imp]
    intro hq'
    have hq' : q = "?." := by simpa using hq'
    have htext' := hoptional text htext (Text.startsWith_iff.2 (hq' ▸ hstarts))
    rw [htext', show ("?.".toList ++ cs).drop 2 = cs from rfl]
    cases cs with
    | nil => rfl
    | cons c cs =>
      have hends := hcs c rfl
      simp [htext', endsPunctuator] at hends
      exact hends.2

/-- The first character of a punctuator starts nothing else. -/
theorem punctuator_first {p : String} (hp : p ∈ punctuators) {c : Char} (hc : c ∈ p.toList.head?) :
    isTokenSpace c = false ∧ c.toNat ≠ 0 ∧ isNameStart c = false ∧ Text.isDigit c = false ∧
      c ≠ '\'' ∧ c ≠ '"' ∧ c ≠ templateQuote ∧ c ≠ '#' := by
  have hall : ∀ p ∈ punctuators, p.toList.head?.all (fun c => decide (isTokenSpace c = false ∧
      c.toNat ≠ 0 ∧ isNameStart c = false ∧ Text.isDigit c = false ∧ c ≠ '\'' ∧ c ≠ '"' ∧
      c ≠ templateQuote ∧ c ≠ '#')) = true := by decide
  have hfirst := hall p hp
  rw [Option.mem_def.1 hc] at hfirst
  exact of_decide_eq_true hfirst

/-- The character behind the first one of a punctuator makes neither a comment nor a number of it. -/
theorem punctuator_second {text : String} {c d : Char} {rest cs : List Char}
    (htext : text ∈ punctuators) (hcs : ∀ c ∈ cs.head?, endsPunctuator text c = true)
    (hchars : text.toList = c :: rest) (hd : d ∈ (rest ++ cs).head?) :
    (c = '/' → d ≠ '/' ∧ d ≠ '*') ∧ (c = '.' → Text.isDigit d = false) := by
  -- the second character of a punctuator is no digit, and opens no comment
  have hinside : ∀ p ∈ punctuators, (p.toList.drop 1).head?.all (fun d => decide
      (Text.isDigit d = false ∧ d ≠ '/' ∧ (p.toList.head? = some '/' → d ≠ '*'))) = true := by
    decide
  -- the mark is one character long, and what follows it is in `cs`
  cases rest with
  | nil =>
    have htext' : text = String.ofList [c] := by rw [← hchars, String.ofList_toList]
    have hends := hcs d hd
    rw [htext'] at hends
    constructor <;> rintro rfl
    · have hends : isExtended "/" d = false ∧ ¬d = '/' ∧ ¬d = '*' := by
        simpa [endsPunctuator] using hends
      exact hends.2
    · have hends : isExtended "." d = false ∧ Text.isDigit d = false := by
        simpa [endsPunctuator] using hends
      exact hends.2
  -- the second character belongs to the mark
  | cons e rest =>
    cases hd
    have hsecond := hinside text htext
    rw [hchars] at hsecond
    obtain ⟨hdigit, hslash, hstar⟩ := of_decide_eq_true hsecond
    exact ⟨fun hc => ⟨hslash, hstar (by rw [hc]; rfl)⟩, fun _ => hdigit⟩

/-- The scanner takes a punctuator. -/
theorem nextScript_mark {text : String} {cs : List Char} (hrest : s.rest = text.toList ++ cs)
    (htext : text ∈ punctuators) (hcs : ∀ c ∈ cs.head?, endsPunctuator text c = true) :
    nextScript s = take .punctuator text.length false s := by
  have hnonempty : ∀ p ∈ punctuators, p.toList ≠ [] := by decide
  have hfound := punctuator?_append htext hcs
  cases hchars : text.toList with
  | nil => exact absurd hchars (hnonempty text htext)
  | cons c rest =>
    -- what the first character is not
    obtain ⟨hspace, hzero, hname, hdigit, hsingle, hdouble, hquote, hprivate⟩ :=
      punctuator_first htext (c := c) (by simp [hchars])
    have hsecond := fun d => punctuator_second (d := d) htext hcs hchars
    rw [hchars, List.cons_append] at hrest hfound
    -- nothing is skipped in front of the mark
    have htrivia : triviaOf s.rest = [] := by
      rw [hrest]
      exact triviaOf_eq_nil hspace fun hc d hd => (hsecond d hd).1 hc
    -- the mark is no point of a number
    have hfraction : (c = '.' && startsWithDigit (rest ++ cs)) = false := by
      rw [Bool.and_eq_false_imp, decide_eq_true_eq]
      intro hc
      cases hafter : rest ++ cs with
      | nil => rfl
      | cons d after => exact (hsecond d (by rw [hafter]; rfl)).2 hc
    rw [nextScript_of_trivia htrivia, scriptToken, get_bind_apply, hrest]
    simp [hzero, hname, hdigit, hfraction, hsingle, hdouble, hquote, hprivate, hfound]

/-- A space is passed over. -/
theorem nextScript_space {cs : List Char} (hrest : s.rest = ' ' :: cs) :
    nextScript s = nextScript (s.advance 1) := by
  have hnext : (s.advance 1).rest = cs := by
    rw [Scanner.rest_advance, hrest]
    rfl
  have htrivia : triviaOf s.rest = .space ' ' :: triviaOf (s.advance 1).rest := by
    rw [hrest, hnext, triviaOf.eq_def]
    rfl
  show (skipPieces false (triviaOf s.rest) >>= scriptToken) s =
    (skipPieces false (triviaOf (s.advance 1).rest) >>= scriptToken) (s.advance 1)
  rw [htrivia]
  rfl

/-- At the end there is the end. -/
theorem nextScript_eof (hrest : s.rest = []) : nextScript s = take .endOfInput 0 false s := by
  have htrivia : triviaOf s.rest = [] := by rw [hrest, triviaOf]
  rw [nextScript_of_trivia htrivia, scriptToken, get_bind_apply, hrest]

/-- The scanner takes a word that ends before what follows it. -/
theorem nextScript_word {w : Word} {cs : List Char} (hrest : s.rest = w.text.toList ++ cs)
    (hw : w.isSpelled = true) (hcs : cs.head?.all w.endsBefore = true) :
    ∃ token s', nextScript s = (.ok token, s') ∧ token.word = w ∧ s'.rest = cs := by
  obtain ⟨kind, text⟩ := w
  have hcs : ∀ c ∈ cs.head?, (Word.mk kind text).endsBefore c = true := by
    intro c hc
    rw [Option.mem_def.1 hc] at hcs
    exact hcs
  -- a name ends where no part of a name follows, a punctuator where none is extended
  cases kind with
  | name =>
    rw [nextScript_name hrest hw fun c hc => by simpa [Word.endsBefore] using hcs c hc]
    exact take_text hrest
  | punctuator =>
    rw [nextScript_mark hrest (by simpa [Word.isSpelled] using hw) hcs]
    exact take_text hrest
  | _ => simp [Word.isSpelled] at hw

end Scan

/-- The scanner takes all words of a spelled text, and then the end of the input. -/
theorem yields_of_spelled {items : List Item} {s : Scanner} (hitems : spelled items = true)
    (hrest : s.rest = charsOf items) : Yields s (wordsOf items ++ [Word.eof]) := by
  -- induction on the items
  induction items generalizing s with
  | nil => exact ⟨_, _, Scan.nextScript_eof hrest, rfl, trivial⟩
  | cons item items ih =>
    cases item with
    | space =>
      have hnext : (s.advance 1).rest = charsOf items := by
        rw [Scanner.rest_advance, hrest]
        rfl
      -- some word follows the space, be it the end
      obtain ⟨w, ws, hws⟩ := List.exists_cons_of_ne_nil (l := wordsOf items ++ [Word.eof]) (by simp)
      have hyields := ih hitems hnext
      rw [wordsOf_space]
      rw [hws] at hyields ⊢
      obtain ⟨token, s', htoken, hword, hmore⟩ := hyields
      exact ⟨token, s', (Scan.nextScript_space hrest).trans htoken, hword, hmore⟩
    | word w =>
      simp only [spelled, Bool.and_eq_true] at hitems
      obtain ⟨token, s', htoken, hword, hnext⟩ :=
        Scan.nextScript_word hrest hitems.1.1 hitems.1.2
      exact ⟨token, s', htoken, hword, ih hitems.2 hnext⟩

end Reflow
