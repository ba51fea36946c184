import Reflow.Proofs.Expression.Parens
import Reflow.Proofs.Grammar.Stands

/-!
# The words of readable expressions

A readable expression is written as words that the scanner knows, each of which ends where the next
piece starts: signs do not run into each other, and names are kept apart.

## Key results

- `Expression.Readable.spelled`: a readable expression is spelled
- `Expression.Readable.exists_lead`: what an expression starts with
-/

namespace Reflow

/-! ## Words that end everywhere -/

/-- The characters that may stand behind an expression. -/
def breaks : List Char := [' ', '.', '?', '[', '(', ')', ']', ',', ';']

/-- The punctuators that no character makes longer. -/
def brackets : List String := ["(", ")", "[", "]", ",", ";"]

/-- A bracket is never the start of a longer punctuator. -/
theorem endsPunctuator_bracket {text : String} (h : text ∈ brackets) (c : Char) :
    endsPunctuator text c = true := by
  -- no punctuator but the bracket itself starts with it
  have halone : ∀ text ∈ brackets, ∀ p ∈ punctuators,
      Text.startsWith p.toList text.toList = true → p = text := by decide
  have hother : ∀ text ∈ brackets, text ≠ "/" ∧ text ≠ "." ∧ text ≠ "?." := by decide
  have hextended : isExtended text c = false := by
    -- what extends the bracket would be a longer one
    rw [Bool.eq_false_iff]
    intro hc
    obtain ⟨p, hp, hstart⟩ := List.any_eq_true.1 hc
    have hstarts := Text.startsWith_iff.1 hstart
    have hp := halone text h p hp (Text.startsWith_iff.2 ((List.prefix_append ..).trans hstarts))
    have hlength := hstarts.length_le
    rw [hp, List.length_append, List.length_singleton] at hlength
    omega
  obtain ⟨hslash, hpoint, hoptional⟩ := hother text h
  simp [endsPunctuator, hextended, hslash, hpoint, hoptional]

section Spelled

variable {items rest : List Item}

@[simp] theorem spelled_space : spelled (.space :: rest) = spelled rest := rfl

/-- A word is told apart from what follows if it ends in front of the next character. -/
theorem spelled_word (w : Word) : spelled (.word w :: rest) =
    (w.isSpelled && (charsOf rest).head?.all w.endsBefore && spelled rest) := rfl

/-- A bracket may stand in front of anything. -/
theorem spelled_bracket {text : String} (h : text ∈ brackets) :
    spelled (.mark text :: rest) = spelled rest := by
  have hall : ∀ text ∈ brackets, (Word.mark text).isSpelled = true := by decide
  have hends : (charsOf rest).head?.all (Word.mark text).endsBefore = true := by
    cases (charsOf rest).head? with
    | none => rfl
    | some c => exact endsPunctuator_bracket h c
  rw [Item.mark, spelled_word, hall text h, hends]
  rfl

/-- A name may stand in front of everything that may stand behind an expression. -/
theorem spelled_name {text : String} (htext : isNameText text.toList = true)
    (hrest : (charsOf rest).head?.all breaks.contains = true) :
    spelled (.name text :: rest) = spelled rest := by
  -- what breaks a word is no part of a name
  have hall : ∀ c ∈ breaks, isNamePart c = false := Text.forall_mem_of_all (by decide)
  have hends : (charsOf rest).head?.all (Word.name text).endsBefore = true := by
    -- nothing follows the name, or a character that breaks it
    cases hhead : (charsOf rest).head? with
    | none => rfl
    | some c =>
      have hc : c ∈ breaks := by simpa [hhead] using hrest
      simp [Word.endsBefore, Word.name, hall c hc]
  have hspelled : (Word.name text).isSpelled = true := htext
  rw [Item.name, spelled_word, hspelled, hends]
  rfl

/-- Every word ends before a space. -/
theorem Word.endsBefore_space {w : Word} (hw : w.isSpelled = true) : w.endsBefore ' ' = true := by
  have hpart : isNamePart ' ' = false := by decide
  have hdigit : Text.isDigit ' ' = false := by decide
  have hnonempty : ∀ p ∈ punctuators, p.toList ≠ [] := by decide
  obtain ⟨kind, text⟩ := w
  cases kind with
  | name => simp [endsBefore, hpart]
  | punctuator =>
    have htext : text ∈ punctuators := by simpa [isSpelled] using hw
    exact endsPunctuator_of_not_mem (hnonempty text htext) (by decide) (by decide) hdigit
  | _ => rfl

/-- A word may stand in front of a space. -/
theorem spelled_word_space {w : Word} (hw : w.isSpelled = true) :
    spelled (.word w :: .space :: rest) = spelled rest := by
  rw [spelled_word, hw, charsOf_space, List.head?_cons, Option.all_some, w.endsBefore_space hw]
  rfl

/-- An operator with spaces around it may stand in front of anything. -/
theorem spelled_between {w : Word} (hw : w.isSpelled = true) :
    spelled (Item.between w ++ rest) = spelled rest :=
  spelled_word_space hw

end Spelled

/-! ## Names and operators -/

/-- An ordinary name is a name. -/
theorem OrdinaryName.isNameText (x : OrdinaryName) : Reflow.isNameText x.text.toList = true := by
  have h := x.ordinary
  rw [isOrdinary, Bool.and_eq_true, Bool.and_eq_true] at h
  exact h.1.1

/-- It has a first character, which starts a name. -/
theorem OrdinaryName.exists_chars (x : OrdinaryName) :
    ∃ c cs, x.text.toList = c :: cs ∧ isNameStart c = true := by
  have h := x.isNameText
  cases hchars : x.text.toList with
  | nil =>
    rw [hchars] at h
    cases h
  | cons c cs =>
    rw [hchars, Reflow.isNameText, Bool.and_eq_true] at h
    exact ⟨c, cs, rfl, h.1⟩

/-- The word of a punctuator or a name is one that the scanner knows. -/
theorem Operator.isSpelled_word {operator : String}
    (h : (isNameText operator.toList || punctuators.contains operator) = true) :
    (word operator).isSpelled = true := by
  unfold word
  split
  · assumption
  · simpa [Word.isSpelled, Word.mark, ‹¬isNameText operator.toList = true›] using h

/-- The operators in front of an operand. -/
def Operator.unaries : List String := ["!", "~", "+", "-", "typeof", "void", "delete"]

/-- A prefix operator is one of those that are known. -/
theorem UnaryOperator.mem_unaries (operator : UnaryOperator) :
    operator.text ∈ Operator.unaries :=
  List.contains_iff_mem.1 operator.isUnary

/-- A prefix operator is a word that the scanner knows. -/
theorem UnaryOperator.isSpelled (operator : UnaryOperator) :
    (Operator.word operator.text).isSpelled = true := by
  have hall : ∀ text ∈ Operator.unaries,
      (isNameText text.toList || punctuators.contains text) = true := by decide
  exact Operator.isSpelled_word (hall _ operator.mem_unaries)

/-- The operators in front of an operand that are signs. -/
def signs : List String := ["!", "~", "+", "-"]

/-- An operator that does not end with a letter is a sign. -/
theorem UnaryOperator.eq_mark (operator : UnaryOperator)
    (h : operator.text.toList.getLast?.any Char.isAlpha = false) :
    operator.text ∈ signs ∧ Operator.word operator.text = .mark operator.text := by
  have hall : ∀ text ∈ Operator.unaries,
      text.toList.getLast?.any Char.isAlpha = false →
        text ∈ signs ∧ Operator.word text = .mark text := by decide
  exact hall _ operator.mem_unaries h

/-- An operator between operands is in one of the tiers. -/
theorem BinaryOperator.mem_tiers (operator : BinaryOperator) :
    operator.text ∈ Operator.tiers.flatten := by
  have h := operator.isBinary
  rw [Operator.precedence?, List.findIdx?_isSome, List.any_eq_true] at h
  obtain ⟨tier, htier, hmem⟩ := h
  exact List.mem_flatten.2 ⟨tier, htier, List.contains_iff_mem.1 hmem⟩

/-- It is a word that the scanner knows. -/
theorem BinaryOperator.isSpelled (operator : BinaryOperator) :
    (Operator.word operator.text).isSpelled = true := by
  have hall : ∀ text ∈ Operator.tiers.flatten,
      (isNameText text.toList || punctuators.contains text) = true := by decide
  exact Operator.isSpelled_word (hall _ operator.mem_tiers)

/-- The operators that assign. -/
def Operator.assignments : List String :=
  ["=", "+=", "-=", "*=", "/=", "%=", "**=", "<<=", ">>=", ">>>=", "&=", "|=", "^=", "&&=", "||=",
   "??="]

/-- An operator of an assignment is one of those that are known. -/
theorem AssignmentOperator.mem_assignments (operator : AssignmentOperator) :
    operator.text ∈ Operator.assignments :=
  List.contains_iff_mem.1 operator.isAssignment

/-- It is a word that the scanner knows. -/
theorem AssignmentOperator.isSpelled (operator : AssignmentOperator) :
    (Operator.word operator.text).isSpelled = true := by
  have hall : ∀ text ∈ Operator.assignments,
      (isNameText text.toList || punctuators.contains text) = true := by decide
  exact Operator.isSpelled_word (hall _ operator.mem_assignments)

/-! ## What an expression starts with -/

/-- Does the expression start with a word of its own? -/
def Expression.isLead : Expression → Bool
  | .target (.name _) | .group _ | .construct .. | .unary .. | .await _ => true
  | _ => false

/-- The expression starts with `lead`, which has a word of its own in front and binds as tightly. -/
structure Expression.Lead (e lead : Expression) : Prop where
  items : lead.items <+: e.items
  readable : lead.Readable
  isLead : lead.isLead = true
  rank : e.rank ≤ lead.rank

namespace Expression

/-- An expression that starts with no other one leads itself. -/
theorem Lead.self {e : Expression} (h : e.Readable) (hlead : e.isLead = true) : e.Lead e :=
  ⟨List.prefix_rfl, h, hlead, Nat.le_refl _⟩

/-- What starts with a part starts as the part does. -/
theorem Lead.extend {e first lead : Expression} (h : first.Lead lead)
    (hitems : first.items <+: e.items) (hrank : e.rank ≤ first.rank) : e.Lead lead :=
  ⟨h.items.trans hitems, h.readable, h.isLead, Nat.le_trans hrank h.rank⟩

/-- Every expression has one that it starts with. -/
theorem Readable.exists_lead {e : Expression} (h : e.Readable) : ∃ lead, e.Lead lead := by
  -- induction on how the expression is read
  induction h with
  | name => exact ⟨_, .self .name rfl⟩
  | group h => exact ⟨_, .self (.group h) rfl⟩
  | unary ha hrank hsign => exact ⟨_, .self (.unary ha hrank hsign) rfl⟩
  | await ha hrank => exact ⟨_, .self (.await ha hrank) rfl⟩
  | construct hc hrank has hranks => exact ⟨_, .self (.construct hc hrank has hranks) rfl⟩
  -- what is read in front leads the whole
  | dotted _ _ ih | computed _ _ _ ih =>
    obtain ⟨lead, h⟩ := ih
    exact ⟨lead, h.extend (by simp [items, Target.items]) (Nat.min_le_right ..)⟩
  | @binary operator _ _ _ hleft _ _ ih =>
    obtain ⟨lead, h⟩ := ih
    have hrank := Nat.le_trans (Operator.le_leftRank operator.text) hleft
    exact ⟨lead, h.extend (by simp [items]) hrank⟩
  | conditional _ htest _ _ _ _ ih =>
    obtain ⟨lead, h⟩ := ih
    exact ⟨lead, h.extend (by simp [items]) (Nat.le_of_succ_le htest)⟩
  | call _ hrank _ _ ih =>
    obtain ⟨lead, h⟩ := ih
    exact ⟨lead, h.extend (by simp [items]) hrank⟩
  | assign ht _ _ ih =>
    obtain ⟨lead, h⟩ := ih
    have hrank := Nat.le_trans (by decide : 1 ≤ 17) ht.le_rank_target
    exact ⟨lead, h.extend (by simp [items]) hrank⟩
  | sequence _ _ _ _ _ _ ih =>
    obtain ⟨lead, h⟩ := ih
    exact ⟨lead, h.extend (by simp [items]) (Nat.zero_le _)⟩

/-- What binds as tightly as an access starts with a name or a parenthesis. -/
theorem Readable.head {e : Expression} (h : e.Readable) (hrank : 17 ≤ e.rank) :
    ∃ c cs, charsOf e.items = c :: cs ∧ (isNameStart c = true ∨ c = '(') := by
  obtain ⟨lead, hlead⟩ := h.exists_lead
  obtain ⟨more, hmore⟩ := hlead.items
  suffices hhead : ∃ c cs, charsOf lead.items = c :: cs ∧ (isNameStart c = true ∨ c = '(') by
    obtain ⟨c, cs, hchars, hc⟩ := hhead
    exact ⟨c, cs ++ charsOf more, by rw [← hmore, charsOf_append, hchars, List.cons_append], hc⟩
  -- the lead binds as much as the whole does
  have hlevel : 17 ≤ lead.rank := Nat.le_trans hrank hlead.rank
  have hword := hlead.isLead
  cases hlead.readable with
  | @name x =>
    obtain ⟨c, cs, hchars, hc⟩ := x.exists_chars
    exact ⟨c, cs, by simp [items, Target.items, Item.name, Word.name, hchars], .inl hc⟩
  | group => exact ⟨'(', _, rfl, .inr rfl⟩
  | construct => exact ⟨'n', _, rfl, .inl (by decide)⟩
  | unary => simp [rank] at hlevel
  | await => simp [rank] at hlevel
  | dotted | computed | binary | conditional | call | assign | sequence => cases hword

end Expression

/-- Signs and points end before names and parentheses. -/
theorem endsPunctuator_of_head {text : String} {c : Char} (htext : text.toList ≠ [])
    (hc : isNameStart c = true ∨ c = '(') : endsPunctuator text c = true := by
  -- no punctuator is made longer by what starts a name or a group
  have hall : ∀ d ∈ '/' :: lengthening, isNameStart d = false ∧ d ≠ '(' :=
    Text.forall_mem_of_all (by decide)
  have hother : c ∉ '/' :: lengthening := by
    intro hmem
    obtain ⟨hname, hparen⟩ := hall c hmem
    rcases hc with hc | hc
    · rw [hc] at hname
      cases hname
    · exact hparen hc
  -- a digit starts neither
  have hdigit : Text.isDigit c = false := by
    rcases hc with hc | rfl
    · exact not_isDigit_of_isNameStart hc
    · decide
  exact endsPunctuator_of_not_mem htext (fun h => hother (List.mem_cons_of_mem _ h))
    (fun h => hother (h ▸ List.mem_cons_self)) hdigit

namespace Expression

/-- The text of the word of an operator is the operator. -/
theorem text_word (operator : String) : (Operator.word operator).text = operator := by
  unfold Operator.word
  split <;> rfl

/-- A sign ends before its operand. -/
theorem Readable.endsPunctuator_sign {operator : String} {argument : Expression}
    (hoperator : operator ∈ signs) (ha : argument.Readable) (hrank : 16 ≤ argument.rank)
    (hsign : argument.clashes operator = false) (cs : List Char) :
    (charsOf argument.items ++ cs).head?.all (endsPunctuator operator) = true := by
  -- a sign has a character
  have hnonempty : operator.toList ≠ [] := by
    have hall : ∀ text ∈ signs, text.toList ≠ [] := by decide
    exact hall operator hoperator
  -- the argument starts with an operator of its own, or with a name or a parenthesis
  rcases Nat.lt_or_ge argument.rank 17 with hlt | hge
  · cases ha with
    | await => exact endsPunctuator_of_head hnonempty (.inl (by decide))
    | @unary inner =>
      -- a sign is lengthened by none of the operators it does not clash with
      have hall : ∀ outer ∈ signs, ∀ inner ∈ Operator.unaries,
          (inner == outer && (inner == "+" || inner == "-")) = false →
            inner.toList.head?.any (endsPunctuator outer) = true := by decide
      have hends := hall operator hoperator inner.text inner.mem_unaries hsign
      rw [items, charsOf_append, charsOf_word, text_word]
      cases hchars : inner.text.toList with
      | nil => simp [hchars] at hends
      | cons c more => simpa [hchars] using hends
    | @binary inner =>
      have := Operator.precedence_le inner.text
      simp only [rank] at hrank
      omega
    | conditional | assign | sequence => simp [rank] at hrank
    | name | group | construct | call => simp [rank, Target.rank] at hlt
    | dotted _ hobject | computed _ hobject =>
      simp only [rank, Target.rank] at hlt
      omega
  · -- any other argument starts with a name or a parenthesis
    obtain ⟨c, more, hchars, hc⟩ := ha.head hge
    rw [hchars]
    exact endsPunctuator_of_head hnonempty hc

/-- A text that may stand behind an expression. -/
structure Trails (rest : List Item) : Prop where
  spelled : spelled rest = true
  head : (charsOf rest).head?.all breaks.contains = true

section Trails

variable {rest : List Item}

/-- A bracket may stand behind every expression. -/
theorem Trails.bracket {text : String} (htext : text ∈ brackets) (hrest : Reflow.spelled rest = true) :
    Trails (.mark text :: rest) := by
  have hall : ∀ text ∈ brackets, text.toList.head?.any breaks.contains = true := by decide
  refine ⟨(spelled_bracket htext).trans hrest, ?_⟩
  have hfirst := hall text htext
  rw [Item.mark, charsOf_word]
  cases hchars : text.toList with
  | nil => simp [hchars] at hfirst
  | cons c more => simpa [Word.mark, hchars] using hfirst

/-- So may an operator with its spaces. -/
theorem Trails.between {w : Word} (hw : w.isSpelled = true) (hrest : Reflow.spelled rest = true) :
    Trails (Item.between w ++ rest) :=
  ⟨(spelled_between hw).trans hrest, rfl⟩

/-- An access by a name. -/
theorem Trails.dotted (x : OrdinaryName) (optional : Bool) (hrest : Trails rest) :
    Trails (.mark (if optional then "?." else ".") :: .name x.text :: rest) := by
  -- both marks are words, and start with a character that ends a name
  have hall : ∀ text ∈ [".", "?."], (Word.mark text).isSpelled = true ∧ text.toList ≠ [] ∧
      text.toList.head?.any breaks.contains = true := by decide
  have hmem : (if optional then "?." else ".") ∈ [".", "?."] := by cases optional <;> decide
  generalize (if optional then "?." else ".") = text at hmem ⊢
  obtain ⟨hspelled, hnonempty, hfirst⟩ := hall text hmem
  obtain ⟨c, cs, hchars, hc⟩ := x.exists_chars
  have hends : endsPunctuator text c = true := endsPunctuator_of_head hnonempty (.inl hc)
  refine ⟨?_, ?_⟩
  · rw [Item.mark, spelled_word, hspelled, spelled_name x.isNameText hrest.head, hrest.spelled]
    -- the name does not lengthen the mark
    simpa [Item.name, Word.name, Word.mark, Word.endsBefore, hchars] using hends
  · cases htext : text.toList with
    | nil => exact absurd htext hnonempty
    | cons d ds => simpa [Item.mark, Word.mark, htext] using hfirst

/-- What opens behind an expression, and maybe a mark of an optional access. -/
theorem Trails.opening {text : String} (htext : text = "(" ∨ text = "[") (optional : Bool)
    (hrest : Reflow.spelled rest = true) :
    Trails ((if optional then [.mark "?."] else []) ++ .mark text :: rest) := by
  have hbracket : text ∈ brackets := by rcases htext with rfl | rfl <;> decide
  have hopen : Trails (.mark text :: rest) := .bracket hbracket hrest
  cases optional with
  -- the bracket alone
  | false => exact hopen
  -- the mark in front of it is lengthened by neither of the two
  | true =>
    refine ⟨?_, rfl⟩
    have hspelled : (Word.mark "?.").isSpelled = true := by decide
    have hends : (charsOf (.mark text :: rest)).head?.all (Word.mark "?.").endsBefore = true := by
      rcases htext with rfl | rfl
      · show endsPunctuator "?." '(' = true
        decide
      · show endsPunctuator "?." '[' = true
        decide
    rw [if_pos rfl, List.singleton_append, Item.mark, spelled_word, hspelled, hends, hopen.spelled]
    rfl

/-- So may a comma with the arguments behind it. -/
theorem Trails.moreItems {es : List Expression}
    (ih : ∀ e ∈ es, ∀ rest, Trails rest → Reflow.spelled (e.items ++ rest) = true)
    (hrest : Trails rest) : Trails (moreItems es ++ rest) := by
  induction es with
  | nil => exact hrest
  | cons e es ih' =>
    have hmore := ih' fun d hd => ih d (List.mem_cons_of_mem _ hd)
    have he := ih e List.mem_cons_self _ hmore
    rw [← List.append_assoc] at he
    exact .bracket (by decide) he

/-- The words of arguments can be told apart. -/
theorem spelled_itemsOf {es : List Expression}
    (ih : ∀ e ∈ es, ∀ rest, Trails rest → spelled (e.items ++ rest) = true)
    (hrest : Trails rest) : spelled (itemsOf es ++ rest) = true := by
  cases es with
  | nil => exact hrest.spelled
  | cons e es =>
    rw [itemsOf, List.append_assoc]
    exact ih e List.mem_cons_self _ (.moreItems (fun d hd => ih d (List.mem_cons_of_mem _ hd)) hrest)

end Trails

/-- A readable expression is spelled in front of everything that may stand behind an expression. -/
theorem Readable.spelled_append {e : Expression} (h : e.Readable) {rest : List Item}
    (hrest : Trails rest) : spelled (e.items ++ rest) = true := by
  -- induction on how the expression is read, whose items may be followed by whatever trails
  induction h generalizing rest with
  | @name x =>
    exact (spelled_name x.isNameText hrest.head).trans hrest.spelled
  | @dotted object property optional ho hrank ih =>
    rw [items, Target.items, List.append_assoc]
    exact ih (.dotted property optional hrest)
  | computed ho hrank hp iho ihp =>
    simp only [items, Target.items, List.append_assoc, List.cons_append]
    exact iho (.opening (.inr rfl) _ (ihp (.bracket (by decide) hrest.spelled)))
  | group h ih =>
    simp only [items, List.append_assoc, List.cons_append]
    exact (Trails.bracket (by decide) (ih (.bracket (by decide) hrest.spelled))).spelled
  | @unary operator argument ha hrank hsign ih =>
    rw [items, List.append_assoc, List.cons_append]
    -- an operator that is a word has a space behind it, a sign has its argument
    split
    · exact (spelled_word_space operator.isSpelled).trans (ih hrest)
    · have hmark := operator.eq_mark (Bool.eq_false_iff.2 ‹_›)
      rw [List.nil_append, spelled_word, operator.isSpelled, ih hrest, charsOf_append, hmark.2]
      rw [Bool.and_true, Bool.true_and]
      exact Readable.endsPunctuator_sign hmark.1 ha hrank hsign _
  | await ha hrank ih =>
    exact (spelled_word_space (by decide)).trans (ih hrest)
  | @binary operator left right hl hleft hr hright ihl ihr =>
    simp only [items, List.append_assoc]
    exact ihl (.between operator.isSpelled (ihr hrest))
  | conditional ht htest hc hconsequent ha halternate iht ihc iha =>
    simp only [items, List.append_assoc]
    exact iht (.between (by decide) (ihc (.between (by decide) (iha hrest))))
  | call hc hrank has hranks ihc ihas =>
    simp only [items, List.append_assoc, List.cons_append]
    exact ihc (.opening (.inl rfl) _ (spelled_itemsOf (fun e he _ => ihas e he)
      (.bracket (by decide) hrest.spelled)))
  | construct hc hrank has hranks ihc ihas =>
    simp only [items, List.append_assoc, List.cons_append]
    refine (spelled_word_space (by decide)).trans (ihc (.bracket (by decide) ?_))
    exact spelled_itemsOf (fun e he _ => ihas e he) (.bracket (by decide) hrest.spelled)
  | @assign operator target value ht hv hrank iht ihv =>
    simp only [items, List.append_assoc]
    exact iht (.between operator.isSpelled (ihv hrest))
  | sequence hf hfirst hs hsecond hm hmore ihf ihs ihm =>
    simp only [items, List.append_assoc, List.cons_append]
    exact ihf (.bracket (by decide) (ihs (.moreItems (fun e he _ => ihm e he) hrest)))

end Expression

/-! ## Words -/

/-- The words of what is assigned to. -/
def Target.words (t : Target) : List Word := wordsOf t.items

namespace Expression

/-- The words of an expression. -/
def words (e : Expression) : List Word := wordsOf e.items

/-- The words of expressions with commas between them. -/
def wordsIn (es : List Expression) : List Word := wordsOf (itemsOf es)

/-- The words of expressions behind another one. -/
def moreWords (es : List Expression) : List Word := wordsOf (moreItems es)

section

variable (e inner object property argument left right test consequent alternate callee value first
  second : Expression) (es arguments more : List Expression) (t : Target) (x : OrdinaryName)
  (optional : Bool)

@[simp] theorem words_target : (target t).words = t.words := rfl

@[simp] theorem words_name : (Target.name x).words = [.name x.text] := rfl

@[simp] theorem words_dotted : (Target.dotted object x optional).words =
    object.words ++ [.mark (if optional then "?." else "."), .name x.text] := by
  simp [Target.words, Target.items, words, Item.mark, Item.name]

@[simp] theorem words_computed : (Target.computed object property optional).words =
    object.words ++ (if optional then [.mark "?."] else []) ++ .mark "[" :: property.words
      ++ [.mark "]"] := by
  cases optional <;> simp [Target.words, Target.items, words, Item.mark]

@[simp] theorem words_group : (group inner).words = .mark "(" :: inner.words ++ [.mark ")"] := by
  simp [words, items, Item.mark]

@[simp] theorem words_unary (operator : UnaryOperator) :
    (unary operator argument).words = Operator.word operator.text :: argument.words := by
  rw [words, items]
  split <;> simp [words]

@[simp] theorem words_await : (await argument).words = .name "await" :: argument.words := rfl

@[simp] theorem words_binary (operator : BinaryOperator) : (binary operator left right).words =
    left.words ++ Operator.word operator.text :: right.words := by
  simp [words, items, Item.between]

@[simp] theorem words_conditional : (conditional test consequent alternate).words =
    test.words ++ .mark "?" :: consequent.words ++ .mark ":" :: alternate.words := by
  simp [words, items, Item.between]

@[simp] theorem words_call : (call callee arguments optional).words =
    callee.words ++ (if optional then [.mark "?."] else []) ++ .mark "(" :: wordsIn arguments
      ++ [.mark ")"] := by
  cases optional <;> simp [words, wordsIn, items, Item.mark]

@[simp] theorem words_construct : (construct callee arguments).words =
    .name "new" :: callee.words ++ .mark "(" :: wordsIn arguments ++ [.mark ")"] := by
  simp [words, wordsIn, items, Item.mark, Item.name]

@[simp] theorem words_assign (operator : AssignmentOperator) : (assign operator t value).words =
    t.words ++ Operator.word operator.text :: value.words := by
  simp [words, Target.words, items, Item.between]

@[simp] theorem words_sequence : (sequence first second more).words =
    first.words ++ .mark "," :: second.words ++ moreWords more := by
  simp [words, moreWords, items, Item.mark]

@[simp] theorem wordsIn_nil : wordsIn [] = [] := rfl

@[simp] theorem wordsIn_cons : wordsIn (e :: es) = e.words ++ moreWords es := by
  simp [wordsIn, moreWords, words, itemsOf]

@[simp] theorem moreWords_nil : moreWords [] = [] := rfl

@[simp] theorem moreWords_cons : moreWords (e :: es) = .mark "," :: e.words ++ moreWords es := by
  simp [moreWords, words, moreItems, Item.mark]

end

/-- An expression has no more words than the row behind another one that it is in. -/
theorem length_words_lt {d : Expression} {es : List Expression} (hd : d ∈ es) :
    d.words.length < (moreWords es).length := by
  induction es with
  | nil => cases hd
  | cons e es ih =>
    rw [moreWords_cons, List.length_append, List.length_cons]
    rcases List.mem_cons.1 hd with rfl | hd
    · omega
    · exact Nat.lt_of_lt_of_le (ih hd) (Nat.le_add_left ..)

/-- An expression has no more words than the row that it is in. -/
theorem length_words_le {d : Expression} {es : List Expression} (hd : d ∈ es) :
    d.words.length ≤ (wordsIn es).length := by
  cases es with
  | nil => cases hd
  | cons e es =>
    have := length_words_lt hd
    rw [moreWords_cons, List.cons_append, List.length_cons] at this
    exact Nat.le_of_lt_succ (wordsIn_cons e es ▸ this)

end Expression

/-! ### The first word -/

/-- May what binds as tightly as an access start with the text? -/
def opensValue (text : String) : Bool := isOrdinary text || ["(", "new"].contains text

/-- May an expression start with the text? -/
def opensExpression (text : String) : Bool :=
  opensValue text || text == "await" || Operator.unaries.contains text

/-- A text of one kind is none of the texts of another kind. -/
theorem not_contains_of_all {p : String → Bool} {text : String} (htext : p text = true)
    {values : List String} (hvalues : values.all (fun v => !p v) = true) :
    values.contains text = false := by
  rw [Bool.eq_false_iff]
  intro hmem
  have hvalue := List.all_eq_true.1 hvalues text (List.contains_iff_mem.1 hmem)
  rw [htext] at hvalue
  cases hvalue

/-- A word of one kind is none of the words of another kind. -/
theorem Word.isOne_of_text {p : String → Bool} {w : Word} (hw : p w.text = true)
    {values : List String} (hvalues : values.all (fun v => !p v) = true) :
    w.isOne values = false := by
  rw [isOne, not_contains_of_all hw hvalues, Bool.and_false]

/-- A word that is none of the given words is none of some of them. -/
theorem Word.isOne_of_subset {w : Word} {values some : List String} (hw : w.isOne values = false)
    (hsome : ∀ v ∈ some, v ∈ values) : w.isOne some = false := by
  rw [Bool.eq_false_iff] at hw ⊢
  intro hone
  rw [isOne, Bool.and_eq_true, List.contains_iff_mem] at hone
  exact hw (by rw [isOne, Bool.and_eq_true, List.contains_iff_mem]; exact ⟨hone.1, hsome _ hone.2⟩)

namespace Expression

/-- The words of the expression that another one starts with come first. -/
theorem Lead.words {e lead : Expression} (h : e.Lead lead) : lead.words <+: e.words := by
  obtain ⟨more, hmore⟩ := h.items
  exact ⟨wordsOf more, by rw [Expression.words, Expression.words, ← wordsOf_append, hmore]⟩

/-- An expression starts with a name, a parenthesis, or a word or sign in front of its operand. -/
theorem Readable.opens {e : Expression} (h : e.Readable) : ∃ w ws, e.words = w :: ws ∧
    opensExpression w.text = true ∧ (17 ≤ e.rank → opensValue w.text = true) := by
  obtain ⟨lead, hlead⟩ := h.exists_lead
  obtain ⟨more, hmore⟩ := hlead.words
  -- the first word of the lead is the first of the whole
  suffices hfirst : ∃ w ws, lead.words = w :: ws ∧ opensExpression w.text = true ∧
      (17 ≤ lead.rank → opensValue w.text = true) by
    obtain ⟨w, ws, hwords, hw, hvalue⟩ := hfirst
    refine ⟨w, ws ++ more, by rw [← hmore, hwords, List.cons_append], hw, fun hrank => ?_⟩
    exact hvalue (Nat.le_trans hrank hlead.rank)
  have hword := hlead.isLead
  cases hlead.readable with
  | @name x =>
    have hvalue : opensValue x.text = true := by simp [opensValue, x.ordinary]
    have hopens : opensExpression x.text = true := by simp [opensExpression, hvalue]
    exact ⟨_, _, rfl, hopens, fun _ => hvalue⟩
  | group =>
    exact ⟨_, _, by rw [words_group, List.cons_append], by decide, fun _ => by decide⟩
  | construct =>
    exact ⟨_, _, by rw [words_construct, List.cons_append, List.cons_append], by decide,
      fun _ => by decide⟩
  -- an operator opens an operand, but no value
  | @unary operator =>
    have hall : ∀ text ∈ Operator.unaries, opensExpression text = true := by decide
    refine ⟨_, _, words_unary _ _, ?_, fun hrank => by simp [rank] at hrank⟩
    rw [text_word]
    exact hall _ operator.mem_unaries
  | await => exact ⟨_, _, words_await _, by decide, fun hrank => by simp [rank] at hrank⟩
  | dotted | computed | binary | conditional | call | assign | sequence => cases hword

/-! ### The second word -/

/-- The words that may follow a parameter of a function. -/
def parameterEnds : List String := ["=", ",", ")"]

/-- There is a second word, and it does not follow a parameter. -/
def Thick (ws : List Word) : Prop :=
  ∃ w u rest, ws = w :: u :: rest ∧ u.isOne parameterEnds = false

/-- What holds two words does so with more behind them. -/
theorem Thick.append {ws : List Word} (h : Thick ws) (more : List Word) : Thick (ws ++ more) := by
  obtain ⟨w, u, rest, rfl, hu⟩ := h
  exact ⟨w, u, rest ++ more, rfl, hu⟩

/-- A word in front of an operand. -/
theorem Readable.thick_cons {e : Expression} (h : e.Readable) (w : Word) : Thick (w :: e.words) := by
  obtain ⟨u, rest, hwords, hu, -⟩ := h.opens
  exact ⟨w, u, rest, by rw [hwords], Word.isOne_of_text hu (by decide)⟩

/-- A word behind an operand. -/
theorem thick_append {e : Expression} {w : Word} 
    (h : (∃ x, e = .target (.name x)) ∨ Thick e.words)
    (hw : w.isOne parameterEnds = false) (more : List Word) : Thick (e.words ++ w :: more) := by
  rcases h with ⟨x, rfl⟩ | h
  · exact ⟨_, w, more, rfl, hw⟩
  · exact h.append _

/-- Operators do not follow parameters. -/
theorem isOne_parameterEnds (operator : BinaryOperator) :
    (Operator.word operator.text).isOne parameterEnds = false := by
  have hall : ∀ text ∈ Operator.tiers.flatten,
      (Operator.word text).isOne parameterEnds = false := by decide
  exact hall _ operator.mem_tiers

/-- An expression of two words or more does not go on as a parameter does, unless it is an assignment
or a sequence. -/
theorem Readable.second {e : Expression} (h : e.Readable) (hrank : 2 ≤ e.rank) :
    (∃ x, e = .target (.name x)) ∨ Thick e.words := by
  -- induction on how the expression is read
  induction h with
  | name => exact .inl ⟨_, rfl⟩
  -- behind a parenthesis or an operator stands a word that ends no parameter
  | group h => exact .inr (by simpa using (h.thick_cons _).append _)
  | unary ha => exact .inr (by simpa using ha.thick_cons _)
  | await ha => exact .inr (by simpa using ha.thick_cons _)
  | construct hc => exact .inr (by simpa using (hc.thick_cons _).append _)
  -- what is accessed is a name or has its second word, and the suffix ends no parameter
  | @dotted _ _ optional _ hobject ih =>
    exact .inr (by
      simpa using thick_append (ih (by omega)) (by cases optional <;> decide) _)
  | @computed _ _ optional _ hobject _ ih =>
    cases optional <;>
      exact .inr (by
        simpa using thick_append (ih (by omega)) (by decide) _)
  | @binary operator _ _ _ hleft _ _ ih =>
    have hrank := Nat.le_trans (Operator.le_leftRank operator.text) hleft
    exact .inr (by
      simpa using thick_append (ih (by omega)) (isOne_parameterEnds operator) _)
  | conditional _ htest _ _ _ _ ih =>
    exact .inr (by simpa using thick_append (ih (by omega)) (by decide) _)
  | @call _ _ optional _ hcallee _ _ ih =>
    cases optional <;>
      exact .inr (by
        simpa using thick_append (ih (by omega)) (by decide) _)
  | assign => simp [rank] at hrank
  | sequence => simp [rank] at hrank

end Expression

end Reflow
