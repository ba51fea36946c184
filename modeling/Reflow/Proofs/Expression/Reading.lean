import Reflow.Grammar.Expression
import Reflow.Proofs.Expression.Words

/-!
# Reading an expression, rule by rule

Each rule of the grammar reads the words of an expression and stops in front of a word that does not
go on with it.  How far a word reaches back is its grip: a rule stops in front of the words whose grip
is not above the rank of the rule.

## Key results

- `Word.grip`: which rules go on at a word
- `Recognizes`: a rule reads an expression
-/

namespace Reflow

/-- The operator between two operands that a word is. -/
def Word.operator? (w : Word) : Option String :=
  Grammar.binaryOperator? ⟨w.kind, w.text, default, false⟩

/-- The rank up to which a word takes what stands in front of it as an operand. -/
def Word.grip (w : Word) : Nat :=
  match w.operator? with
  | some operator => 4 + Operator.precedence operator
  | none =>
    if w.isOne [".", "?.", "[", "`", "=>"] then 19
    else if w.isOne ["("] then 18
    else if w.isOne ["++", "--"] then 17
    else if w.isOne ["?"] then 3
    else if w.kind = .punctuator && Operator.isAssignment w.text then 2
    else if w.isOne [","] then 1
    else 0

namespace Grammar

/-- A rule reads the expression and stops in front of a word that grips no further than the limit. -/
def Recognizes (x : Parse Node) (e : Expression) (limit : Nat) : Prop :=
  ∀ s w ws, Stands s (e.words ++ w :: ws) → w.grip ≤ limit →
    Gives TooDeep x s fun n s' => e.Shows n ∧ Stands s' (w :: ws)

/-- A word that holds less than all of some texts is none of them. -/
theorem Word.isOne_of_grip {w : Word} {limit : Nat} {values : List String} (h : w.grip ≤ limit)
    (hvalues : ∀ v ∈ values, ∀ kind ∈ [TokenKind.name, .punctuator], limit < (Word.mk kind v).grip) :
    w.isOne values = false := by
  rw [Bool.eq_false_iff]
  intro hone
  rw [Word.isOne, Bool.and_eq_true, Bool.or_eq_true, List.contains_iff_mem] at hone
  obtain ⟨hkind, hvalue⟩ := hone
  obtain ⟨kind, text⟩ := w
  have := hvalues text hvalue kind (by cases kind <;> simp_all)
  omega

/-- What is recognized in front of weak words is so in front of weaker ones. -/
theorem Recognizes.mono {x : Parse Node} {e : Expression} {limit lower : Nat} (h : Recognizes x e limit)
    (hlower : lower ≤ limit) : Recognizes x e lower :=
  fun s w ws hs hw => h s w ws hs (Nat.le_trans hw hlower)

variable {parse : Rule → Parse Node}

/-- An assignment that is recognized is an expression that is. -/
theorem expression_of_assignment {e : Expression} (he : Recognizes (parse .assignment) e 1) :
    Recognizes (expression parse) e 0 := by
  intro s w ws hs hw
  refine .look _ rfl ((he s w ws hs (by omega)).bind fun n s' h => ?_)
  exact .isAt_neg h.2 (Word.isOne_of_grip hw (by decide)) (.pure h)

/-- Behind an expression in a row stands a comma or what ends the row. -/
theorem exists_moreWords (es : List Expression) {w : Word} (hw : w.grip ≤ 1) (ws : List Word) :
    ∃ v vs, Expression.moreWords es ++ w :: ws = v :: vs ∧ v.grip ≤ 1 := by
  cases es with
  | nil => exact ⟨w, ws, rfl, hw⟩
  | cons e es =>
    exact ⟨_, _, by rw [Expression.moreWords_cons, List.cons_append, List.cons_append], by decide⟩

/-- More parts of a sequence. -/
theorem sequence_more {es : List Expression} (hes : ∀ e ∈ es, Recognizes (parse .assignment) e 1)
    {s : State} {w : Word} {ws : List Word} {n : Nat}
    (hs : Stands s (Expression.moreWords es ++ w :: ws)) (hw : w.grip ≤ 0)
    (hn : (Expression.moreWords es).length < n) :
    Gives TooDeep (collectUpTo (eat ",") (return (← parse .assignment, true)) n) s fun ns s' =>
      Expression.AllShow es ns ∧ Stands s' (w :: ws) := by
  -- induction on the expressions that are still to come
  induction es generalizing s n with
  -- no comma follows
  | nil =>
    obtain ⟨n, rfl⟩ := Nat.exists_eq_succ_of_ne_zero (Nat.ne_of_gt hn)
    exact .look _ rfl (.eat_neg hs (Word.isOne_of_grip hw (by decide)) (.pure ⟨rfl, hs⟩))
  | cons e es ih =>
    obtain ⟨n, rfl⟩ := Nat.exists_eq_succ_of_ne_zero (Nat.ne_of_gt (Nat.zero_lt_of_lt hn))
    obtain ⟨he, hes⟩ := List.forall_mem_cons.1 hes
    simp only [Expression.moreWords_cons, List.append_assoc, List.cons_append, List.length_cons,
      List.length_append] at hs hn
    -- a comma follows, and an expression behind it
    refine .look _ rfl (.eat_pos hs (by simp) (by decide) fun s1 h1 => ?_)
    -- the word behind that expression is a comma again, or what follows the sequence
    obtain ⟨v, vs, hmore, hv⟩ := exists_moreWords es (Nat.le_succ_of_le hw) ws
    rw [hmore] at h1
    refine .bind (P := fun r s' => r.2 = true ∧ e.Shows r.1 ∧ Stands s' (v :: vs))
      ((he s1 v vs h1 hv).bind fun n s' h => .pure ⟨rfl, h⟩) ?_
    rintro r s2 ⟨hr, hm, h2⟩
    rw [← hmore] at h2
    refine .note h2 fun s3 h3 => ?_
    rw [if_pos hr]
    refine (ih hes h3 (by omega)).bind ?_
    rintro ns s4 ⟨hns, h4⟩
    exact .pure ⟨⟨r.1, ns, rfl, hm, hns⟩, h4⟩

/-- A sequence and its parts. -/
theorem sequence_reads {first second : Expression} {more : List Expression}
    (hes : ∀ e ∈ first :: second :: more, Recognizes (parse .assignment) e 1) :
    Recognizes (expression parse) (.sequence first second more) 0 := by
  intro s w ws hs hw
  obtain ⟨hfirst, hrest⟩ := List.forall_mem_cons.1 hes
  -- the first expression, and the others with the commas in front of them
  have hwords : (Expression.sequence first second more).words =
      first.words ++ Expression.moreWords (second :: more) := by simp
  rw [hwords, List.append_assoc] at hs
  simp only [Expression.moreWords_cons, List.cons_append] at hs
  refine .look _ rfl ((hfirst s _ _ hs (by decide)).bind fun a s1 ⟨ha, h1⟩ => ?_)
  -- the comma makes it a sequence
  refine .isAt_pos h1 (by decide) ?_
  rw [← List.cons_append, ← List.cons_append, ← Expression.moreWords_cons] at h1
  have hroom := h1.room
  rw [List.length_append] at hroom
  refine .bind (.look _ rfl (sequence_more hrest h1 hw (by simp at hroom ⊢; omega))) ?_
  rintro ns s2 ⟨⟨b, ms, rfl, hb, hms⟩, h2⟩
  exact .node h2 fun n s3 hn h3 => ⟨⟨a, b, ms, hn, ha, hb, hms⟩, h3⟩

/-! ### Arguments -/

/-- An argument is not spread. -/
theorem spreadable_reads {e : Expression} (h : e.Readable) (he : Recognizes (parse .assignment) e 1) :
    Recognizes (spreadable parse) e 1 := by
  intro s w ws hs hw
  obtain ⟨v, vs, hwords, hv, -⟩ := h.opens
  have hsv : Stands s (v :: (vs ++ w :: ws)) := by rwa [hwords] at hs
  exact .look _ rfl (.eat_neg hsv (Word.isOne_of_text hv (by decide)) (he s w ws hs hw))

/-- An argument does not start with what ends the arguments. -/
theorem not_at_close {F : SourceFault → Prop} {e : Expression} {s : State} {ws : List Word}
    (hs : Stands s (e.words ++ ws)) (h : e.Readable) :
    Gives F (return !(← isAt [")"])) s fun go s' => go = true ∧ s' = s := by
  obtain ⟨v, vs, hwords, hv, -⟩ := h.opens
  have hsv : Stands s (v :: (vs ++ ws)) := by rwa [hwords] at hs
  refine .look _ rfl (.pure ⟨?_, rfl⟩)
  rw [hsv.isOne_eq, Word.isOne_of_text hv (by decide)]
  rfl

/-- Arguments, one at least. -/
theorem arguments_more {e : Expression} {es : List Expression} (hes : ∀ d ∈ e :: es, d.Readable)
    (hread : ∀ d ∈ e :: es, Recognizes (parse .assignment) d 1) {s : State} {ws : List Word} {n : Nat}
    (hs : Stands s (e.words ++ (Expression.moreWords es ++ .mark ")" :: ws)))
    (hn : (Expression.moreWords es).length < n) :
    Gives TooDeep (collectUpTo (return !(← isAt [")"])) (do
      let a ← spreadable parse
      return (a, ← eat ",")) n) s fun ns s' =>
      Expression.AllShow (e :: es) ns ∧ Stands s' (.mark ")" :: ws) := by
  -- induction on the arguments behind the first one
  induction es generalizing e s n with
  -- the last argument, with the parenthesis behind it
  | nil =>
    obtain ⟨n, rfl⟩ := Nat.exists_eq_succ_of_ne_zero (Nat.ne_of_gt (Nat.zero_lt_of_lt hn))
    have he := spreadable_reads (hes e List.mem_cons_self) (hread e List.mem_cons_self)
    refine .look _ rfl (.bind (P := fun go s' => go = true ∧ s' = s)
      (not_at_close hs (hes e List.mem_cons_self)) ?_)
    rintro _ _ ⟨rfl, rfl⟩
    refine .bind (P := fun r s' => r.2 = false ∧ e.Shows r.1 ∧ Stands s' (.mark ")" :: ws))
      ((he _ (.mark ")") ws hs (by decide)).bind fun n s' h =>
        .eat_neg h.2 (by decide) (.pure ⟨rfl, h⟩)) ?_
    rintro r s2 ⟨hr, hm, h2⟩
    refine .note h2 fun s3 h3 => ?_
    rw [if_neg (by simp [hr])]
    exact .pure ⟨⟨r.1, [], rfl, hm, rfl⟩, h3⟩
  -- an argument with a comma behind it
  | cons d es ih =>
    obtain ⟨n, rfl⟩ := Nat.exists_eq_succ_of_ne_zero (Nat.ne_of_gt (Nat.zero_lt_of_lt hn))
    obtain ⟨hread', hrest⟩ := List.forall_mem_cons.1 hread
    have he := spreadable_reads (hes e List.mem_cons_self) hread'
    refine .look _ rfl (.bind (P := fun go s' => go = true ∧ s' = s)
      (not_at_close hs (hes e List.mem_cons_self)) ?_)
    rintro _ _ ⟨rfl, rfl⟩
    simp only [Expression.moreWords_cons, List.append_assoc, List.cons_append, List.length_cons,
      List.length_append] at hs hn
    refine .bind (P := fun r s' => r.2 = true ∧ e.Shows r.1 ∧
        Stands s' (d.words ++ (Expression.moreWords es ++ .mark ")" :: ws)))
      ((he _ (.mark ",") _ hs (by decide)).bind fun n s' h =>
        .eat_pos h.2 (by simp) (by decide) fun s1 h1 => .pure ⟨rfl, h.1, h1⟩) ?_
    rintro r s2 ⟨hr, hm, h2⟩
    refine .note h2 fun s3 h3 => ?_
    rw [if_pos hr]
    refine (ih (fun c hc => hes c (List.mem_cons_of_mem _ hc)) hrest h3 (by omega)).bind ?_
    rintro ns s4 ⟨hns, h4⟩
    exact .pure ⟨⟨r.1, ns, rfl, hm, hns⟩, h4⟩

/-- Arguments in parentheses. -/
theorem arguments_reads {es : List Expression} (hes : ∀ d ∈ es, d.Readable)
    (hread : ∀ d ∈ es, Recognizes (parse .assignment) d 1) {s : State} {ws : List Word}
    (hs : Stands s (.mark "(" :: (Expression.wordsIn es ++ .mark ")" :: ws))) (hws : ws ≠ []) :
    Gives TooDeep (arguments parse) s fun ns s' => Expression.AllShow es ns ∧ Stands s' ws := by
  refine .expect hs (by simp) (by decide) fun s1 h1 => ?_
  refine .bind (P := fun ns s' => Expression.AllShow es ns ∧ Stands s' (.mark ")" :: ws)) ?_ ?_
  · -- no argument, or a first one with the others behind it
    refine .look _ rfl ?_
    cases es with
    | nil =>
      refine .look _ rfl ?_
      refine .bind (P := fun go s' => go = false ∧ s' = s1) (.look _ rfl (.pure ⟨?_, rfl⟩)) ?_
      · rw [h1.isOne_eq]
        decide
      · rintro _ _ ⟨rfl, rfl⟩
        exact .pure ⟨rfl, h1⟩
    | cons e es =>
      rw [Expression.wordsIn_cons, List.append_assoc] at h1
      have hroom := h1.room
      simp only [List.length_append] at hroom
      exact arguments_more hes hread h1 (by omega)
  · rintro ns s2 ⟨hns, h2⟩
    exact .expect h2 hws (by decide) fun s3 h3 => .pure ⟨hns, h3⟩

/-- An operation that is recognized is a conditional that is. -/
theorem conditional_of_binary {e : Expression} (he : Recognizes (parse (.binary 0)) e 3) :
    Recognizes (conditional parse) e 2 := by
  intro s w ws hs hw
  refine .look _ rfl ((he s w ws hs (by omega)).bind fun n s' h => ?_)
  exact .eat_neg h.2 (Word.isOne_of_grip hw (by decide)) (.pure h)

/-- A condition and what it chooses from. -/
theorem conditional_reads {test consequent alternate : Expression}
    (ht : Recognizes (parse (.binary 0)) test 3) (hc : Recognizes (parse .assignment) consequent 1)
    (ha : Recognizes (parse .assignment) alternate 1) :
    Recognizes (conditional parse) (.conditional test consequent alternate) 1 := by
  intro s w ws hs hw
  simp only [Expression.words_conditional, List.append_assoc, List.cons_append] at hs
  refine .look _ rfl ((ht s _ _ hs (by decide)).bind fun t s1 ⟨htest, h1⟩ => ?_)
  refine .eat_pos h1 (by simp) (by decide) fun s2 h2 => ?_
  refine (hc s2 _ _ h2 (by decide)).bind fun c s3 ⟨hconsequent, h3⟩ => ?_
  refine .expect h3 (by simp) (by decide) fun s4 h4 => ?_
  refine (ha s4 _ _ h4 hw).bind fun a s5 ⟨halternate, h5⟩ => ?_
  exact .node h5 fun n s6 hn h6 => ⟨⟨t, c, a, hn, htest, hconsequent, halternate⟩, h6⟩

/-! ### Operators in front -/

/-- An access or call that is recognized is an operand that is. -/
theorem unary_of_callMember {e : Expression} (h : e.Readable) (hrank : 17 ≤ e.rank)
    (he : Recognizes (parse (.callMember true)) e 17) : Recognizes (unary parse) e 16 := by
  intro s w ws hs hw
  -- the first word opens an operand, so that it is no operator
  obtain ⟨v, vs, hwords, -, hv⟩ := h.opens
  have hv := hv hrank
  have hsv : Stands s (v :: (vs ++ w :: ws)) := by rwa [hwords] at hs
  refine .look _ rfl (.look _ rfl ?_)
  show Gives TooDeep (if isOne s.token Operator.unaries = true then _ else _) s _
  rw [hsv.isOne_eq, hsv.isOne_eq, hsv.isOne_eq, Word.isOne_of_text hv (by decide),
    Word.isOne_of_text hv (by decide), Word.isOne_of_text hv (by decide)]
  refine (he s w ws hs (by omega)).bind fun n s' h => .look _ rfl ?_
  -- no mark of an update follows
  rw [h.2.isOne_eq, Word.isOne_of_grip hw (by decide)]
  exact .pure h

/-- An operator and its operand. -/
theorem unary_reads {operator : UnaryOperator} {argument : Expression}
    (ha : Recognizes (parse .unary) argument 16) :
    Recognizes (unary parse) (.unary operator argument) 16 := by
  intro s w ws hs hw
  -- the operator is known as one
  have hoperator : (Operator.word operator.text).isOne Operator.unaries = true := by
    have hall : ∀ text ∈ Operator.unaries,
        (Operator.word text).isOne Operator.unaries = true := by decide
    exact hall _ operator.mem_unaries
  simp only [Expression.words_unary, List.cons_append] at hs
  refine .look _ rfl (.look _ rfl ?_)
  show Gives TooDeep (if isOne s.token Operator.unaries = true then _ else _) s _
  rw [hs.isOne_eq, hoperator, if_pos rfl, hs.text_eq, Expression.text_word]
  refine .skip hs (by simp) fun s1 h1 => ?_
  -- the argument is read one level deeper
  refine (Gives.nested (fun _ h => h) h1 fun s2 h2 => ha s2 w ws h2 hw).bind ?_
  rintro a s3 ⟨hargument, h3⟩
  exact .node h3 fun n s4 hn h4 => ⟨⟨a, hn, hargument⟩, h4⟩

/-- An awaited operand is recognized if the operand is. -/
theorem await_reads {argument : Expression} (ha : Recognizes (parse .unary) argument 16) :
    Recognizes (unary parse) (.await argument) 16 := by
  intro s w ws hs hw
  simp only [Expression.words_await, List.cons_append] at hs
  refine .look _ rfl (.look _ rfl ?_)
  show Gives TooDeep (if isOne s.token Operator.unaries = true then _ else _) s _
  rw [hs.isOne_eq, hs.isOne_eq, hs.isOne_eq, if_neg (by decide), if_neg (by decide),
    if_pos (by decide)]
  refine .skip hs (by simp) fun s1 h1 => ?_
  refine (ha s1 w ws h1 hw).bind fun a s2 ⟨hargument, h2⟩ => ?_
  exact .node h2 fun n s3 hn h3 => ⟨⟨a, hn, hargument⟩, h3⟩

end Grammar

end Reflow
