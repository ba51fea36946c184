import Reflow.Proofs.Expression.Accesses
import Reflow.Proofs.Grammar.Expression

/-!
# Expressions are not taken for arrow functions

Where an expression starts with a name or a parenthesis, an arrow function is tried first.  The attempt
may fail in any way, but it must not succeed, and then the parser comes back.

## Key results

- `Readable.noArrow`: no word of an expression is an arrow
- `Readable.parameter`: which expressions look like parameters
- `arrow?_reads`: in front of an expression there is no arrow function
-/

namespace Reflow

/-! ## Words of expressions -/

namespace Expression

/-- The words but arrows. -/
def NoArrow (w : Word) : Prop := w.isOne ["=>"] = false

/-- An operator is not the sign of an arrow function. -/
theorem noArrow_operator {operator : String}
    (h : operator ∈ Operator.unaries ++ Operator.tiers.flatten ++ Operator.assignments) :
    NoArrow (Operator.word operator) := by
  have hall : ∀ text ∈ Operator.unaries ++ Operator.tiers.flatten ++ Operator.assignments,
      (Operator.word text).isOne ["=>"] = false := by decide
  exact hall operator h

/-- Nor is a name. -/
theorem noArrow_name (x : OrdinaryName) : NoArrow (.name x.text) :=
  Word.isOne_of_text x.ordinary (by decide)

/-- Nor is any word behind a first argument. -/
theorem noArrow_moreWords {es : List Expression} (h : ∀ e ∈ es, ∀ w ∈ e.words, NoArrow w) :
    ∀ w ∈ moreWords es, NoArrow w := by
  induction es with
  | nil => exact List.forall_mem_nil _
  | cons e es ih =>
    obtain ⟨he, hes⟩ := List.forall_mem_cons.1 h
    rw [moreWords_cons, List.forall_mem_append, List.forall_mem_cons]
    exact ⟨⟨rfl, he⟩, ih hes⟩

/-- Nor is any word of arguments. -/
theorem noArrow_wordsIn {es : List Expression} (h : ∀ e ∈ es, ∀ w ∈ e.words, NoArrow w) :
    ∀ w ∈ wordsIn es, NoArrow w := by
  cases es with
  | nil => exact List.forall_mem_nil _
  | cons e es =>
    obtain ⟨he, hes⟩ := List.forall_mem_cons.1 h
    rw [wordsIn_cons, List.forall_mem_append]
    exact ⟨he, noArrow_moreWords hes⟩

/-- Nor is the mark of an optional access. -/
theorem noArrow_optional (optional : Bool) :
    ∀ w ∈ if optional then [Word.mark "?."] else [], NoArrow w := by
  cases optional
  · exact List.forall_mem_nil _
  · exact List.forall_mem_singleton.2 rfl

/-- No word of an expression is an arrow. -/
theorem Readable.noArrow {e : Expression} (h : e.Readable) : ∀ w ∈ e.words, NoArrow w := by
  have hnil := List.forall_mem_nil NoArrow
  -- induction on how the expression is read, word by word
  induction h with
  | @name x => exact List.forall_mem_singleton.2 (noArrow_name x)
  | @dotted _ x optional _ _ ih =>
    have hpoint : NoArrow (.mark (if optional then "?." else ".")) := by cases optional <;> rfl
    simp only [words_target, words_dotted, List.forall_mem_append, List.forall_mem_cons]
    exact ⟨ih, hpoint, noArrow_name x, hnil⟩
  | computed _ _ _ iho ihp =>
    simp only [words_target, words_computed, List.forall_mem_append, List.forall_mem_cons, and_assoc]
    exact ⟨iho, noArrow_optional _, rfl, ihp, rfl, hnil⟩
  | group _ ih =>
    simp only [words_group, List.forall_mem_append, List.forall_mem_cons, and_assoc]
    exact ⟨rfl, ih, rfl, hnil⟩
  | @unary operator _ _ _ _ ih =>
    rw [words_unary, List.forall_mem_cons]
    -- no operator is an arrow
    exact ⟨noArrow_operator (by simp [operator.mem_unaries]), ih⟩
  | await _ _ ih =>
    rw [words_await, List.forall_mem_cons]
    exact ⟨rfl, ih⟩
  | @binary operator _ _ _ _ _ _ ihl ihr =>
    rw [words_binary, List.forall_mem_append, List.forall_mem_cons]
    exact ⟨ihl, noArrow_operator (List.mem_append_left _ (List.mem_append_right _ operator.mem_tiers)),
      ihr⟩
  | conditional _ _ _ _ _ _ iht ihc iha =>
    simp only [words_conditional, List.forall_mem_append, List.forall_mem_cons, and_assoc]
    exact ⟨iht, rfl, ihc, rfl, iha⟩
  | call _ _ _ _ ihc ihas =>
    simp only [words_call, List.forall_mem_append, List.forall_mem_cons, and_assoc]
    exact ⟨ihc, noArrow_optional _, rfl, noArrow_wordsIn ihas, rfl, hnil⟩
  | construct _ _ _ _ ihc ihas =>
    simp only [words_construct, List.forall_mem_append, List.forall_mem_cons, and_assoc]
    exact ⟨rfl, ihc, rfl, noArrow_wordsIn ihas, rfl, hnil⟩
  | @assign operator _ _ _ _ _ iht ihv =>
    rw [words_assign, List.forall_mem_append, List.forall_mem_cons]
    exact ⟨iht, noArrow_operator (by simp [operator.mem_assignments]), ihv⟩
  | sequence _ _ _ _ _ _ ihf ihs ihm =>
    simp only [words_sequence, List.forall_mem_append, List.forall_mem_cons, and_assoc]
    exact ⟨ihf, rfl, ihs, noArrow_moreWords ihm⟩

/-- An expression starts with a group, or with no parenthesis. -/
theorem Readable.group_or {e : Expression} (h : e.Readable) :
    (∃ (inner : Expression) (rest : List Word), inner.Readable ∧
      e.words = .mark "(" :: (inner.words ++ .mark ")" :: rest)) ∨
        ∃ w ws, e.words = w :: ws ∧ w.isOne ["("] = false := by
  obtain ⟨lead, hlead⟩ := h.exists_lead
  obtain ⟨more, hmore⟩ := hlead.words
  have hword := hlead.isLead
  -- the lead opens with a parenthesis only where it is a group
  cases hlead.readable with
  | @group inner hinner => exact .inl ⟨inner, more, hinner, by simp [← hmore]⟩
  | @name x =>
    exact .inr ⟨_, more, hmore.symm, Word.isOne_of_text x.ordinary (by decide)⟩
  | @unary operator =>
    have hall : ∀ text ∈ Operator.unaries, (Operator.word text).isOne ["("] = false := by
      decide
    exact .inr ⟨_, _, hmore.symm, hall _ operator.mem_unaries⟩
  | await => exact .inr ⟨_, _, hmore.symm, rfl⟩
  | construct => exact .inr ⟨.name "new", _, by rw [← hmore, words_construct]; rfl, rfl⟩
  | dotted | computed | binary | conditional | call | assign | sequence => cases hword

/-- An expression looks like a parameter if it is a name, maybe with a default. -/
theorem Readable.parameter {e : Expression} (h : e.Readable) (hrank : 1 ≤ e.rank) :
    (∃ x, e = .target (.name x)) ∨
      (∃ x v operator, e = .assign operator (.name x) v ∧ operator.text = "=") ∨
        Thick e.words := by
  -- an assignment may be a name with its default, and anything else has a second word that ends it
  rcases Nat.lt_or_ge e.rank 2 with hlt | hge
  · cases h with
    | @assign operator target value ht =>
      have hsecond := ht.second (Nat.le_trans (by decide) ht.le_rank_target)
      by_cases hoperator : operator.text = "="
      · rcases hsecond with ⟨x, hx⟩ | hthick
        · cases hx
          exact .inr (.inl ⟨_, _, _, rfl, hoperator⟩)
        · exact .inr (.inr (by simpa using hthick.append _))
      · -- only the plain assignment is the mark of a default
        have hall : ∀ text ∈ Operator.assignments, text ≠ "=" →
            (Operator.word text).isOne parameterEnds = false := by decide
        have hends := hall _ operator.mem_assignments hoperator
        exact .inr (.inr (by simpa using thick_append hsecond hends value.words))
    | sequence => simp [rank] at hrank
    -- the other forms bind more than an assignment
    | @binary operator => simp [rank] at hlt; omega
    | dotted _ hobject | computed _ hobject => simp [rank, Target.rank] at hlt; omega
    | _ => simp [rank, Target.rank] at hlt
  · exact (h.second hge).imp_right .inr

/-- An expression is written as expressions with commas between them that are no sequences. -/
theorem Readable.exists_wordsIn {e : Expression} (h : e.Readable) : ∃ d ds,
    e.words = wordsIn (d :: ds) ∧ ∀ c ∈ d :: ds, c.Readable ∧ 1 ≤ c.rank := by
  rcases Nat.eq_zero_or_pos e.rank with hzero | hpos
  · cases h with
    | @sequence first second more hf hfirst hs hsecond hm hmore =>
      refine ⟨first, second :: more, by simp, ?_⟩
      simp only [List.forall_mem_cons]
      exact ⟨⟨hf, by omega⟩, ⟨hs, by omega⟩, fun c hc =>
        ⟨hm c hc, Nat.le_of_succ_le (hmore c hc)⟩⟩
    | dotted _ hobject | computed _ hobject => simp [rank, Target.rank] at hzero; omega
    | _ => simp [rank, Target.rank] at hzero
  · exact ⟨e, [], by simp, by simp [h]; omega⟩

end Expression

namespace Grammar

open Expression (NoArrow Thick parameterEnds)

/-! ## Parameters -/

/-- A failure that is left open. -/
def Anyhow (_ : SourceFault) : Prop := True

/-- The parser stands where no parameter and no list of parameters goes on. -/
def Stuck (s : State) : Prop := ∃ w ws, Stands s (w :: ws) ∧ w.isOne parameterEnds = false

variable {α : Type} {parse : Rule → Parse Node} {s : State} {w : Word} {ws : List Word}

/-- Of an attempt that may fail, the faults do not matter. -/
theorem Gives.anyhow {F : SourceFault → Prop} {x : Parse α} {P : α → State → Prop}
    (h : Gives F x s P) : Gives Anyhow x s P :=
  h.mono (fun _ _ => trivial) fun _ _ h => h

/-- A token that is missing ends an attempt. -/
theorem want_gives {wanted : Wanted} {P : α → State → Prop} : Gives Anyhow (want wanted) s P :=
  .of_error rfl trivial

/-- So it does whatever would follow. -/
theorem want_bind_gives {β : Type} {wanted : Wanted} {f : α → Parse β} {Q : β → State → Prop} :
    Gives Anyhow (want wanted >>= f) s Q :=
  want_gives.bind (P := fun _ _ => False) fun _ _ h => h.elim

/-- If there is a name, it is taken. -/
theorem identifier_tries (hs : Stands s (w :: ws)) (hws : ws ≠ []) :
    Gives Anyhow identifier s fun _ s' => Stands s' ws := by
  refine .look (isName s.token) rfl ?_
  cases isName s.token with
  | false => exact want_bind_gives
  | true => exact .look _ rfl (.take hs hws fun token s1 _ h1 => .node h1 fun _ _ _ h => h)

/-- If a name binds a value, it is taken. -/
theorem bindingTarget_tries (hs : Stands s (w :: ws)) (hws : ws ≠ [])
    (hw : opensExpression w.text = true) :
    Gives Anyhow (bindingTarget parse) s fun _ s' => Stands s' ws := by
  refine .isAt_neg hs (Word.isOne_of_text hw (by decide)) ?_
  refine .isAt_neg hs (Word.isOne_of_text hw (by decide)) (.look (isName s.token) rfl ?_)
  cases isName s.token with
  | false => exact want_gives
  | true => exact identifier_tries hs hws

/-- The rules take the names of parameters and read the values of their defaults. -/
structure Tries (parse : Rule → Parse Node) (bound : Nat) : Prop where
  bindingTarget : ∀ (s : State) (w : Word) (ws : List Word), Stands s (w :: ws) → ws ≠ [] →
    opensExpression w.text = true →
      Gives Anyhow (parse .bindingTarget) s fun _ s' => Stands s' ws
  assignment : ∀ e : Expression, e.Readable → e.words.length < bound → 1 ≤ e.rank →
    Recognizes (parse .assignment) e 1

variable {bound : Nat}

/-- An expression is taken for a parameter, or the parser gets stuck in it. -/
theorem param_tries {e : Expression} (htries : Tries parse bound) (h : e.Readable)
    (hrank : 1 ≤ e.rank) (hlength : e.words.length ≤ bound)
    (hw : w.isOne ["="] = false) (hgrip : w.grip ≤ 1) (hs : Stands s (e.words ++ w :: ws)) :
    Gives Anyhow (param parse) s fun _ s' => Stands s' (w :: ws) ∨ Stuck s' := by
  obtain ⟨v, vs, hwords, hv, -⟩ := h.opens
  have hsv : Stands s (v :: (vs ++ w :: ws)) := by rwa [hwords] at hs
  -- the words open no rest parameter
  refine .look _ rfl (.eat_neg hsv (Word.isOne_of_text hv (by decide)) ?_)
  refine (htries.bindingTarget s v _ hsv (by simp) hv).bind fun target s1 h1 => ?_
  -- a name, a name with a default, or something the parameter cannot take whole
  rcases h.parameter hrank with ⟨x, rfl⟩ | ⟨x, value, operator, rfl, hoperator⟩ | hthick
  · cases hwords
    exact .eat_neg h1 hw (.pure (.inl h1))
  · simp only [Expression.words_assign, Expression.words_name, List.singleton_append,
      List.cons.injEq] at hwords
    obtain ⟨rfl, rfl⟩ := hwords
    cases h with
    | assign ht hvalue hvalueRank =>
      have hread := htries.assignment value hvalue (by
        simp only [Expression.words_assign, List.length_append, List.length_cons] at hlength
        omega)
        hvalueRank
      refine .eat_pos h1 (by simp) (by rw [hoperator]; decide) fun s2 h2 => ?_
      refine (hread s2 w ws h2 hgrip).anyhow.bind fun n s3 ⟨_, h3⟩ => ?_
      exact .node h3 fun _ _ _ h4 => .inl h4
  · -- the word behind the first one ends no parameter
    obtain ⟨v', u, rest, hwords', hu⟩ := hthick
    obtain ⟨rfl, rfl⟩ := List.cons.inj (hwords.symm.trans hwords')
    exact .eat_neg h1 (Word.isOne_of_subset hu (by decide)) (.pure (.inr ⟨u, _, h1, hu⟩))

/-- Behind a parameter, a comma is taken if there is one. -/
theorem item_tries {item : Parse Node} (hws : ws ≠ [])
    (hitem : Gives Anyhow item s fun _ s' => Stands s' (w :: ws) ∨ Stuck s') :
    Gives Anyhow (do
      let a ← item
      return (a, ← eat ",")) s fun r s' =>
        if r.2 = true then w.isOne [","] = true ∧ Stands s' ws
        else (w.isOne [","] = false ∧ Stands s' (w :: ws)) ∨ Stuck s' := by
  refine hitem.bind ?_
  -- the item was read whole, or something stands in the way
  rintro a s1 (h1 | ⟨u, us, h1, hu⟩)
  · cases hw : w.isOne [","] with
    | false => exact .eat_neg h1 hw (.pure (.inl ⟨rfl, h1⟩))
    | true => exact .eat_pos h1 hws hw fun s2 h2 => .pure ⟨rfl, h2⟩
  · exact .eat_neg h1 (Word.isOne_of_subset hu (by decide)) (.pure (.inr ⟨u, us, h1, hu⟩))

/-- Expressions are taken for parameters, or the parser gets stuck in them. -/
theorem params_more {e : Expression} {es : List Expression} (htries : Tries parse bound)
    (hes : ∀ d ∈ e :: es, d.Readable ∧ 1 ≤ d.rank)
    (hlength : ∀ d ∈ e :: es, d.words.length ≤ bound) {n : Nat} (hws : ws ≠ [])
    (hs : Stands s (e.words ++ (Expression.moreWords es ++ .mark ")" :: ws))) :
    Gives Anyhow (collectUpTo (return !(← isAt [")"])) (do
      let a ← param parse
      return (a, ← eat ",")) n) s fun _ s' => Stands s' (.mark ")" :: ws) ∨ Stuck s' := by
  -- induction on the turns that are left
  induction n generalizing e es s with
  | zero => exact .of_error rfl trivial
  | succ n ih =>
    obtain ⟨⟨h, hrank⟩, hes⟩ := List.forall_mem_cons.1 hes
    obtain ⟨hlong, hlength⟩ := List.forall_mem_cons.1 hlength
    refine .look _ rfl (.bind (P := fun go s' => go = true ∧ s' = s) (not_at_close hs h) ?_)
    rintro _ _ ⟨rfl, rfl⟩
    -- the last parameter, with the parenthesis behind it, or one with a comma behind it
    cases es with
    | nil =>
      have hparam := param_tries htries h hrank hlong (by decide) (by decide) hs
      refine (item_tries hws hparam).bind ?_
      rintro ⟨a, goOn⟩ s1 h1
      cases goOn with
      -- a parenthesis is no comma
      | true => exact absurd h1.1 (by decide)
      | false =>
        obtain ⟨-, h1⟩ | ⟨u, us, h1, hu⟩ := h1
        · exact .note h1 fun s2 h2 => .pure (.inl h2)
        · exact .note h1 fun s2 h2 => .pure (.inr ⟨u, us, h2, hu⟩)
    | cons d es =>
      simp only [Expression.moreWords_cons, List.append_assoc, List.cons_append] at hs
      have hparam := param_tries htries h hrank hlong (by decide) (by decide) hs
      refine (item_tries (by simp) hparam).bind ?_
      rintro ⟨a, goOn⟩ s1 h1
      cases goOn with
      | true =>
        exact .note h1.2 fun s2 h2 => (ih hes hlength h2).bind fun as s3 h3 => .pure h3
      | false =>
        -- the comma was there, so that the list goes on
        obtain ⟨hend, -⟩ | ⟨u, us, h1, hu⟩ := h1
        · exact absurd hend (by decide)
        · exact .note h1 fun s2 h2 => .pure (.inr ⟨u, us, h2, hu⟩)

/-- A group is taken for parameters, or for none. -/
theorem params_tries {inner : Expression} (htries : Tries parse bound) (h : inner.Readable)
    (hlength : inner.words.length ≤ bound) (hws : ws ≠ [])
    (hs : Stands s (.mark "(" :: (inner.words ++ .mark ")" :: ws))) :
    Gives Anyhow (params parse) s fun _ s' => Stands s' ws := by
  -- what stands between the parentheses is a list of expressions
  obtain ⟨e, es, hwords, hes⟩ := h.exists_wordsIn
  have hlengths : ∀ d ∈ e :: es, d.words.length ≤ bound := fun d hd =>
    Nat.le_trans (hwords ▸ Expression.length_words_le hd) hlength
  refine .expect hs (by simp) (by decide) fun s1 h1 => ?_
  rw [hwords, Expression.wordsIn_cons, List.append_assoc] at h1
  have hmore := params_more (n := s1.scanner.source.size + 2) htries hes hlengths hws h1
  refine .bind (P := fun _ s' => Stands s' (.mark ")" :: ws) ∨ Stuck s') (.look _ rfl hmore) ?_
  -- the parameters were read whole, and the parenthesis closes them
  rintro ns s2 (h2 | ⟨u, us, h2, hu⟩)
  · exact .expect h2 hws (by decide) fun s3 h3 => .pure h3
  · -- something stands in the way, and it is no parenthesis
    have hclose : u.isOne [")"] = false := Word.isOne_of_subset hu (by decide)
    exact .bind (P := fun _ _ => False) (.isAt_neg h2 hclose want_gives) fun _ _ h => h.elim

/-! ## Arrow functions -/

/-- There is no arrow function where no arrow follows what may be its parameters. -/
theorem arrowHead_fails (hs : Stands s (w :: ws)) (hasync : w.isOne ["async"] = false)
    (hparams : w.isOne ["("] = true → Gives Anyhow (params parse) s fun _ s' =>
      ∃ v vs, Stands s' (v :: vs) ∧ NoArrow v)
    (hname : w.isOne ["("] = false → ∃ v vs, ws = v :: vs ∧ NoArrow v) :
    Gives Anyhow (arrowHead parse) s fun _ _ => False := by
  -- no `async` in front, and no line to ask about
  refine .isAt_neg hs hasync (.look false rfl ?_)
  show Gives _ (if false = true then skip >>= _ else isAt ["("] >>= _) s _
  rw [if_neg Bool.false_ne_true]
  refine .look _ rfl (.look _ rfl ?_)
  extract_lets finish
  -- without an arrow the head fails, whatever its parameters are
  have hfinish : ∀ params s1, (∃ v vs, Stands s1 (v :: vs) ∧ NoArrow v) →
      Gives Anyhow (finish params) s1 fun _ _ => False := by
    rintro params s1 ⟨v, vs, h1, hv⟩
    refine .look _ rfl ?_
    rw [h1.isOne_eq, hv, if_pos (by simp)]
    exact want_bind_gives
  rw [hs.isOne_eq]
  -- the parameters stand in parentheses, or there is one name
  cases hopen : w.isOne ["("] with
  | true => exact (hparams hopen).bind fun params s1 h1 => hfinish params s1 h1
  | false =>
    obtain ⟨v, vs, rfl, hv⟩ := hname hopen
    rw [if_neg Bool.false_ne_true]
    -- what is no name is no parameter either
    cases isName s.token with
    | false => exact want_bind_gives
    | true =>
      refine .bind (P := fun _ s' => Stands s' (v :: vs)) ?_ fun params s1 h1 =>
        hfinish params s1 ⟨v, vs, h1, hv⟩
      exact .map (identifier_tries hs (by simp))

/-- Where there is no arrow function, the parser comes back. -/
theorem arrow?_none (hs : Stands s ws) (hbuilds : Builds (arrowHead parse) fun r => r.1)
    (hfails : Gives Anyhow (arrowHead parse) s fun _ _ => False) :
    Gives TooDeep (arrow? parse) s fun r s' => r = none ∧ Stands s' ws := by
  refine .look _ rfl ?_
  -- an arrow function starts with a parenthesis or a name
  cases (!(isOne s.token ["("] || isName s.token)) with
  | true => exact .pure ⟨rfl, hs⟩
  | false =>
    rw [if_neg Bool.false_ne_true]
    refine .look _ rfl (.look _ rfl ?_)
    -- the head fails, and the parser goes back to where it stood
    rcases hhead : arrowHead parse s with ⟨fault | r, s1⟩
    · have hobserve : observe (arrowHead parse) s = (.ok (.error fault), s1) := by
        rw [observe, hhead]
      have hback := restore_apply hs.ready ((hbuilds s hs.ready).error hhead)
      refine .bind (P := fun r s' => r = .error fault ∧ s' = s1) (.of_ok hobserve ⟨rfl, rfl⟩) ?_
      rintro _ _ ⟨rfl, rfl⟩
      refine .bind (P := fun _ s' => Stands s' ws) (.of_ok hback (hs.congr rfl rfl rfl)) ?_
      exact fun _ s2 h2 => .pure ⟨rfl, h2⟩
    · -- the head cannot have been read
      exact (hfails.ok hhead).elim

/-- In front of an expression there is no arrow function. -/
theorem arrow?_reads {e : Expression} (hp : BuildRules parse) (htries : Tries parse bound)
    (h : e.Readable) (hlength : e.words.length ≤ bound) (hgrip : w.grip ≤ 1)
    (hs : Stands s (e.words ++ w :: ws)) :
    Gives TooDeep (arrow? parse) s fun r s' => r = none ∧ Stands s' (e.words ++ w :: ws) := by
  have hw : NoArrow w := Word.isOne_of_grip hgrip (by decide)
  -- behind any part of the expression the next word is no arrow
  have hnext : ∀ vs us, e.words = vs ++ us → ∃ u rest, us ++ w :: ws = u :: rest ∧ NoArrow u := by
    intro vs us hwords
    cases us with
    | nil => exact ⟨w, ws, rfl, hw⟩
    | cons u us => exact ⟨u, us ++ w :: ws, rfl, h.noArrow u (by simp [hwords])⟩
  refine arrow?_none hs (arrowHead_builds hp) ?_
  obtain ⟨v, vs, hwords, hv, -⟩ := h.opens
  have hsv : Stands s (v :: (vs ++ w :: ws)) := by rwa [hwords] at hs
  refine arrowHead_fails hsv (Word.isOne_of_text hv (by decide)) (fun hopen => ?_) fun _ =>
    hnext [v] vs hwords
  -- the parentheses hold an expression, which may pass for parameters
  obtain ⟨inner, rest, hinner, hgroup⟩ | ⟨v', vs', hwords', hv'⟩ := h.group_or
  · obtain ⟨u, us, hrest, hu⟩ := hnext (.mark "(" :: (inner.words ++ [.mark ")"])) rest
      (by simp [hgroup])
    rw [hgroup, List.cons_append, List.append_assoc, List.cons_append, hrest] at hs
    rw [hgroup, List.length_cons, List.length_append] at hlength
    exact (params_tries htries hinner (by omega) (by simp) hs).mono (fun _ h => h) fun _ s1 h1 =>
      ⟨u, us, h1, hu⟩
  · -- the first word is no parenthesis
    obtain ⟨rfl, rfl⟩ := List.cons.inj (hwords.symm.trans hwords')
    rw [hv'] at hopen
    cases hopen

/-! ## Assignments -/

/-- A word of a small grip does not assign. -/
theorem not_isAssignment (hgrip : w.grip ≤ 1) :
    (w.kind = .punctuator && Operator.isAssignment w.text) = false := by
  rw [Bool.eq_false_iff]
  intro hassign
  unfold Word.grip at hgrip
  split at hgrip
  · omega
  · grind

/-- An operator of an assignment holds the next weakest of operands. -/
theorem grip_assignment (operator : AssignmentOperator) :
    (Operator.word operator.text).grip = 2 ∧
      (Operator.word operator.text).kind = .punctuator := by
  have hall : ∀ text ∈ Operator.assignments, (Operator.word text).grip = 2 ∧
      (Operator.word text).kind = .punctuator := by decide
  exact hall _ operator.mem_assignments

/-- A value can be assigned to what shows a target. -/
theorem isAssignable_of_shows : ∀ {t : Target} {n : Node}, t.Shows n → isAssignable n = true
  | .name _, n, hn => by
    have hn : n.form = _ := hn
    rw [isAssignable, hn]
  | .dotted .., n, ⟨_, _, hn, _⟩ | .computed .., n, ⟨_, _, hn, _⟩ => by rw [isAssignable, hn]

/-- Where no arrow function and no operator that assigns is, a condition is read. -/
theorem assignment_of_conditional {e : Expression} (hp : BuildRules parse)
    (htries : Tries parse bound) (h : e.Readable) (hlength : e.words.length ≤ bound)
    (he : Recognizes (conditional parse) e 1) : Recognizes (assignment parse) e 1 := by
  intro s w ws hs hw
  refine .nested (fun _ h => h) hs fun s1 h1 => ?_
  refine (arrow?_reads hp htries h hlength hw h1).bind ?_
  rintro _ s2 ⟨rfl, h2⟩
  refine .look _ rfl ((he s2 w ws h2 hw).bind fun n s3 ⟨hn, h3⟩ => .look _ rfl ?_)
  rw [h3.kind_eq, h3.text_eq, not_isAssignment hw]
  exact .pure ⟨hn, h3⟩

/-- An assignment. -/
theorem assignment_reads {operator : AssignmentOperator} {target : Target} {value : Expression}
    (hp : BuildRules parse) (htries : Tries parse bound)
    (h : (Expression.assign operator target value).Readable)
    (hlength : (Expression.assign operator target value).words.length ≤ bound)
    (htarget : Recognizes (conditional parse) (.target target) 2)
    (hvalue : Recognizes (parse .assignment) value 1) :
    Recognizes (assignment parse) (.assign operator target value) 1 := by
  intro s w ws hs hw
  -- the operator grips no target, and the parser knows it as an operator
  obtain ⟨hgrip, hkind⟩ := grip_assignment operator
  refine .nested (fun _ h => h) hs fun s1 h1 => ?_
  -- what stands here is no arrow function
  refine (arrow?_reads hp htries h hlength hw h1).bind ?_
  rintro _ s2 ⟨rfl, h2⟩
  rw [Expression.words_assign, List.append_assoc, List.cons_append] at h2
  refine .look _ rfl ((htarget s2 _ _ h2 (Nat.le_of_eq hgrip)).bind fun n s3 ⟨hn, h3⟩ => ?_)
  refine .look _ rfl ?_
  -- the target is one that may be assigned to
  rw [h3.kind_eq, h3.text_eq, hkind, Expression.text_word, operator.isAssignment]
  show Gives _ (if (!isAssignable n) = true then _ else _) s3 _
  rw [isAssignable_of_shows hn]
  refine .skip h3 (by simp) fun s4 h4 => ?_
  refine (hvalue s4 w ws h4 hw).bind fun v s5 ⟨hv, h5⟩ => ?_
  exact .node h5 fun m s6 hm h6 => ⟨⟨n, v, hm, hn, hv⟩, h6⟩

end Grammar

end Reflow
