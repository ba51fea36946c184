import Reflow.Proofs.Expression.Reading

/-!
# Reading accesses and calls

A value is a name, a group or a new object, and accesses and calls go on behind it.  The loop that
reads them is followed from the inside to the outside: to read an expression, it is enough to know how
the loop goes on when it has come as far as the expression.

## Key results

- `ReadsBelow`: the rules read all shorter expressions
- `Goes`: how the loop goes on behind an expression
- `callMember_reads`: the rule for accesses and calls
-/

namespace Reflow.Grammar

/-- The rank that the rule for accesses and calls demands. -/
def callRank (allowCall : Bool) : Nat := if allowCall then 17 else 18

/-- The rules read the readable expressions of fewer words than the bound. -/
structure ReadsBelow (parse : Rule → Parse Node) (bound : Nat) : Prop where
  expression : ∀ e : Expression, e.Readable → e.words.length < bound → Recognizes (parse .expression) e 0
  assignment : ∀ e : Expression, e.Readable → e.words.length < bound → 1 ≤ e.rank →
    Recognizes (parse .assignment) e 1
  binary : ∀ e : Expression, e.Readable → e.words.length < bound → ∀ tier ≤ 13, 3 + tier ≤ e.rank →
    Recognizes (parse (.binary tier)) e (3 + tier)
  unary : ∀ e : Expression, e.Readable → e.words.length < bound → 16 ≤ e.rank →
    Recognizes (parse .unary) e 16
  callMember : ∀ e : Expression, e.Readable → e.words.length < bound →
    ∀ allowCall, callRank allowCall ≤ e.rank →
      Recognizes (parse (.callMember allowCall)) e (callRank allowCall)

/-- A loop that has read the expression goes on with the words. -/
def Goes (step : Node → Parse (Option Node)) (e : Expression) (ws : List Word)
    (Q : Node → State → Prop) : Prop :=
  ∀ v s n, e.Shows v → Stands s ws → ws.length ≤ n → Gives TooDeep (extendUpTo step n v) s Q

section Goes

variable {step : Node → Parse (Option Node)} {e larger : Expression} {w : Word} {ws ws' : List Word}
  {Q : Node → State → Prop}

/-- One more round. -/
theorem Goes.round (hlarger : Goes step larger ws' Q) (hlength : ws'.length < ws.length)
    (hstep : ∀ v s, e.Shows v → Stands s ws → Gives TooDeep (step v) s fun r s' =>
      (∃ v', r = some v' ∧ larger.Shows v') ∧ Stands s' ws') : Goes step e ws Q := by
  intro v s n hv hs hn
  obtain ⟨n, rfl⟩ := Nat.exists_eq_succ_of_ne_zero (by omega : n ≠ 0)
  refine .look _ rfl ((hstep v s hv hs).bind ?_)
  rintro _ s' ⟨⟨v', rfl, hv'⟩, hs'⟩
  exact .note hs' fun s'' hs'' => hlarger v' s'' n hv' hs'' (by omega)

/-- The loop stops in front of a word. -/
theorem Goes.stop (hstep : ∀ v s, Stands s (w :: ws) →
      Gives TooDeep (step v) s fun r s' => r = none ∧ Stands s' (w :: ws))
    (hQ : ∀ v s, e.Shows v → Stands s (w :: ws) → Q v s) : Goes step e (w :: ws) Q := by
  intro v s n hv hs hn
  obtain ⟨n, rfl⟩ := Nat.exists_eq_succ_of_ne_zero (Nat.ne_of_gt (Nat.zero_lt_of_lt hn))
  refine .look _ rfl ((hstep v s hs).bind ?_)
  rintro _ s' ⟨rfl, hs'⟩
  exact .pure (hQ v s' hv hs')

/-- There are rounds enough behind the first value. -/
theorem Goes.extend {v : Node} {s : State} (h : Goes step e ws Q) (hv : e.Shows v)
    (hs : Stands s ws) : Gives TooDeep (extend step v) s Q :=
  .look _ rfl (h v s _ hv hs (Nat.le_succ_of_le hs.room))

end Goes

/-! ### Values -/

variable {parse : Rule → Parse Node} {ws : List Word} {s : State}

/-- An ordinary name is read as an identifier. -/
theorem primary_name {x : OrdinaryName} (hs : Stands s (.name x.text :: ws)) (hws : ws ≠ []) :
    Gives TooDeep (primary parse) s fun v s' => (Expression.target (.name x)).Shows v ∧
      Stands s' ws := by
  have hordinary := x.ordinary
  have hreserved : reserved.contains x.text = false := by
    rw [isOrdinary, Bool.and_eq_true, Bool.and_eq_true, Bool.not_eq_true'] at hordinary
    exact hordinary.1.2
  -- no word with an expression of its own is an ordinary name
  have hword : wordExpression parse s.token.span.start x.text = identifier := by
    unfold wordExpression
    split
    all_goals first
      | rfl
      | exact absurd x.ordinary (by rw [‹x.text = _›]; decide)
  refine .look _ rfl (.look _ rfl ?_)
  rw [hs.kind_eq, hs.text_eq]
  show Gives TooDeep (wordExpression parse s.token.span.start x.text) s _
  rw [hword]
  exact .identifier hs hws hreserved

/-- What stands in parentheses. -/
theorem primary_group {inner : Expression} (hinner : Recognizes (parse .expression) inner 0)
    (hs : Stands s ((Expression.group inner).words ++ ws)) (hws : ws ≠ []) :
    Gives TooDeep (primary parse) s fun v s' => (Expression.group inner).Shows v ∧
      Stands s' ws := by
  simp only [Expression.words_group, List.append_assoc, List.cons_append, List.nil_append] at hs
  refine .look _ rfl (.look _ rfl ?_)
  rw [hs.kind_eq, hs.text_eq]
  refine .skip hs (by simp) fun s1 h1 => (hinner s1 _ _ h1 (by decide)).bind fun v s2 ⟨hv, h2⟩ => ?_
  exact .expect h2 hws (by decide) fun s3 h3 => .pure ⟨hv, h3⟩

/-- A new object and its arguments. -/
theorem newExpression_reads {callee : Expression} {arguments : List Expression}
    (hcallee : Recognizes (parse (.callMember false)) callee 18)
    (hreadable : ∀ d ∈ arguments, d.Readable)
    (harguments : ∀ d ∈ arguments, Recognizes (parse .assignment) d 1)
    (hs : Stands s ((Expression.construct callee arguments).words ++ ws)) (hws : ws ≠ []) :
    Gives TooDeep (newExpression parse) s fun v s' =>
      (Expression.construct callee arguments).Shows v ∧ Stands s' ws := by
  -- `new`, the callee without its calls, and the arguments
  simp only [Expression.words_construct, List.append_assoc, List.cons_append, List.nil_append] at hs
  refine .look _ rfl (.expect hs (by simp) (by decide) fun s1 h1 => ?_)
  refine (hcallee s1 _ _ h1 (by decide)).bind fun c s2 ⟨hc, h2⟩ => ?_
  refine .isAt_pos h2 (by decide) ((arguments_reads hreadable harguments h2 hws).bind ?_)
  rintro as s3 ⟨has, h3⟩
  exact .node h3 fun n s4 hn h4 => ⟨⟨c, as, hn, hc, has⟩, h4⟩

/-! ### What follows a value -/

section Suffix

variable {allowCall : Bool} {start : Position} {v : Node} {object property callee : Expression}
  {arguments : List Expression}

/-- A name behind a point. -/
theorem propertyName_reads {x : OrdinaryName} (hs : Stands s (.name x.text :: ws)) (hws : ws ≠ []) :
    Gives TooDeep propertyName s fun p s' => p.form = .identifier x.text ∧ Stands s' ws := by
  refine .look _ rfl (.look (s.token.kind == .name) rfl ?_)
  rw [hs.kind_eq]
  refine .take hs hws fun token s1 htoken h1 => .node h1 fun n s2 hn h2 => ⟨?_, h2⟩
  rw [hn, show token.text = x.text from congrArg Word.text htoken]

/-- An expression in brackets. -/
theorem computedKey_reads (hproperty : Recognizes (parse .expression) property 0)
    (hs : Stands s (.mark "[" :: (property.words ++ .mark "]" :: ws))) (hws : ws ≠ []) :
    Gives TooDeep (computedKey parse) s fun p s' => property.Shows p ∧ Stands s' ws := by
  refine .skip hs (by simp) fun s1 h1 => ?_
  refine (hproperty s1 _ _ h1 (by decide)).bind fun p s2 ⟨hp, h2⟩ => ?_
  exact .expect h2 hws (by decide) fun s3 h3 => .pure ⟨hp, h3⟩

/-- An ordinary name is no bracket. -/
theorem isOne_name_eq_false (x : OrdinaryName) {values : List String}
    (hvalues : values.all (fun v => !isOrdinary v) = true) :
    (Word.name x.text).isOne values = false :=
  Word.isOne_of_text x.ordinary hvalues

/-- An access by a name. -/
theorem suffix_dotted {x : OrdinaryName} {optional : Bool} (hobject : object.Shows v)
    (hs : Stands s (.mark (if optional then "?." else ".") :: .name x.text :: ws)) (hws : ws ≠ []) :
    Gives TooDeep (suffix parse allowCall start v) s fun r s' =>
      (∃ v', r = some v' ∧ (Expression.target (.dotted object x optional)).Shows v') ∧
        Stands s' ws := by
  -- the point, and with it the mark that may stand in its place
  cases optional with
  | false =>
    refine .isAt_pos hs (by decide) (.skip hs (by simp) fun s1 h1 => ?_)
    refine (propertyName_reads h1 hws).bind fun p s2 ⟨hp, h2⟩ => .map ?_
    exact .node h2 fun n s3 hn h3 => ⟨⟨n, rfl, v, p, hn, hobject, hp⟩, h3⟩
  | true =>
    refine .isAt_neg hs (by decide) (.isAt_pos hs (by decide) (.skip hs (by simp) fun s1 h1 => ?_))
    refine .look _ rfl ?_
    -- the name behind the mark opens neither arguments nor a bracket
    rw [h1.isOne_eq, isOne_name_eq_false x (by decide), Bool.and_false, if_neg (by simp)]
    refine .isAt_neg h1 (isOne_name_eq_false x (by decide)) ?_
    refine (propertyName_reads h1 hws).bind fun p s2 ⟨hp, h2⟩ => .map ?_
    exact .node h2 fun n s3 hn h3 => ⟨⟨n, rfl, v, p, hn, hobject, hp⟩, h3⟩

/-- An access by an expression in brackets. -/
theorem suffix_computed {optional : Bool} (hobject : object.Shows v)
    (hproperty : Recognizes (parse .expression) property 0)
    (hs : Stands s ((if optional then [Word.mark "?."] else []) ++
      .mark "[" :: (property.words ++ .mark "]" :: ws))) (hws : ws ≠ []) :
    Gives TooDeep (suffix parse allowCall start v) s fun r s' =>
      (∃ v', r = some v' ∧ (Expression.target (.computed object property optional)).Shows v') ∧
        Stands s' ws := by
  -- the bracket, and with it the mark that may stand in front
  cases optional with
  | false =>
    refine .isAt_neg hs (by decide) (.isAt_neg hs (by decide) (.isAt_pos hs (by decide) ?_))
    refine (computedKey_reads hproperty hs hws).bind fun p s2 ⟨hp, h2⟩ => .map ?_
    exact .node h2 fun n s3 hn h3 => ⟨⟨n, rfl, v, p, hn, hobject, hp⟩, h3⟩
  | true =>
    refine .isAt_neg hs (by decide) (.isAt_pos hs (by decide) (.skip hs (by simp) fun s1 h1 => ?_))
    refine .look _ rfl ?_
    rw [h1.isOne_eq, show (Word.mark "[").isOne ["("] = false by decide, Bool.and_false,
      if_neg (by simp)]
    refine .isAt_pos h1 (by decide) ?_
    refine (computedKey_reads hproperty h1 hws).bind fun p s2 ⟨hp, h2⟩ => .map ?_
    exact .node h2 fun n s3 hn h3 => ⟨⟨n, rfl, v, p, hn, hobject, hp⟩, h3⟩

/-- A call, where calls are allowed. -/
theorem suffix_call {optional : Bool} (hcallee : callee.Shows v)
    (hreadable : ∀ d ∈ arguments, d.Readable)
    (harguments : ∀ d ∈ arguments, Recognizes (parse .assignment) d 1)
    (hs : Stands s ((if optional then [Word.mark "?."] else []) ++
      .mark "(" :: (Expression.wordsIn arguments ++ .mark ")" :: ws))) (hws : ws ≠ []) :
    Gives TooDeep (suffix parse true start v) s fun r s' =>
      (∃ v', r = some v' ∧ (Expression.call callee arguments optional).Shows v') ∧
        Stands s' ws := by
  -- the arguments, and with them the mark that may stand in front
  cases optional with
  | false =>
    refine .isAt_neg hs (by decide) (.isAt_neg hs (by decide) (.isAt_neg hs (by decide) ?_))
    refine .isAt_pos hs (by decide) ((arguments_reads hreadable harguments hs hws).bind ?_)
    rintro as s2 ⟨has, h2⟩
    exact .map (.node h2 fun n s3 hn h3 => ⟨⟨n, rfl, v, as, hn, hcallee, has⟩, h3⟩)
  | true =>
    refine .isAt_neg hs (by decide) (.isAt_pos hs (by decide) (.skip hs (by simp) fun s1 h1 => ?_))
    refine .isAt_pos h1 (by decide) ((arguments_reads hreadable harguments h1 hws).bind ?_)
    rintro as s2 ⟨has, h2⟩
    exact .map (.node h2 fun n s3 hn h3 => ⟨⟨n, rfl, v, as, hn, hcallee, has⟩, h3⟩)

/-- Nothing follows in front of a word that does not grip a value. -/
theorem suffix_none {w : Word} (hs : Stands s (w :: ws)) (hw : w.grip ≤ callRank allowCall) :
    Gives TooDeep (suffix parse allowCall start v) s fun r s' => r = none ∧ Stands s' (w :: ws) := by
  have hw18 : w.grip ≤ 18 := Nat.le_trans hw (by cases allowCall <;> decide)
  have hcall : (allowCall && w.isOne ["("]) = false := by
    cases allowCall with
    | false => rfl
    | true => exact Word.isOne_of_grip hw (by decide)
  refine .isAt_neg hs (Word.isOne_of_grip hw18 (by decide)) ?_
  refine .isAt_neg hs (Word.isOne_of_grip hw18 (by decide)) ?_
  refine .isAt_neg hs (Word.isOne_of_grip hw18 (by decide)) (.look _ rfl ?_)
  rw [hs.isOne_eq, hcall, if_neg (by simp)]
  exact .isAt_neg hs (Word.isOne_of_grip hw18 (by decide)) (.pure ⟨rfl, hs⟩)

end Suffix

/-! ### The loop -/

section Loop

variable {e : Expression} {allowCall : Bool} {bound : Nat} {Q : Node → State → Prop}

/-- The rule reads a value that is no new object, and then goes on with the loop. -/
theorem callMember_of_primary {w : Word} (hs : Stands s (w :: ws)) (hw : w.isOne ["new"] = false)
    {ws' : List Word} (hgoes : Goes (suffix parse allowCall s.token.span.start) e ws' Q)
    (hvalue : Gives TooDeep (primary parse) s fun v s' => e.Shows v ∧ Stands s' ws') :
    Gives TooDeep (callMember parse allowCall) s Q :=
  .look _ rfl (.isAt_neg hs hw (hvalue.bind fun _ _ ⟨hv, hs'⟩ => hgoes.extend hv hs'))

/-- The rule comes to where the loop has read the expression. -/
theorem callMember_of_goes (h : e.Readable) (hrank : callRank allowCall ≤ e.rank)
    (hbelow : ReadsBelow parse bound) (hlength : e.words.length ≤ bound)
    (hs : Stands s (e.words ++ ws)) (hws : ws ≠ [])
    (hgoes : Goes (suffix parse allowCall s.token.span.start) e ws Q) :
    Gives TooDeep (callMember parse allowCall) s Q := by
  -- induction on how the expression is read, whose object or callee stands in front of the suffix
  induction h generalizing ws with
  -- a primary opens the chain
  | @name x =>
    exact callMember_of_primary hs (isOne_name_eq_false x (by decide)) hgoes
      (primary_name hs hws)
  | @group inner h =>
    have hs' := hs
    simp only [Expression.words_group, List.append_assoc, List.cons_append, List.length_append,
      List.length_cons] at hs' hlength
    have hinner := hbelow.expression inner h (by omega)
    exact callMember_of_primary hs' (by decide) hgoes (primary_group hinner hs hws)
  -- so does `new`, whose callee must not be called
  | @construct callee arguments hc hcallee has hranks =>
    have hs' := hs
    simp only [Expression.words_construct, List.append_assoc, List.cons_append, List.length_append,
      List.length_cons] at hs' hlength
    have hread := hbelow.callMember callee hc (by omega) false hcallee
    have harguments : ∀ d ∈ arguments, Recognizes (parse .assignment) d 1 := fun d hd =>
      hbelow.assignment d (has d hd) (by
        have := Expression.length_words_le hd
        omega) (hranks d hd)
    refine .look _ rfl (.isAt_pos hs' (by decide) ?_)
    exact (newExpression_reads hread has harguments hs hws).bind fun _ _ ⟨hv, hs'⟩ =>
      hgoes.extend hv hs'
  -- a suffix: the object is read first, and the loop goes round once more for it
  | @dotted object x optional ho hobject ih =>
    have hobject : callRank allowCall ≤ object.rank := Nat.le_trans hrank (Nat.min_le_right ..)
    simp only [Expression.words_target, Expression.words_dotted, List.append_assoc, List.cons_append,
      List.nil_append, List.length_append] at hs hlength
    refine ih hobject (by omega) hs (by simp)
      (hgoes.round (by simp only [List.length_cons]; omega) fun v s1 hv h1 => ?_)
    exact suffix_dotted hv h1 hws
  | @computed object property optional ho hobject hp iho ihp =>
    have hobject : callRank allowCall ≤ object.rank := Nat.le_trans hrank (Nat.min_le_right ..)
    simp only [Expression.words_target, Expression.words_computed, List.append_assoc, List.cons_append,
      List.nil_append, List.length_append, List.length_cons] at hs hlength
    have hproperty := hbelow.expression property hp (by omega)
    refine iho hobject (by omega) hs (by simp)
      (hgoes.round (by simp only [List.length_append, List.length_cons]; omega) fun v s1 hv h1 => ?_)
    exact suffix_computed hv hproperty h1 hws
  | @call callee arguments optional hc hcallee has hranks ih =>
    -- where no calls are allowed the rank is too small for one
    cases allowCall with
    | false => exact absurd hrank (Nat.not_le_of_lt (Nat.lt_succ_self 17))
    | true =>
      simp only [Expression.words_call, List.append_assoc, List.cons_append, List.nil_append,
        List.length_append, List.length_cons] at hs hlength
      have harguments : ∀ d ∈ arguments, Recognizes (parse .assignment) d 1 := fun d hd =>
        hbelow.assignment d (has d hd) (by
          have := Expression.length_words_le hd
          omega) (hranks d hd)
      refine ih hcallee (by omega) hs (by simp)
        (hgoes.round (by simp only [List.length_append, List.length_cons]; omega) fun v s1 hv h1 => ?_)
      exact suffix_call hv has harguments h1 hws
  -- the other forms bind less than a call does
  | @binary operator =>
    have := Operator.precedence_le operator.text
    have : callRank allowCall ≤ 15 := Nat.le_trans hrank (by simp only [Expression.rank]; omega)
    cases allowCall <;> simp [callRank] at this
  | unary | await | conditional | assign | sequence =>
    cases allowCall <;> simp [callRank, Expression.rank] at hrank

/-- The rule for accesses and calls reads what binds as tightly as it demands. -/
theorem callMember_reads (h : e.Readable) (hrank : callRank allowCall ≤ e.rank)
    (hbelow : ReadsBelow parse bound) (hlength : e.words.length ≤ bound) :
    Recognizes (callMember parse allowCall) e (callRank allowCall) := fun _ _ _ hs hw =>
  callMember_of_goes h hrank hbelow hlength hs (by simp)
    (.stop (fun _ _ h1 => suffix_none h1 hw) fun _ _ hv h2 => ⟨hv, h2⟩)

end Loop

end Reflow.Grammar
