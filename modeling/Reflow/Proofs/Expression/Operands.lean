import Reflow.Proofs.Expression.Accesses

/-!
# Reading operators and their operands

A loop reads operators and right operands behind the first operand.  It is followed as the loop of
accesses is; the right operand of an operator ends in front of an operator that may follow it.

## Key results

- `Word.grip_operator`: an operator grips what binds more tightly than itself
- `binary_reads`: the rule for binary operators
-/

namespace Reflow

/-- The tier at which the right operand of an operator is read: powers group from the right. -/
def Operator.rightTier (operator : String) : Nat :=
  if operator == "**" then precedence operator else precedence operator + 1

/-- The greatest grip of a word that may follow the expression as an operand. -/
def Expression.slack : Expression → Nat
  | .binary operator _ _ => 3 + Operator.rightTier operator.text
  | _ => 16

/-- The operand on the right is at most one tier above the operator. -/
theorem Operator.rightTier_le (operator : String) : rightTier operator ≤ precedence operator + 1 := by
  unfold rightTier
  split <;> omega

/-- It is not below the operator. -/
theorem Operator.precedence_le_rightTier (operator : String) :
    precedence operator ≤ rightTier operator := by
  unfold rightTier
  split <;> omega

/-- Only powers are on the last tier. -/
theorem BinaryOperator.precedence_lt (operator : BinaryOperator) (h : operator.text ≠ "**") :
    Operator.precedence operator.text < 12 := by
  have hall : ∀ text ∈ Operator.tiers.flatten, text ≠ "**" → Operator.precedence text < 12 := by
    decide
  exact hall _ operator.mem_tiers h

/-- The word of an operator is that operator. -/
theorem Word.operator?_word (operator : BinaryOperator) :
    (Operator.word operator.text).operator? = some operator.text := by
  have hall : ∀ text ∈ Operator.tiers.flatten, (Operator.word text).operator? = some text := by
    decide
  exact hall _ operator.mem_tiers

/-- An operator grips what binds more tightly than itself. -/
theorem Word.grip_operator (operator : BinaryOperator) :
    (Operator.word operator.text).grip = 4 + Operator.precedence operator.text := by
  rw [grip, operator?_word]

namespace Expression

/-- What an operator demands of an operand is a chain of operators or binds more tightly. -/
theorem Readable.binary_or_tight {e : Expression} (h : e.Readable) (hrank : 3 ≤ e.rank) :
    (∃ operator left right, e = .binary operator left right) ∨ (16 ≤ e.rank ∧ e.slack = 16) := by
  cases h with
  | binary => exact .inl ⟨_, _, _, rfl⟩
  | name | group | unary | await | construct | call =>
    exact .inr ⟨by simp [rank, Target.rank], rfl⟩
  | dotted _ hobject | computed _ hobject =>
    exact .inr ⟨Nat.le_min.2 ⟨by decide, Nat.le_of_succ_le hobject⟩, rfl⟩
  | conditional | assign | sequence => simp [rank] at hrank

/-- A left operand ends in front of its operator. -/
theorem Readable.grip_le_slack {left : Expression} (h : left.Readable) {operator : BinaryOperator}
    (hleft : Operator.leftRank operator.text ≤ left.rank) :
    (Operator.word operator.text).grip ≤ left.slack := by
  have hprecedence := Operator.precedence_le operator.text
  have hthree := Nat.le_trans (Operator.le_leftRank operator.text) hleft
  -- the operator grips as much as its precedence
  rw [Word.grip_operator]
  -- the left side is an operation, or it is tight and leaves no room to grip
  rcases h.binary_or_tight (by omega) with ⟨inner, l, r, rfl⟩ | ⟨-, hslack⟩
  · have hinner := Operator.precedence_le inner.text
    -- the power operator takes no operation on its left
    have hpower : operator.text ≠ "**" := by
      intro hpower
      rw [Operator.leftRank, if_pos hpower] at hleft
      simp only [rank] at hleft
      omega
    have hlt := operator.precedence_lt hpower
    rw [Operator.leftRank, if_neg hpower] at hleft
    simp only [rank, slack, Operator.rightTier] at hleft ⊢
    -- two powers on the left are excluded by the rank
    split
    · rename_i hinner
      have : Operator.precedence "**" = 12 := by decide
      rw [beq_iff_eq.1 hinner]
      omega
    · omega
  · rw [hslack]
    omega

end Expression

namespace Grammar

/-- One round of the loop: an operator and its right operand behind what has been read. -/
def operation (parse : Rule → Parse Node) (least : Nat) (start : Position) (left : Node) :
    Parse (Option Node) := do
  match binaryOperator? (← ahead) with
  | none => return none
  | some operator =>
    let tier := Operator.precedence operator
    if tier < least then return none
    skip
    let right ← parse (.binary (if operator == "**" then tier else tier + 1))
    return some (← node start (.operation operator left right))

/-- An operation is a first operand that is extended by an operator and an operand at a time. -/
theorem binary_eq (parse : Rule → Parse Node) (least : Nat) : binary parse least = (do
    let start ← startAhead
    let first ← parse .unary
    extend (operation parse least start) first) := rfl

variable {parse : Rule → Parse Node} {least : Nat} {s : State} {w : Word} {ws : List Word}

/-- The operator ahead is that of the first word. -/
theorem Stands.operator?_eq (h : Stands s (w :: ws)) : binaryOperator? s.token = w.operator? := by
  rw [← h.word_eq]
  rfl

/-- An operator and its right operand. -/
theorem operation_reads {operator : BinaryOperator} {left right : Expression} {start : Position}
    {v : Node} (hleast : least ≤ Operator.precedence operator.text) (hleft : left.Shows v)
    (hright : Recognizes (parse (.binary (Operator.rightTier operator.text))) right
      (3 + Operator.rightTier operator.text))
    (hs : Stands s (Operator.word operator.text :: (right.words ++ w :: ws)))
    (hw : w.grip ≤ 3 + Operator.rightTier operator.text) :
    Gives TooDeep (operation parse least start v) s fun r s' =>
      (∃ v', r = some v' ∧ (Expression.binary operator left right).Shows v') ∧
        Stands s' (w :: ws) := by
  -- the operator is one, and binds at least as much as is asked for
  refine .look _ rfl ?_
  rw [hs.operator?_eq, Word.operator?_word]
  show Gives TooDeep (if Operator.precedence operator.text < least then _ else _) s _
  rw [if_neg (Nat.not_lt.2 hleast)]
  refine .skip hs (by simp) fun s1 h1 => ?_
  -- the right side is read up to what binds less
  refine (hright s1 w ws h1 hw).bind fun r s2 ⟨hr, h2⟩ => ?_
  refine .bind (P := fun n s' => (Expression.binary operator left right).Shows n ∧
    Stands s' (w :: ws)) (.node h2 fun n s3 hn h3 => ⟨⟨v, r, hn, hleft, hr⟩, h3⟩) ?_
  exact fun n s3 ⟨hn, h3⟩ => .pure ⟨⟨n, rfl, hn⟩, h3⟩

/-- The loop stops in front of a word that grips no further than its own operators. -/
theorem operation_none {start : Position} {v : Node} (hs : Stands s (w :: ws))
    (hw : w.grip ≤ 3 + least) :
    Gives TooDeep (operation parse least start v) s fun r s' => r = none ∧ Stands s' (w :: ws) := by
  refine .look _ rfl ?_
  rw [hs.operator?_eq]
  cases h : w.operator? with
  | none => exact .pure ⟨rfl, hs⟩
  | some operator =>
    rw [Word.grip, h] at hw
    show Gives TooDeep (if Operator.precedence operator < least then _ else _) s _
    rw [if_pos (show Operator.precedence operator < least by simp only at hw; omega)]
    exact .pure ⟨rfl, hs⟩

/-- The rule reads its first operand and then goes on with the loop. -/
theorem binary_of_unary {e : Expression} {Q : Node → State → Prop} (he : Recognizes (parse .unary) e 16)
    (hs : Stands s (e.words ++ w :: ws)) (hw : w.grip ≤ 16)
    (hgoes : Goes (operation parse least s.token.span.start) e (w :: ws) Q) :
    Gives TooDeep (binary parse least) s Q := by
  rw [binary_eq]
  exact .look _ rfl ((he s w ws hs hw).bind fun v s1 ⟨hv, h1⟩ => hgoes.extend hv h1)

/-- The rule comes to where the loop has read the expression. -/
theorem binary_of_goes {e : Expression} {bound : Nat} {Q : Node → State → Prop} (h : e.Readable)
    (hrank : 3 + least ≤ e.rank) (hbelow : ReadsBelow parse bound)
    (hunary : ∀ d : Expression, d.Readable → d.words.length ≤ bound → 16 ≤ d.rank →
      Recognizes (parse .unary) d 16)
    (hlength : e.words.length ≤ bound) (hs : Stands s (e.words ++ w :: ws))
    (hw : w.grip ≤ e.slack)
    (hgoes : Goes (operation parse least s.token.span.start) e (w :: ws) Q) :
    Gives TooDeep (binary parse least) s Q := by
  have he := h
  -- induction on how the expression is read, whose left side is read in front of the operator
  induction h generalizing w ws with
  | @binary operator left right hl hleft hr hright ih =>
    have hrankLeft := Nat.le_trans (Operator.le_leftRank operator.text) hleft
    have htier := Operator.rightTier_le operator.text
    have hprecedence := Operator.precedence_le operator.text
    simp only [Expression.words_binary, List.append_assoc, List.cons_append, List.length_append,
      List.length_cons, Expression.rank] at hs hlength hrank
    have hread := hbelow.binary right hr (by omega) (Operator.rightTier operator.text) (by omega)
      (by omega)
    -- the left side is read first, and the loop goes round once more for the operator
    refine ih (by omega) (by omega) hs (hl.grip_le_slack hleft) ?_ hl
    refine hgoes.round (by simp only [List.length_append, List.length_cons]; omega) fun v s1 hv h1 => ?_
    exact operation_reads (by omega) hv hread h1 hw
  -- any other expression is tight, and read as the first operand
  | _ =>
    obtain ⟨_, _, _, hbinary⟩ | ⟨htight, hslack⟩ := he.binary_or_tight (by omega)
    · cases hbinary
    · exact binary_of_unary (hunary _ he hlength htight) hs (hslack ▸ hw) hgoes

/-- The rule for binary operators reads what binds as tightly as it demands. -/
theorem binary_reads {e : Expression} {bound : Nat} (h : e.Readable) (hleast : least ≤ 13)
    (hrank : 3 + least ≤ e.rank) (hbelow : ReadsBelow parse bound)
    (hunary : ∀ d : Expression, d.Readable → d.words.length ≤ bound → 16 ≤ d.rank →
      Recognizes (parse .unary) d 16)
    (hlength : e.words.length ≤ bound) : Recognizes (binary parse least) e (3 + least) := by
  intro s w ws hs hw
  -- what binds at most so much leaves all of the expression to it
  have hslack : 3 + least ≤ e.slack := by
    rcases h.binary_or_tight (by omega) with ⟨operator, left, right, rfl⟩ | ⟨-, hslack⟩
    · have := Operator.precedence_le_rightTier operator.text
      simp only [Expression.rank, Expression.slack] at hrank ⊢
      omega
    · omega
  -- the word behind the expression is no operator that binds enough
  exact binary_of_goes h hrank hbelow hunary hlength hs (Nat.le_trans hw hslack)
    (.stop (fun _ _ h1 => operation_none h1 hw) fun _ _ hv h2 => ⟨hv, h2⟩)

end Grammar

end Reflow
