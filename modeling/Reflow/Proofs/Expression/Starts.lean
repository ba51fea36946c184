import Reflow.Print.Statement
import Reflow.Proofs.Expression.Reading

/-!
# The start of a line

Where semicolons are left out, the printer looks along the left edge of a statement for what could
continue the line before it.  If there is nothing of the kind, then the first word of the expression
grips no operand: nothing that ends before it goes on with it.

## Key results

- `Path.continuesLine_left`: the left side of what continues no line continues none either
- `Word.grip_of_opensFreely`: the words in front that go on with nothing
- `Expression.startsFree`: an expression that continues no line starts with such a word
-/

namespace Reflow

variable {options : Options} {a : Attachments} {p : Path} {e : Expression}

namespace Path

/-- What continues no line has neither parentheses nor a sign in front, and its left side continues
none. -/
theorem continuesLine_eq_false (h : p.continuesLine options a = false) :
    p.needsParens = false ∧
    (p.node.form matches .arrayExpression .. | .templateLiteral .. | .unaryExpression "+" _
        | .unaryExpression "-" _) = false ∧
    ∀ place n, p.node.hasNakedLeftSide = true → p.node.leftSide? = some (place, n) →
      (p.childAt place n).continuesLine options a = false := by
  rw [continuesLine, Bool.if_true_left, Bool.or_eq_false_iff, decide_eq_false_iff_not] at h
  -- none of the reasons holds by which the line would go on
  obtain ⟨hnone, h⟩ := h
  simp only [Bool.or_eq_true, not_or, Bool.not_eq_true] at hnone
  obtain ⟨⟨⟨hparens, -⟩, hform⟩, -⟩ := hnone
  refine ⟨hparens, hform, fun place n hnaked hleft => ?_⟩
  rw [hnaked] at h
  simp only [Bool.not_true, Bool.false_eq_true, if_false] at h
  -- the left side is the one that is asked about
  split at h
  next place' n' hleft' =>
    rw [hleft] at hleft'
    cases hleft'
    exact h
  next hnone =>
    rw [hleft] at hnone
    cases hnone

/-- An expression goes on with a line if it does not, and the part that it starts with does not. -/
theorem continuesLine_left {place : Place} {n : Node} (h : p.continuesLine options a = false)
    (hnaked : p.node.hasNakedLeftSide = true) (hleft : p.node.leftSide? = some (place, n)) :
    (p.childAt place n).continuesLine options a = false :=
  (continuesLine_eq_false h).2.2 place n hnaked hleft

/-- What continues no line is not put in parentheses. -/
theorem grouped_of_not_continuesLine (h : p.continuesLine options a = false) : p.grouped e = e := by
  rw [grouped, (continuesLine_eq_false h).1, if_neg Bool.false_ne_true]

end Path

/-- The words start with one that goes on with nothing. -/
def StartsFree (ws : List Word) : Prop := ∃ w rest, ws = w :: rest ∧ w.grip = 0

/-- What starts freely does so with more behind it. -/
theorem StartsFree.append {ws : List Word} (h : StartsFree ws) (more : List Word) :
    StartsFree (ws ++ more) := by
  obtain ⟨w, rest, rfl, hw⟩ := h
  exact ⟨w, rest ++ more, rfl, hw⟩

/-- May an expression start with the text, and can it not stand behind an operand as well? -/
def opensFreely (text : String) : Bool :=
  opensExpression text && !(["(", "+", "-"].contains text)

/-- Of the words that an expression starts with, only parentheses and signs grip an operand. -/
theorem Word.grip_of_opensFreely {w : Word} (h : opensFreely w.text = true) : w.grip = 0 := by
  have hone : ∀ {values : List String}, values.all (fun v => !opensFreely v) = true →
      w.isOne values = false := isOne_of_text h
  -- no tier of the operators has the word
  have hoperator : w.operator? = none := by
    have htiers : Operator.tiers.all (fun tier => tier.all fun v => !opensFreely v) = true := by
      decide
    have hprecedence : (Operator.precedence? w.text).isSome = false := by
      rw [Operator.precedence?, List.findIdx?_isSome, List.any_eq_false]
      intro tier htier
      simpa using not_contains_of_all h (List.all_eq_true.1 htiers tier htier)
    rw [operator?, Grammar.binaryOperator?]
    split
    · rw [hprecedence]
      rfl
    · rw [not_contains_of_all h (by decide)]
      rfl
    · rfl
  -- it is no assignment either
  have hassignment : Operator.isAssignment w.text = false :=
    not_contains_of_all h (by decide)
  rw [grip, hoperator]
  simp only [hassignment, Bool.and_false, Bool.false_eq_true, if_false]
  -- nor one of the words that grip by themselves
  rw [hone (by decide), hone (by decide), hone (by decide),
    hone (by decide), hone (by decide)]
  rfl

/-- A name goes on with nothing. -/
theorem OrdinaryName.opensFreely (x : OrdinaryName) : opensFreely x.text = true := by
  have hother : ["(", "+", "-"].contains x.text = false :=
    not_contains_of_all x.ordinary (by decide)
  rw [Reflow.opensFreely, hother, opensExpression, opensValue, x.ordinary]
  rfl

/-- An operator in front of its operand goes on with nothing, except for a sign. -/
theorem UnaryOperator.opensFreely (operator : UnaryOperator) (hplus : operator.text ≠ "+")
    (hminus : operator.text ≠ "-") : opensFreely operator.text = true := by
  have hall : ∀ text ∈ Operator.unaries, text ≠ "+" → text ≠ "-" →
      Reflow.opensFreely text = true := by decide
  exact hall operator.text operator.mem_unaries hplus hminus

mutual

/-- A target that does not go on with a line starts freely. -/
theorem Target.startsFree : ∀ (t : Target) (p : Path), p.node = t.tree →
    p.continuesLine options a = false → StartsFree (t.dressed p).words
  -- a name opens freely, and what is accessed stands in front
  | .name x, p, hp, h => ⟨_, _, rfl, Word.grip_of_opensFreely x.opensFreely⟩
  | .dotted object property optional, p, hp, h => by
    have hobject : (p.child .object object.tree).continuesLine options a = false :=
      Path.continuesLine_left h (by rw [hp]; rfl) (by rw [hp]; rfl)
    rw [Target.dressed, Expression.words_dotted, Path.grouped_of_not_continuesLine hobject]
    exact (object.startsFree _ rfl hobject).append _
  | .computed object property optional, p, hp, h => by
    have hobject : (p.child .object object.tree).continuesLine options a = false :=
      Path.continuesLine_left h (by rw [hp]; rfl) (by rw [hp]; rfl)
    rw [Target.dressed, Expression.words_computed, Path.grouped_of_not_continuesLine hobject,
      List.append_assoc, List.append_assoc]
    exact (object.startsFree _ rfl hobject).append _

/-- An expression that continues no line starts with a word that goes on with nothing. -/
theorem Expression.startsFree : ∀ (e : Expression) (p : Path), p.node = e.tree →
    p.continuesLine options a = false → StartsFree (e.dressed p).words
  | .target t, p, hp, h => t.startsFree p hp h
  | .group inner, p, hp, h => inner.startsFree p hp h
  -- an operator that is a sign would continue the line
  | .unary operator argument, p, hp, h => by
    have hform : p.node.form = .unaryExpression operator.text argument.tree := by
      rw [hp]
      rfl
    have hsign := (Path.continuesLine_eq_false h).2.1
    rw [hform] at hsign
    have hfree := operator.opensFreely (fun hplus => by rw [hplus] at hsign; cases hsign)
      fun hminus => by rw [hminus] at hsign; cases hsign
    rw [Expression.dressed, Expression.words_unary]
    exact ⟨_, _, rfl, Word.grip_of_opensFreely (by rwa [Expression.text_word])⟩
  -- `await` and `new` are names
  | .await argument, p, hp, h => ⟨_, _, rfl, by decide⟩
  -- the left side stands in front, bare or as part of the chain
  | .binary operator left right, p, hp, h => by
    have hleft : (p.child .left left.tree).continuesLine options a = false := by
      refine Path.continuesLine_left h ?_ ?_ <;>
        · rw [hp, Expression.tree, Form.operation]
          split <;> rfl
    rw [Expression.dressed, Expression.words_binary, Path.grouped_of_not_continuesLine hleft,
      ite_self]
    exact (left.startsFree _ rfl hleft).append _
  | .conditional test consequent alternate, p, hp, h => by
    have htest : (p.child .test test.tree).continuesLine options a = false :=
      Path.continuesLine_left h (by rw [hp]; rfl) (by rw [hp]; rfl)
    rw [Expression.dressed, Expression.words_conditional, Path.grouped_of_not_continuesLine htest,
      List.append_assoc]
    exact (test.startsFree _ rfl htest).append _
  | .call callee arguments optional, p, hp, h => by
    have hcallee : (p.child .callee callee.tree).continuesLine options a = false :=
      Path.continuesLine_left h (by rw [hp]; rfl) (by rw [hp]; rfl)
    rw [Expression.dressed, Expression.words_call, Path.grouped_of_not_continuesLine hcallee,
      List.append_assoc, List.append_assoc]
    exact (callee.startsFree _ rfl hcallee).append _
  | .construct callee arguments, p, hp, h => by
    rw [Expression.dressed, Expression.words_construct]
    exact ⟨_, _, rfl, by decide⟩
  | .assign operator target value, p, hp, h => by
    have htarget : (p.child .left target.tree).continuesLine options a = false :=
      Path.continuesLine_left h (by rw [hp]; rfl) (by rw [hp]; rfl)
    rw [Expression.dressed, Expression.words_assign]
    exact (target.startsFree _ rfl htarget).append _
  | .sequence first second more, p, hp, h => by
    have hfirst : (p.item .expressions 0 first.tree).continuesLine options a = false :=
      Path.continuesLine_left h (by rw [hp]; rfl) (by rw [hp]; rfl)
    rw [Expression.dressed, Expression.words_sequence, Path.grouped_of_not_continuesLine hfirst,
      List.append_assoc]
    exact (first.startsFree _ rfl hfirst).append _

end

end Reflow
