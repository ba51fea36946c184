import Reflow.Proofs.Grammar.Parse
import Reflow.Proofs.Grammar.ProgressRules

/-!
# Parsing a script ends

A rule calls another one behind the place where it started, or it calls a lower one.  So eight times
the number of characters that are left, and the level of the rule, bound how deep rules are nested from
there on, wherever the parser came back to.  The bound on the depth is greater than that, and with it
no bound is ever reached, inside the attempts at arrow functions either.

## Key results

- `rule_advances`: a rule makes no other calls than those that it may make
- `parseRule_advances`: enough depth for a rule
- `callsOf_le`: the length of the source bounds how deep rules call one another
- `parse_terminates`: parsing a script ends with a tree or with a fault of the source, if the stack
  holds the calls
-/

namespace Reflow.Grammar

variable {source : Source} {parse : Rule → Parse Node} {p : Nat} {s : State}

/-- Each rule gets ahead if the rules do that it may call. -/
theorem rule_advances {r : Rule} (hr : r.Scripted) (hp : Calls source parse p r.level)
    (b : s.From source p) : Advances source (rule parse r) s := by
  cases r with
  | statement => exact statement_advances hp b
  | expression => exact expression_advances hp b
  | assignment => exact assignment_advances hp b
  | binary least => exact binary_advances hp b
  | unary => exact unary_advances hp b
  | callMember allowCall => exact callMember_advances hp b allowCall
  | bindingTarget => exact bindingTarget_advances hp b
  | element start after => exact elementBody_advances hp b hr

/-- There are six levels of rules. -/
theorem Rule.level_le (r : Rule) : r.level ≤ 5 := by
  cases r <;> simp [level]

/-- With depth enough for the characters that are left and for its level, a rule gets ahead. -/
theorem parseRule_advances (fuel : Nat) (r : Rule) (hs : s.InScript source) (hr : r.Scripted)
    (hfuel : 8 * (source.size - s.back) + r.level < fuel) :
    Advances source (parseRule fuel r) s := by
  induction fuel generalizing r s with
  | zero => omega
  | succ fuel ih =>
    have hcalled : ∀ (callee : Rule) (s' : State), s'.InScript source → callee.Scripted →
        s.back < s'.back ∨ s.back ≤ s'.back ∧ callee.level < r.level →
        Advances source (called (parseRule fuel) r s.back callee) s' := by
      intro callee s' hs' hcallee hcall
      have hsize := hs'.le_size
      have hlevel := callee.level_le
      -- nothing is noted, and what is left, or else the level, is less than before
      refine .look _ (note_apply ?_) (ih callee hs' hcallee (by omega))
      show (decide (r.level ≤ callee.level) && decide (s'.back ≤ s.back)) = false
      rw [Bool.and_eq_false_iff, decide_eq_false_iff_not, decide_eq_false_iff_not]
      omega
    have hp : Calls source (called (parseRule fuel) r s.back) s.back r.level :=
      ⟨fun callee s' hcallee b => hcalled callee s' b.toInScript hcallee (.inl b.past),
        fun callee s' hcallee hlevel b =>
          hcalled callee s' b.toInScript hcallee (.inr ⟨b.reach, hlevel⟩)⟩
    refine .look _ rfl (modify_proceeds (noteDepth_before s fuel) ?_)
    exact rule_advances hr hp ⟨⟨⟨hs.tidy, hs.front, hs.token, hs.scanner⟩, hs.placed, hs.source,
      hs.html, hs.nonempty, hs.unstalled⟩, Nat.le_refl _⟩

/-- The statements of a source each get ahead, so their loop goes on. -/
theorem contents_goesOn (hs : s.InScript source) :
    GoesOn source (contents false (parseRule (fuelFor s.scanner.source))) s := by
  rw [hs.source]
  refine items_goesOn (fun _ => ⟨_, rfl⟩) hs fun s' h => ?_
  have hfuel : 8 * (source.size - s'.back) + Rule.statement.level < fuelFor source := by
    show 8 * (source.size - s'.back) + 5 < 32 * (source.size + 4)
    omega
  exact (parseRule_advances (fuelFor source) .statement h.script trivial hfuel).first
    fun n s1 h1 _ => .pure h1.script trivial

/-- Parsing a whole script does not stall. -/
theorem root_goesOn (source : Source) :
    GoesOn source (root false) { scanner := .start source } := by
  have htidy : (Scanner.start source).Tidy := trivial
  have hplaced := Scanner.start_placed source
  -- the first token is scanned before any rule
  refine scan_proceeds rfl rfl (Scan.next_leads htidy .script)
    (Scan.next_nonempty htidy hplaced ⟨nofun, nofun⟩) fun first scanner htidy hprecedes hspan hfirst => ?_
  refine modify_proceeds ⟨Nat.le_refl _, Nat.le_refl _, Nat.zero_le _, .refl _, id,
    .same rfl rfl, Nat.le_max_left _ _⟩ (.get_bind ?_)
  have hs : State.InScript source { scanner, token := first } :=
    ⟨⟨htidy, Nat.zero_le _, hspan.order, hspan.stop⟩, hprecedes.placed hplaced, hprecedes.source, rfl,
      hfirst, rfl⟩
  -- the statements come to an end within the source
  refine (contents_goesOn hs).bind fun nodes s1 h1 => .get_bind ?_
  refine (nodeAt_goesOn h1.script).bind fun root s2 h2 => ?_
  -- a script that does not end there is refused
  split
  · exact fail_proceeds h2.script _ nofun
  · exact .pure h2.script trivial

/-- Rules are nested no deeper than the source allows, whatever becomes of it. -/
theorem callsOf_le (source : Source) (html : Bool) : callsOf source html ≤ fuelFor source := by
  have hroot := root_leads html source
  unfold callsOf
  cases hrun : root html { scanner := .start source, html } with
  | mk result s =>
    have hmost : max ({ scanner := .start source, html } : State).deepest
        (fuelFor (Scanner.start source).source) = fuelFor source := Nat.zero_max _
    rw [← hmost]
    cases result with
    | error fault => exact (hroot.error hrun).deepest
    | ok n => exact (hroot.ok hrun).1.deepest

/-- Parsing a script ends: no loop goes round without taking a token, no rule calls another one, that
is not lower, without taking a token, neither comes to its bound, and what is given up on the way is no
exception.  How deep rules call one another is bounded by the length of the source only.  On a stack
that holds the calls, the outcome is a tree or a fault of the source; on a smaller one, the process
breaks off. -/
theorem parse_terminates (source : Source) :
    (root false { scanner := .start source }).2.stalled = false ∧
    callsOf source false ≤ fuelFor source ∧
    ∀ stack, match parseOn stack source false with
    | some (.ok _) => callsOf source false ≤ stack
    | some (.error fault) => callsOf source false ≤ stack ∧ ¬fault.Exhausts
    | none => stack < callsOf source false := by
  have hroot := root_goesOn source
  -- whatever the run comes to, no loop has stood still
  have houtcome : (root false { scanner := .start source }).2.stalled = false ∧
      ∀ fault, parse source false = .error fault → ¬fault.Exhausts := by
    rw [Grammar.parse]
    cases hrun : root false { scanner := .start source } with
    | mk result s =>
      cases result with
      | error fault =>
        refine ⟨(hroot.error hrun).unstalled, ?_⟩
        rintro _ ⟨⟩
        exact (hroot.error hrun).fault
      | ok n =>
        refine ⟨(hroot.ok hrun).1.script.unstalled, ?_⟩
        rintro _ ⟨⟩
  refine ⟨houtcome.1, callsOf_le source false, fun stack => ?_⟩
  -- without an endless loop the stack decides alone
  rw [parseOn_eq fun span h => houtcome.2 _ h ⟨span, rfl⟩]
  by_cases hcalls : callsOf source false ≤ stack
  · rw [if_pos hcalls]
    cases hparse : parse source false with
    | error fault => exact ⟨hcalls, houtcome.2 fault hparse⟩
    | ok parsed => exact hcalls
  · rw [if_neg hcalls]
    exact Nat.lt_of_not_le hcalls

end Reflow.Grammar
