import Reflow.Proofs.Grammar.Parse

/-!
# How deep the parser is

The rules that may nest without a bound count how deep they are.  What counts one up counts one down
again, also when the rule fails; but where it is refused to go deeper, one was counted up already, and
is never counted down.  The refusal may have been met in an attempt at an arrow function that is given
up.  Then the parser goes on where it was, with the comments that it had, but one level deeper.

## Key results

- `arrow?_comesBack`: an attempt that is given up leaves the parser where it was
- `depth_counts`: a call leaves the depth as it was, but for one level for each refusal
-/

namespace Reflow.Grammar

variable {parse : Rule → Parse Node} {s : State}

/-- However a step ends, the depth grew by as much as it was refused to go deeper. -/
theorem balanced_of_leads {α : Type} {x : Parse α} {Q : α → State → Prop} (hx : course.Leads x s Q) :
    s.Balanced (x s).2 := by
  cases h : x s with
  | mk r s' =>
    cases r with
    | error fault => exact (hx.error h).balanced
    | ok a => exact (hx.ok h).1.balanced

/-- The opening bracket of an element has been taken when the rule for elements is called. -/
def Rule.Opened (s : State) : Rule → Prop
  | .element start _ => start.offset ≤ s.back
  | _ => True

/-- Behind a rule the depth is what it was, but for the attempts that were refused. -/
theorem parseRule_balanced (hs : s.Ready) (fuel : Nat) {r : Rule} (hr : r.Opened s) :
    s.Balanced (parseRule fuel r s).2 := by
  have hp := parseRule_builds fuel
  -- an element was opened before the rule is called; the other rules start anywhere
  cases r with
  | statement => exact balanced_of_leads (hp.statement s hs)
  | expression => exact balanced_of_leads (hp.expression s hs)
  | assignment => exact balanced_of_leads (hp.assignment s hs)
  | binary least => exact balanced_of_leads (hp.binary least s hs)
  | unary => exact balanced_of_leads (hp.unary s hs)
  | callMember allowCall => exact balanced_of_leads (hp.callMember allowCall s hs)
  | bindingTarget => exact balanced_of_leads (hp.bindingTarget s hs)
  | element start after =>
    have hfront : start.offset ≤ s.front := Nat.le_trans hr hs.front
    exact balanced_of_leads (hp.element after ((Built.start hs).earlier hfront) hr)

/-- Where an arrow function may start: elsewhere none is tried. -/
def State.TriesArrow (s : State) : Prop := (isOne s.token ["("] || isName s.token) = true

instance (s : State) : Decidable s.TriesArrow := inferInstanceAs (Decidable (_ = true))

/-- Where no arrow function can stand, none is tried. -/
theorem arrow?_untried (h : ¬s.TriesArrow) : arrow? parse s = (.ok none, s) := by
  have hahead : ∀ f : Token → Parse (Option Node), (ahead >>= f) s = f s.token s := fun _ => rfl
  rw [arrow?, hahead, eq_false_of_ne_true h]
  rfl

/-- What is done when it is known how an attempt at the head of an arrow function ended. -/
def settleArrow (parse : Rule → Parse Node) (start : Position) (back : Snapshot) :
    Except SourceFault (List Node × Bool) → Parse (Option Node)
  | .error _ => do
    restore back
    return none
  | .ok (params, isAsync) => do
    skip
    let body ← if ← isAt ["\x7b"] then block parse else parse .assignment
    some <$> node start (.arrowFunction params body isAsync)

/-- Where one can stand, its head is tried, and the parser goes on or back. -/
theorem arrow?_tried (h : s.TriesArrow) {r : Except SourceFault (List Node × Bool)} {s1 : State}
    (hrun : arrowHead parse s = (r, s1)) :
    arrow? parse s =
      settleArrow parse s.token.span.start ⟨s.scanner.position, s.token, s.lastEnd⟩ r s1 := by
  -- what looks at the state without changing it runs at once
  have hahead : ∀ f : Token → Parse (Option Node), (ahead >>= f) s = f s.token s := fun _ => rfl
  have hstart : ∀ f : Position → Parse (Option Node),
      (startAhead >>= f) s = f s.token.span.start s := fun _ => rfl
  have hsnapshot : ∀ f : Snapshot → Parse (Option Node),
      (snapshot >>= f) s = f ⟨s.scanner.position, s.token, s.lastEnd⟩ s := fun _ => rfl
  have hobserve : observe (arrowHead parse) s = (.ok r, s1) := by rw [observe, hrun]
  have htries : (isOne s.token ["("] || isName s.token) = true := h
  rw [arrow?, hahead, htries, Bool.not_true, if_neg Bool.false_ne_true, hstart, hsnapshot,
    Course.bind_apply, hobserve]
  cases r <;> rfl

/-- What is behind the head of an arrow function is given back as one. -/
theorem settleArrow_some {start : Position} {back : Snapshot} (r : List Node × Bool) (s1 : State) :
    (Course.free State).Leads (settleArrow parse start back (.ok r)) s1 fun found _ =>
      found ≠ none := by
  refine Course.free_bind fun _ _ => Course.free_bind fun _ _ => .ite (fun _ => ?_) fun _ => ?_
  all_goals exact Course.free_bind fun _ _ => .map (.of_ok rfl trivial nofun)

/-- An attempt at an arrow function that is given up leaves the token ahead, the end of the last token
and the scanner with its comments as they were. -/
theorem arrow?_comesBack (hp : BuildRules parse) (hs : s.Ready) {s' : State}
    (h : arrow? parse s = (.ok none, s')) :
    s'.scanner = s.scanner ∧ s'.token = s.token ∧ s'.lastEnd = s.lastEnd := by
  by_cases htries : s.TriesArrow
  · -- an arrow function was tried: the parser comes back when its head has a fault
    cases hrun : arrowHead parse s with
    | mk r s1 =>
      have hsettled := (arrow?_tried htries hrun).symm.trans h
      cases r with
      | ok r => exact absurd rfl ((settleArrow_some r s1).ok hsettled).2
      | error fault =>
        have hleft := (arrowHead_builds hp s hs).error hrun
        -- where the scanner comes back to is where it was, for it only moved on
        have hback := Scanner.seek_of_precedes hs.tidy hleft.scanner
        cases hsettled
        exact ⟨hback, rfl, rfl⟩
  · cases (arrow?_untried htries).symm.trans h
    exact ⟨rfl, rfl, rfl⟩

/-- Every call leaves the depth as it was, but for one level for each time that it was refused to go
deeper; an attempt at an arrow function that is given up leaves all else as it was. -/
theorem depth_counts (hs : s.Ready) (fuel : Nat) :
    (∀ r : Rule, r.Opened s → s.Balanced (parseRule fuel r s).2) ∧
    ∀ caller before, s.Balanced (arrow? (called (parseRule fuel) caller before) s).2 ∧
      ∀ s', arrow? (called (parseRule fuel) caller before) s = (.ok none, s') →
        s'.scanner = s.scanner ∧ s'.token = s.token ∧ s'.lastEnd = s.lastEnd := by
  have hp := fun caller before => called_builds (parseRule_builds fuel) caller before
  refine ⟨fun r hr => parseRule_balanced hs fuel hr, fun caller before => ⟨?_, fun s' h => ?_⟩⟩
  · exact balanced_of_leads (arrow?_builds (hp caller before) s hs)
  · exact arrow?_comesBack (hp caller before) hs h

/-- The parser in front of the first token of a script, or at its start where that is at fault. -/
def opened (source : Source) : State :=
  match Scan.next .script (.start source) with
  | (.ok first, scanner) => { scanner, token := first }
  | (.error _, _) => { scanner := .start source }

/-- The parser is ready behind the first token of a source. -/
theorem opened_ready (source : Source) : (opened source).Ready := by
  have hfirst := Scan.next_leads (s := .start source) trivial .script
  rw [opened]
  cases hrun : Scan.next .script (.start source) with
  | mk r scanner =>
    cases r with
    | error fault =>
      exact ⟨trivial, Nat.le_refl _, Nat.le_refl _, Nat.zero_le _⟩
    | ok first =>
      obtain ⟨hkept, hspan⟩ := hfirst.ok hrun
      exact ⟨hkept.1, Nat.zero_le _, hspan.order, hspan.stop⟩

/-- The parentheses are no parameters: `1` is none. -/
theorem depth_counts_parenthesised :
    let s := opened (.ofString "(a, 1)")
    s.Ready ∧ s.token.text = "(" ∧ Rule.Opened s .assignment ∧
      s.Balanced (parseRule 9 .assignment s).2 ∧
      s.Balanced (arrow? (called (parseRule 9) .assignment 0) s).2 := by
  intro s
  have hs : s.Ready := opened_ready _
  have hcounts := depth_counts hs 9
  exact ⟨hs, by decide +kernel, trivial, hcounts.1 .assignment trivial, (hcounts.2 .assignment 0).1⟩

set_option maxRecDepth 100000 in
/-- A statement of a hundred operators is refused, and the depth stays one too high. -/
theorem depth_overcounts :
    let source : Source := .ofString (String.ofList (List.replicate 99 '!' ++ ['b']))
    (opened source).depth = 0 ∧
      (parseRule (fuelFor source) .statement (opened source)).2.depth = 1 := by
  decide +kernel

end Reflow.Grammar
