import Reflow.Proofs.Grammar.Steps
import Reflow.Proofs.Token.Nonempty

/-!
# The steps of the parser get ahead

In a script every token other than the end has characters, so where a token was taken, the parser has
got ahead.  `Proceeds` says that a step never notes that the parser stalls, whether it succeeds or
fails, and that a failure is the fault of the source.  Most steps either take the token ahead, which
`Advances` says, or leave open whether they do, as `GoesOn` does; a loop goes on if its rounds
advance, as its bound is greater than the number of characters that are left.

## Key results

- `Proceeds.bind`, `Advances.first`, `GoesOn.later`: how steps are put together
- `attempt_proceeds`: coming back from an attempt that failed
- `collect_goesOn`, `extend_goesOn`: loops whose rounds advance
-/

namespace Reflow.Grammar

variable {α β : Type} {source : Source} {s s' : State} {p : Nat}

namespace State

/-- The parser reads a script, and has not stalled. -/
structure InScript (source : Source) (s : State) : Prop extends Ready s where
  placed : s.scanner.Placed
  source : s.scanner.source = source
  html : s.html = false
  nonempty : s.token.Nonempty
  unstalled : s.stalled = false

/-- The second state lies behind the first one, and there the parser reads a script. -/
structure Onward (source : Source) (a b : State) : Prop where
  before : a.Before b
  script : b.InScript source

/-- A step from the first state failed in the second one, and the source is to blame for it. -/
structure Refused (a : State) (fault : SourceFault) (b : State) : Prop where
  left : a.Left b
  html : b.html = false
  unstalled : b.stalled = false
  fault : ¬fault.Exhausts

/-- What was taken lies in the source. -/
theorem InScript.le_size (hs : s.InScript source) : s.back ≤ source.size := by
  have hsize := hs.placed.le_size
  rw [hs.source] at hsize
  have := hs.front
  have := hs.token
  have := hs.scanner
  omega

/-- To take the token ahead is to get ahead, since what was taken lies before it. -/
theorem InScript.lt_back (hs : s.InScript source) (h : s.front < s'.back) : s.back < s'.back :=
  Nat.lt_of_le_of_lt hs.front h

/-- The depth does not matter to where the parser stands. -/
theorem InScript.depth (hs : s.InScript source) (depth : Nat) :
    InScript source { s with depth } :=
  ⟨⟨hs.tidy, hs.front, hs.token, hs.scanner⟩, hs.placed, hs.source, hs.html, hs.nonempty,
    hs.unstalled⟩

/-- A parser that stands still is onward. -/
theorem Onward.refl (hs : s.InScript source) : Onward source s s := ⟨.refl s, hs⟩

/-- Steps onward add up. -/
theorem Onward.trans {s'' : State} (h : Onward source s s') (h' : Onward source s' s'') :
    Onward source s s'' :=
  ⟨h.before.trans h'.before, h'.script⟩

/-- In a script, all up to an offset was taken. -/
structure From (source : Source) (p : Nat) (s : State) : Prop extends InScript source s where
  reach : p ≤ s.back

/-- In a script, a token behind an offset was taken. -/
structure Past (source : Source) (p : Nat) (s : State) : Prop extends InScript source s where
  past : p < s.back

/-- Nor does it matter to whether the parser is at `p` or behind it. -/
theorem From.depth (b : s.From source p) (depth : Nat) : From source p { s with depth } :=
  ⟨b.toInScript.depth depth, b.reach⟩

/-- Nor to whether it is behind it. -/
theorem Past.depth (b : s.Past source p) (depth : Nat) : Past source p { s with depth } :=
  ⟨b.toInScript.depth depth, b.past⟩

/-- Behind `p` is at `p` or behind it. -/
theorem Past.from (b : s.Past source p) : s.From source p := ⟨b.toInScript, Nat.le_of_lt b.past⟩

/-- Who goes onward stays at `p` or behind it. -/
theorem Onward.from (h : Onward source s s') (b : s.From source p) : s'.From source p :=
  ⟨h.script, Nat.le_trans b.reach h.before.back⟩

/-- Who goes onward stays behind `p`. -/
theorem Onward.past (h : Onward source s s') (b : s.Past source p) : s'.Past source p :=
  ⟨h.script, Nat.lt_of_lt_of_le b.past h.before.back⟩

/-- The token ahead lies behind what was taken. -/
theorem From.past (b : s.From source p) (h : Onward source s s') (hfront : s.front < s'.back) :
    s'.Past source p :=
  ⟨h.script, Nat.lt_of_le_of_lt b.reach (b.lt_back hfront)⟩

end State

/-- The step does not stall: it succeeds with the property `Q`, or the source is to blame. -/
def Proceeds (source : Source) (x : Parse α) (s : State) (Q : α → State → Prop) : Prop :=
  Concludes x s (fun a s' => s.Onward source s' ∧ Q a s') (s.Refused · ·)

/-- The step takes the token ahead, if it succeeds. -/
def Advances (source : Source) (x : Parse α) (s : State) : Prop :=
  Proceeds source x s fun _ s' => s.front < s'.back

/-- The step does not stall, whether it takes a token or not. -/
def GoesOn (source : Source) (x : Parse α) (s : State) : Prop :=
  Proceeds source x s fun _ _ => True

variable {x : Parse α} {f : α → Parse β} {P : α → State → Prop} {Q : β → State → Prop}

namespace Proceeds

/-- A result that is at hand. -/
theorem of_ok {a : α} (h : x s = (.ok a, s')) (hs : s.Onward source s') (ha : P a s') :
    Proceeds source x s P :=
  Concludes.of_ok h ⟨hs, ha⟩

/-- A fault that is at hand. -/
theorem of_error {fault : SourceFault} (h : x s = (.error fault, s')) (hs : s.Refused fault s') :
    Proceeds source x s P :=
  Concludes.of_error h hs

/-- A step that goes on as another one from a state that lies behind. -/
theorem resume {y : Parse α} (s' : State) (h : x s = y s') (hs : s.Before s')
    (hy : Proceeds source y s' P) : Proceeds source x s P := by
  cases hr : y s' with
  | mk r t =>
    cases r with
    | error fault =>
      obtain ⟨hleft, hhtml, hunstalled, hfault⟩ := hy.error hr
      exact of_error (h.trans hr) ⟨hs.left hleft, hhtml, hunstalled, hfault⟩
    | ok a =>
      obtain ⟨ht, ha⟩ := hy.ok hr
      exact of_ok (h.trans hr) ⟨hs.trans ht.before, ht.script⟩ ha

/-- A second step proceeds from where the first one has come to. -/
protected theorem bind (hx : Proceeds source x s P)
    (hf : ∀ a s', s.Onward source s' → P a s' → Proceeds source (f a) s' Q) :
    Proceeds source (x >>= f) s Q := by
  cases h : x s with
  | mk r s' =>
    cases r with
    | error fault => exact of_error (by rw [Course.bind_apply, h]) (hx.error h)
    | ok a =>
      obtain ⟨hs, ha⟩ := hx.ok h
      exact resume s' (by rw [Course.bind_apply, h]) hs.before (hf a s' hs ha)

/-- Less may be claimed of where a step comes to. -/
theorem mono {P' : α → State → Prop} (hx : Proceeds source x s P)
    (h : ∀ a s', s.Onward source s' → P a s' → P' a s') : Proceeds source x s P' :=
  Concludes.mono hx (fun a s' ha => ⟨ha.1, h a s' ha.1 ha.2⟩) fun _ _ hfault => hfault

/-- To give a value back is to stand still. -/
protected theorem pure {a : α} (hs : s.InScript source) (ha : P a s) :
    Proceeds source (pure a) s P :=
  of_ok rfl (.refl hs) ha

/-- A step that only looks at the state. -/
theorem look (a : α) (h : x s = (.ok a, s)) (hf : Proceeds source (f a) s Q) :
    Proceeds source (x >>= f) s Q :=
  resume s (by rw [Course.bind_apply, h]) (.refl s) hf

/-- To look at the state is to stand still. -/
theorem get_bind {f : State → Parse β} (h : Proceeds source (f s) s Q) :
    Proceeds source (get >>= f) s Q := h

/-- Both branches proceed, each under its condition. -/
protected theorem ite {c : Prop} [Decidable c] {y : Parse α} (hx : c → Proceeds source x s P)
    (hy : ¬c → Proceeds source y s P) : Proceeds source (if c then x else y) s P :=
  Concludes.ite hx hy

/-- The result may be changed behind the step. -/
protected theorem map {g : α → β} (hx : Proceeds source x s fun a s' => Q (g a) s') :
    Proceeds source (g <$> x) s Q := by
  have h : (g <$> x) = x >>= fun a => pure (g a) := (bind_pure_comp g x).symm
  rw [h]
  exact hx.bind fun _ _ hs ha => .pure hs.script ha

/-- What takes the token ahead takes that of an earlier state. -/
theorem after (h : s.Onward source s') (hx : Proceeds source x s' fun _ t => s'.front < t.back) :
    Proceeds source x s' fun _ t => s.front < t.back :=
  hx.mono fun _ _ _ hfront => Nat.lt_of_le_of_lt h.before.front hfront

/-- What comes after the token ahead was taken does not give it back. -/
theorem kept (hfront : s.front < s'.back) (hx : Proceeds source x s' fun _ _ => True) :
    Proceeds source x s' fun _ t => s.front < t.back :=
  hx.mono fun _ _ ht _ => Nat.lt_of_lt_of_le hfront ht.before.back

/-- Two ways to get what is gone on with. -/
theorem either {γ : Type} {c : Prop} [Decidable c] {y : Parse α} {f : α → Parse γ}
    {R : γ → State → Prop} (hx : c → Proceeds source x s P) (hy : ¬c → Proceeds source y s P)
    (hf : ∀ a s', s.Onward source s' → P a s' → Proceeds source (f a) s' R) :
    Proceeds source (if c then x >>= f else y >>= f) s R :=
  .ite (fun h => (hx h).bind hf) fun h => (hy h).bind hf

end Proceeds

/-- A step that takes the token ahead, before others. -/
theorem Advances.first (hx : Advances source x s)
    (hf : ∀ a s', s.Onward source s' → s.front < s'.back → GoesOn source (f a) s') :
    Advances source (x >>= f) s :=
  Proceeds.bind hx fun a s' hs hfront => .kept hfront (hf a s' hs hfront)

/-- A step before others that take the token ahead. -/
theorem GoesOn.later (hx : GoesOn source x s)
    (hf : ∀ a s', s.Onward source s' → Advances source (f a) s') :
    Advances source (x >>= f) s :=
  Proceeds.bind hx fun a s' hs _ => .after hs (hf a s' hs)

/-- A step that gets ahead does so with its result changed. -/
theorem Advances.map {g : α → β} (hx : Advances source x s) : Advances source (g <$> x) s :=
  Proceeds.map hx

/-- A step that takes the token ahead whatever its result is. -/
theorem Proceeds.anyway {R : α → Prop} (hx : Advances source x s) :
    Proceeds source x s fun a s' => R a → s.front < s'.back :=
  hx.mono fun _ _ _ hfront _ => hfront

/-- Behind a step that goes on, the parser goes onward. -/
theorem GoesOn.bind (hx : GoesOn source x s)
    (hf : ∀ a s', s.Onward source s' → Proceeds source (f a) s' Q) :
    Proceeds source (x >>= f) s Q :=
  Proceeds.bind hx fun a s' hs _ => hf a s' hs

/-- A step that goes on does so with its result changed. -/
theorem GoesOn.map {g : α → β} (hx : GoesOn source x s) : GoesOn source (g <$> x) s :=
  Proceeds.map hx

/-- Who gets ahead goes on. -/
theorem Advances.goesOn (hx : Advances source x s) : GoesOn source x s :=
  hx.mono fun _ _ _ _ => trivial

/-! ### Looking and failing -/

/-- A fault that is not the bound may be reported anywhere. -/
theorem fail_proceeds (hs : s.InScript source) {cause : GrammarFault} (span : Span)
    (hcause : cause ≠ .exhausted) : Proceeds source (fail cause span) s P := by
  refine .of_error rfl ⟨.refl s, hs.html, hs.unstalled, ?_⟩
  rintro ⟨_, h⟩
  cases h
  exact hcause rfl

/-- So may a fault at the token ahead. -/
theorem failAhead_proceeds (hs : s.InScript source) {cause : Option String → GrammarFault}
    (hcause : ∀ found, cause found ≠ .exhausted) : Proceeds source (failAhead cause) s P :=
  .look _ rfl (fail_proceeds hs _ (hcause _))

/-- To want another token is such a fault. -/
theorem want_proceeds (hs : s.InScript source) (wanted : Wanted) :
    Proceeds source (want wanted) s P :=
  failAhead_proceeds hs nofun

/-- Nothing follows something else than what was wanted. -/
theorem want_bind {γ : Type} {f : α → Parse γ} {R : γ → State → Prop} (hs : s.InScript source)
    (wanted : Wanted) : Proceeds source (want wanted >>= f) s R :=
  Proceeds.bind (P := fun _ _ => False) (want_proceeds hs wanted) fun _ _ _ h => h.elim

/-- What is checked with the token ahead and then goes on. -/
theorem unless_proceeds {c : Prop} [Decidable c] {f : PUnit → Parse β} {cause : Parse PUnit}
    (hcause : Proceeds source cause s fun _ _ => False)
    (h : ¬c → Proceeds source (f ⟨⟩) s Q) :
    Proceeds source (if c then cause >>= f else f ⟨⟩) s Q :=
  .ite (fun _ => hcause.bind fun _ _ _ h => h.elim) h

/-- A step that is made or not before what goes on. -/
theorem when_proceeds {c : Prop} [Decidable c] {x : Parse PUnit} {f : PUnit → Parse β}
    (hs : s.InScript source) (hx : c → GoesOn source x s)
    (h : ∀ s', s.Onward source s' → Proceeds source (f ⟨⟩) s' Q) :
    Proceeds source (if c then x >>= f else f ⟨⟩) s Q :=
  .ite (fun hc => (hx hc).bind fun _ s' h1 => h s' h1) fun _ => h s (.refl hs)

/-- Nothing is noted where the parser does not stall. -/
theorem note_apply {stalls : State → Bool} (h : stalls s = false) : note stalls s = (.ok (), s) := by
  show (Except.ok (), { s with stalled := s.stalled || stalls s }) = _
  rw [h, Bool.or_false]

/-- Where something was taken, nothing is noted. -/
theorem onward_apply {before : Nat} (h : before < s.back) : onward before s = (.ok (), s) :=
  note_apply (decide_eq_false (Nat.not_le_of_lt h))

/-- A change that only moves on is followed by the rest. -/
theorem modify_proceeds {f : State → State} {g : PUnit → Parse β}
    (hs : s.Before (f s)) (h : Proceeds source (g ⟨⟩) (f s) Q) :
    Proceeds source (modify f >>= g) s Q :=
  .resume (f s) rfl hs h

/-- A step of the scanner before others; if it fails, the source is to blame. -/
theorem scan_proceeds {x : Scan α} {f : α → Parse β} {P P' : α → Scanner → Prop}
    (hhtml : s.html = false) (hunstalled : s.stalled = false)
    (hmoves : Scanner.course.Leads x s.scanner P)
    (hends : Concludes x s.scanner P' fun fault _ => ¬fault.Exhausts)
    (hf : ∀ b scanner, scanner.Tidy → s.scanner.Precedes scanner → P b scanner → P' b scanner →
      Proceeds source (f b) { s with scanner } Q) : Proceeds source (scan x >>= f) s Q := by
  have hrun : (scan x >>= f) s = _ := Course.bind_apply _ _ s
  rw [scan_apply] at hrun
  -- the scanner moves on, and the fault that it may end with is no lack of rounds
  cases h : x s.scanner with
  | mk r scanner =>
    rw [h] at hrun
    cases r with
    -- a fault of the scanner is passed on
    | error fault =>
      exact .of_error hrun ⟨⟨Nat.le_refl _, hmoves.error h, id, .same rfl rfl, Nat.le_max_left _ _⟩, hhtml,
        hunstalled, hends.error h⟩
    -- the token that is scanned is handed to what follows
    | ok b =>
      obtain ⟨⟨htidy, hprecedes⟩, hb⟩ := hmoves.ok h
      exact .resume { s with scanner } hrun
        ⟨Nat.le_refl _, Nat.le_refl _, Nat.le_refl _, hprecedes, id, .same rfl rfl, Nat.le_max_left _ _⟩
        (hf b scanner htidy hprecedes hb (hends.ok h))

/-! ### Taking tokens -/

/-- A token with one of some texts is not the end. -/
theorem isOne_not_end {t : Token} {values : List String} (h : isOne t values = true) :
    t.kind ≠ .endOfInput := by
  intro hend
  rw [isOne, hend] at h
  cases h

/-- Nor is a name. -/
theorem isName_not_end {t : Token} (h : isName t = true) : t.kind ≠ .endOfInput := by
  intro hend
  rw [isName, hend] at h
  cases h

/-- The token ahead is taken, and if it is not the end, the parser gets ahead. -/
theorem advance_proceeds (hs : s.InScript source) (mode : ScanMode) (hmode : mode.OutsideHtmlTag) :
    Proceeds source (advance mode) s fun _ s' =>
      s.token.kind ≠ .endOfInput → s.front < s'.back := by
  have hrun := advance_apply mode s
  have hleads := advance_leads hs.toReady mode
  -- no token behind this one is empty, except at the end of the input
  have hnext := Scan.next_nonempty hs.tidy hs.placed hmode
  cases h : Scan.next mode s.scanner with
  | mk r scanner =>
    rw [h] at hrun
    cases r with
    -- a fault leaves the state before the token as it is
    | error fault =>
      exact .of_error hrun ⟨hleads.error hrun, hs.html, hs.unstalled, hnext.error h⟩
    -- the scanner stands behind the token, in the same source
    | ok token =>
      obtain ⟨hkept, -⟩ := hleads.ok hrun
      have hscanner : s.scanner.Precedes scanner := hkept.scanner
      exact .of_ok hrun ⟨hkept.toBefore, hkept.ready, hscanner.placed hs.placed,
        hscanner.source.trans hs.source, hs.html, hnext.ok h, hs.unstalled⟩ hs.nonempty

/-- To pass over a token gets ahead, unless it is the end. -/
theorem pass_proceeds (hs : s.InScript source) {mode : ScanMode} (hmode : mode.OutsideHtmlTag) :
    Proceeds source (discard (advance mode)) s fun _ s' =>
      s.token.kind ≠ .endOfInput → s.front < s'.back :=
  .map (advance_proceeds hs mode hmode)

/-- To pass over a token goes on in any case. -/
theorem pass_goesOn (hs : s.InScript source) {mode : ScanMode} (hmode : mode.OutsideHtmlTag) :
    GoesOn source (discard (advance mode)) s :=
  (pass_proceeds hs hmode).mono fun _ _ _ _ => trivial

/-- To pass over a token that is not the end gets ahead. -/
theorem pass_advances (hs : s.InScript source) {mode : ScanMode} (hmode : mode.OutsideHtmlTag)
    (hne : s.token.kind ≠ .endOfInput) : Advances source (discard (advance mode)) s :=
  (pass_proceeds hs hmode).mono fun _ _ _ h => h hne

/-- So does taking it in script mode. -/
theorem take_advances (hs : s.InScript source) (hne : s.token.kind ≠ .endOfInput) :
    Advances source take s :=
  (advance_proceeds hs .script ⟨nofun, nofun⟩).mono fun _ _ _ h => h hne

/-- Taking a token goes on in any case. -/
theorem take_goesOn (hs : s.InScript source) : GoesOn source take s :=
  (advance_proceeds hs .script ⟨nofun, nofun⟩).mono fun _ _ _ _ => trivial

/-- Skipping a token that is not the end gets ahead. -/
theorem skip_advances (hs : s.InScript source) (hne : s.token.kind ≠ .endOfInput) :
    Advances source skip s :=
  pass_advances hs ⟨nofun, nofun⟩ hne

/-- Skipping a token goes on in any case. -/
theorem skip_goesOn (hs : s.InScript source) : GoesOn source skip s :=
  pass_goesOn hs ⟨nofun, nofun⟩

/-- An optional token that is there is not the end, so passing over it gets ahead. -/
theorem eat_proceeds (hs : s.InScript source) (value : String) :
    Proceeds source (eat value) s fun found s' => found = true → s.front < s'.back := by
  refine .look _ rfl (.ite (fun hat => ?_) fun _ => .pure hs nofun)
  exact Proceeds.bind (skip_advances hs (isOne_not_end hat)) fun _ _ h hfront =>
    .pure h.script fun _ => hfront

/-- An optional token may be missing. -/
theorem eat_goesOn (hs : s.InScript source) (value : String) : GoesOn source (eat value) s :=
  (eat_proceeds hs value).mono fun _ _ _ _ => trivial

/-- A token that has to be there is not the end. -/
theorem expect_advances (hs : s.InScript source) (value : String) :
    Advances source (expect value) s :=
  .look _ rfl (.ite (fun hat => skip_advances hs (isOne_not_end hat)) fun _ => want_proceeds hs _)

/-- Nor is a punctuator that has to be there. -/
theorem expectPunctuator_advances (hs : s.InScript source) (value : String) {mode : ScanMode}
    (hmode : mode.OutsideHtmlTag) : Advances source (expectPunctuator value mode) s := by
  refine .look _ rfl (.ite (fun hat => pass_advances hs hmode ?_) fun _ => want_proceeds hs _)
  intro hend
  rw [hend] at hat
  cases hat

/-- A semicolon may be missing. -/
theorem semicolon_goesOn (hs : s.InScript source) : GoesOn source semicolon s := by
  refine (eat_goesOn hs ";").bind fun found s1 h1 => ?_
  refine .ite (fun _ => .look _ rfl ?_) fun _ => .pure h1.script trivial
  exact .ite (fun _ => want_proceeds h1.script _) fun _ => .pure h1.script trivial

/-- To make a node is to stand still. -/
theorem nodeAt_goesOn (hs : s.InScript source) {span : Span} {form : Form Node} :
    GoesOn source (nodeAt span form) s :=
  .of_ok rfl ⟨⟨Nat.le_succ _, Nat.le_refl _, Nat.le_refl _, .refl _, id, .same rfl rfl, Nat.le_max_left _ _⟩,
    ⟨hs.tidy, hs.front, hs.token, hs.scanner⟩, hs.placed, hs.source, hs.html, hs.nonempty,
    hs.unstalled⟩ trivial

/-- So it is for a node that ends where the last token ended. -/
theorem node_goesOn (hs : s.InScript source) {start : Position} {form : Form Node} :
    GoesOn source (node start form) s :=
  .get_bind (nodeAt_goesOn hs)

/-- The token ahead becomes a node. -/
theorem leaf_advances (hs : s.InScript source) (hne : s.token.kind ≠ .endOfInput)
    {start : Position} {form : Token → Form Node} :
    Advances source (take >>= fun token => node start (form token)) s :=
  (take_advances hs hne).first fun _ _ h1 _ => node_goesOn h1.script

/-- An identifier takes its name. -/
theorem identifier_advances (hs : s.InScript source) : Advances source identifier s := by
  refine .look _ rfl (unless_proceeds (want_proceeds hs _) fun hat => .look _ rfl ?_)
  exact leaf_advances hs (isName_not_end (by simpa using hat))

/-- The name of a module takes a name or a string. -/
theorem moduleName_advances (hs : s.InScript source) : Advances source moduleName s := by
  refine .look _ rfl (unless_proceeds (want_proceeds hs _) fun hat => .look _ rfl ?_)
  refine leaf_advances hs fun hend => ?_
  rw [hend] at hat
  exact hat rfl

/-- The name of a property takes a token. -/
theorem propertyName_advances (hs : s.InScript source) : Advances source propertyName s := by
  have hleaf : ∀ {kind : TokenKind} {form : Token → Form Node}, (s.token.kind == kind) = true →
      kind ≠ .endOfInput →
      Advances source (take >>= fun token => node s.token.span.start (form token)) s := by
    intro kind form hkind hne
    exact leaf_advances hs (beq_iff_eq.1 hkind ▸ hne)
  refine .look _ rfl (.look _ rfl (.ite (fun hat => hleaf hat nofun) fun _ => .look _ rfl ?_))
  exact .ite (fun hat => hleaf hat nofun) fun _ => want_proceeds hs _

/-! ### Coming back -/

/-- Where the parser comes back to, it reads the script as before. -/
theorem onward_restored {fault : SourceFault} (hs : s.InScript source)
    (h : s.Refused fault s') : s.Onward source
      { s' with scanner := s.scanner, token := s.token, lastEnd := s.lastEnd } :=
  ⟨(kept_restored hs.toReady h.left).toBefore, (kept_restored hs.toReady h.left).ready, hs.placed,
    hs.source, h.html, hs.nonempty, h.unstalled⟩

/-- An attempt: if it fails, the parser comes back and goes on otherwise, and it has not stalled. -/
theorem attempt_proceeds {f : Except SourceFault α → Parse β} {g : Parse β}
    (hs : s.InScript source) (hx : Proceeds source x s P)
    (hok : ∀ a s', s.Onward source s' → P a s' → Proceeds source (f (.ok a)) s' Q)
    (herror : ∀ e, f (.error e) = do
      restore ⟨s.scanner.position, s.token, s.lastEnd⟩
      g)
    (hg : ∀ s', s.Onward source s' → Proceeds source g s' Q) :
    Proceeds source (observe x >>= f) s Q := by
  have hrun : (observe x >>= f) s = f (x s).1 (x s).2 := rfl
  cases h : x s with
  | mk r s' =>
    rw [h] at hrun
    cases r with
    -- the parser goes back; what was numbered and noted stays
    | error fault =>
      have hrefused := hx.error h
      have hback : f (.error fault) s' =
          g { s' with scanner := s.scanner, token := s.token, lastEnd := s.lastEnd } := by
        rw [herror, Course.bind_apply, restore_apply hs.toReady hrefused.left]
      have honward := onward_restored hs hrefused
      exact .resume _ (hrun.trans hback) honward.before (hg _ honward)
    -- the parser goes on where the attempt has come to
    | ok a =>
      obtain ⟨hs', ha⟩ := hx.ok h
      exact .resume s' hrun hs'.before (hok a s' hs' ha)

/-- Looking ahead leaves the parser where it is. -/
theorem lookAhead_proceeds (hs : s.InScript source) (hx : GoesOn source x s) :
    Proceeds source (lookAhead x) s fun _ s' => s'.token = s.token := by
  cases h : x s with
  | mk r s' =>
    -- either way the scanner goes back, but the notes of the run stay
    cases r with
    | error fault =>
      have hrefused := hx.error h
      exact .of_error (lookAhead_apply hs.toReady h hrefused.left)
        ⟨(kept_restored hs.toReady hrefused.left).left, hrefused.html, hrefused.unstalled,
          hrefused.fault⟩
    -- a success is dropped, too
    | ok a =>
      have hs' := (hx.ok h).1
      have hleft : s.Left s' :=
        ⟨hs'.before.ids, hs'.before.scanner, hs'.before.stalled, hs'.before.balanced,
          hs'.before.deepest⟩
      have hkept := kept_restored hs.toReady hleft
      exact .of_ok (lookAhead_apply hs.toReady h hleft)
        ⟨hkept.toBefore, hkept.ready, hs.placed, hs.source, hs'.script.html, hs.nonempty,
          hs'.script.unstalled⟩ rfl

/-- Looking one token further comes back to the token ahead. -/
theorem second_proceeds (hs : s.InScript source) :
    Proceeds source second s fun _ s' => s'.token = s.token :=
  lookAhead_proceeds hs ((skip_goesOn hs).bind fun _ _ h => .look _ rfl (.pure h.script trivial))

/-- So does looking at its text. -/
theorem secondText_proceeds (hs : s.InScript source) :
    Proceeds source secondText s fun _ s' => s'.token = s.token :=
  (second_proceeds hs).bind fun _ _ h1 htoken => .pure h1.script htoken

/-! ### Going deeper -/

/-- Going one level deeper changes nothing but the depth. -/
theorem nested_advances (hs : s.InScript source)
    (hx : ∀ depth, Advances source x { s with depth }) : Advances source (nested x) s := by
  have hrun := nested_apply x s
  split at hrun
  · -- a refusal has not called the body, so it is no lack of rounds
    refine .of_error hrun ⟨left_refused s, hs.html, hs.unstalled, ?_⟩
    rintro ⟨_, h⟩
    cases h
  · -- the body starts one level deeper, which its front does not know of
    cases h : x { s with depth := s.depth + 1 } with
    | mk r s' =>
      rw [h] at hrun
      cases r with
      | error fault =>
        obtain ⟨hleft, hhtml, hunstalled, hfault⟩ := (hx _).error h
        exact .of_error hrun ⟨left_leave hleft, hhtml, hunstalled, hfault⟩
      | ok a =>
        obtain ⟨⟨hbefore, hscript⟩, hfront⟩ := (hx _).ok h
        have hbefore' := (kept_leave ⟨hbefore, hscript.toReady⟩).toBefore
        exact .of_ok hrun ⟨hbefore', hscript.depth _⟩ hfront

/-! ### Loops -/

/-- The bound of a loop that starts here is greater than the number of characters that are left. -/
theorem rounds_enough (hs : s.InScript source) :
    source.size + 1 ≤ s.scanner.source.size + 2 + s.back := by
  rw [hs.source]
  omega

/-- A loop goes on if its rounds take the token ahead. -/
theorem collectUpTo_goesOn {more : Parse Bool} {item : Parse (α × Bool)} (n : Nat)
    (hs : s.InScript source) (hn : source.size + 1 ≤ n + s.back)
    (hmore : ∀ s', s.Onward source s' → GoesOn source more s')
    (hitem : ∀ s', s.Onward source s' → Advances source item s') :
    GoesOn source (collectUpTo more item n) s := by
  -- before the bound is reached, the characters that are left are used up
  induction n generalizing s with
  | zero =>
    have := hs.le_size
    omega
  | succ n ih =>
    refine .look _ rfl ((hmore s (.refl hs)).bind fun goesOn s1 h1 => ?_)
    refine .ite (fun _ => ?_) fun _ => .pure h1.script trivial
    refine (hitem s1 h1).bind fun r s2 h2 hfront => ?_
    have hlt : s.back < s2.back := Nat.lt_of_le_of_lt h1.before.back (h1.script.lt_back hfront)
    have h02 : ∀ s', s2.Onward source s' → s.Onward source s' := fun s' h => (h1.trans h2).trans h
    refine .look _ (onward_apply hlt) (.ite (fun _ => ?_) fun _ => .pure h2.script trivial)
    exact (ih h2.script (by omega) (fun s' h => hmore s' (h02 s' h)) fun s' h =>
      hitem s' (h02 s' h)).bind fun _ _ h3 => .pure h3.script trivial

/-- A loop goes on if each of its items gets ahead: it makes no round in vain. -/
theorem collect_goesOn {more : Parse Bool} {item : Parse (α × Bool)} (hs : s.InScript source)
    (hmore : ∀ s', s.Onward source s' → GoesOn source more s')
    (hitem : ∀ s', s.Onward source s' → Advances source item s') :
    GoesOn source (collect more item) s :=
  .look _ rfl (collectUpTo_goesOn _ hs (rounds_enough hs) hmore hitem)

/-- A loop that only looks at the state to tell whether to go round again. -/
theorem items_goesOn {more : Parse Bool} {item : Parse (α × Bool)}
    (hmore : ∀ s, ∃ b, more s = (.ok b, s)) (hs : s.InScript source)
    (hitem : ∀ s', s.Onward source s' → Advances source item s') :
    GoesOn source (collect more item) s := by
  refine collect_goesOn hs (fun s' h => ?_) hitem
  obtain ⟨b, hb⟩ := hmore s'
  exact .of_ok hb (.refl h.script) trivial

/-- So does a loop over items between commas. -/
theorem separated_goesOn {close : String} {item : Parse α} (hs : s.InScript source)
    (hitem : ∀ s', s.Onward source s' → Advances source item s') :
    GoesOn source (separated close item) s := by
  refine items_goesOn (fun _ => ⟨_, rfl⟩) hs fun s' h => ?_
  refine (hitem s' h).first fun a s1 h1 _ => ?_
  exact (eat_goesOn h1.script ",").bind fun found s2 h2 => .pure h2.script trivial

/-- A loop that extends a value goes on if the rounds that extend it take the token ahead. -/
theorem extend_goesOn {step : α → Parse (Option α)} (hs : s.InScript source) (a : α)
    (hstep : ∀ a s', s.Onward source s' → Proceeds source (step a) s' fun o s'' =>
      o.isSome = true → s'.front < s''.back) : GoesOn source (extend step a) s := by
  -- the rounds that are left, with the characters behind the parser, exceed the size
  have hall : ∀ (n : Nat) (a : α) (s1 : State), s.Onward source s1 →
      source.size + 1 ≤ n + s1.back → GoesOn source (extendUpTo step n a) s1 := by
    intro n
    induction n with
    -- without rounds the parser would be behind the end of the source
    | zero =>
      intro a s1 h1 hn
      have := h1.script.le_size
      omega
    | succ n ih =>
      intro a s1 h1 hn
      refine .look _ rfl ((hstep a s1 h1).bind fun o s2 h2 hfront => ?_)
      cases o with
      | none => exact .pure h2.script trivial
      -- what is found takes at least one character, so one round less is enough
      | some b =>
        have hlt : s1.back < s2.back := h1.script.lt_back (hfront rfl)
        refine .look _ (onward_apply hlt) ?_
        exact ih b s2 (h1.trans h2) (by omega)
  exact .look _ rfl (hall _ a s (.refl hs) (rounds_enough hs))

end Reflow.Grammar
