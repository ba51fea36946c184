import Reflow.Grammar.Basic
import Reflow.Proofs.Token.Scanner
import Reflow.Proofs.Tree.Row

/-!
# The steps of the parser build rows

A parser that is ready has taken what lies before `back` and looks at a token that starts at `front`.
Its steps move both offsets ahead and hand out new numbers only; a step that fails may leave it
anywhere behind, from where it can come back.

`Built i p l s` says that since the moment when the next number was `i` and the token ahead started
at `p`, the parser built the row of nodes `l`.  `Builds` is the specification of a part of the
grammar: wherever it starts, it adds its nodes to the row.

## Key results

- `Builds.after`: what a part of the grammar builds goes behind what was built before
- `node_built`: the row becomes one node
- `collect_builds`, `extend_builds`: loops build what their rounds build
-/

namespace Reflow.Grammar

namespace State

/-- Where the last token that was taken ends. -/
def back (s : State) : Nat := s.lastEnd.offset

/-- Where the token ahead starts. -/
def front (s : State) : Nat := s.token.span.start.offset

/-- The parser looks at a token behind the last one that was taken. -/
structure Ready (s : State) : Prop where
  tidy : s.scanner.Tidy
  front : s.back ≤ s.front
  token : s.front ≤ s.token.span.stop.offset
  scanner : s.token.span.stop.offset ≤ s.scanner.position.offset

/-- On the way from the first state to the second one the depth changed only where it was refused to go
deeper: each time it stayed one higher. -/
structure Balanced (a b : State) : Prop where
  refused : a.refused ≤ b.refused
  depth : b.depth + a.refused = a.depth + b.refused

/-- The depth has not changed, and no attempt to go deeper was refused. -/
theorem Balanced.same {a b : State} (hdepth : b.depth = a.depth) (hrefused : b.refused = a.refused) :
    Balanced a b :=
  ⟨Nat.le_of_eq hrefused.symm, by rw [hdepth, hrefused]⟩

/-- What is gone up beyond the refused attempts adds up along a course. -/
theorem Balanced.trans {a b c : State} (h : Balanced a b) (h' : Balanced b c) : Balanced a c := by
  have hrefused := Nat.le_trans h.refused h'.refused
  have hdepth := h.depth
  have hdepth' := h'.depth
  exact ⟨hrefused, by omega⟩

/-- Where one level was gone up again, it is balanced from before it was gone down. -/
theorem Balanced.leave {a b : State} (h : Balanced { a with depth := a.depth + 1 } b) :
    Balanced a { b with depth := b.depth - 1 } := by
  have hrefused : a.refused ≤ b.refused := h.refused
  have hdepth : b.depth + a.refused = a.depth + 1 + b.refused := h.depth
  constructor
  · exact hrefused
  · show b.depth - 1 + a.refused = a.depth + b.refused
    omega

/-- The second state lies behind the first one. -/
structure Before (a b : State) : Prop where
  ids : a.nextId ≤ b.nextId
  back : a.back ≤ b.back
  front : a.front ≤ b.front
  scanner : a.scanner.Precedes b.scanner
  stalled : a.stalled = true → b.stalled = true
  balanced : a.Balanced b
  deepest : b.deepest ≤ max a.deepest (fuelFor a.scanner.source)

/-- The second state may come after the first one without failure. -/
structure Kept (a b : State) : Prop extends Before a b where
  ready : b.Ready

/-- The second state may be where a step from the first one failed. -/
structure Left (a b : State) : Prop where
  ids : a.nextId ≤ b.nextId
  scanner : a.scanner.Precedes b.scanner
  stalled : a.stalled = true → b.stalled = true
  balanced : a.Balanced b
  deepest : b.deepest ≤ max a.deepest (fuelFor a.scanner.source)

/-- Rules are nested no deeper than the source allows on the whole way if they are not on its parts. -/
theorem deepest_trans {a b c : State} (hscanner : a.scanner.Precedes b.scanner)
    (h : b.deepest ≤ max a.deepest (fuelFor a.scanner.source))
    (h' : c.deepest ≤ max b.deepest (fuelFor b.scanner.source)) :
    c.deepest ≤ max a.deepest (fuelFor a.scanner.source) := by
  rw [hscanner.source] at h'
  omega

/-- A state lies before itself. -/
theorem Before.refl (s : State) : Before s s :=
  ⟨Nat.le_refl _, Nat.le_refl _, Nat.le_refl _, .refl _, id, .same rfl rfl, Nat.le_max_left _ _⟩

/-- The states of a course lie one before the other. -/
theorem Before.trans {a b c : State} (h : Before a b) (h' : Before b c) : Before a c :=
  ⟨Nat.le_trans h.ids h'.ids, Nat.le_trans h.back h'.back, Nat.le_trans h.front h'.front,
    h.scanner.trans h'.scanner, h'.stalled ∘ h.stalled, h.balanced.trans h'.balanced,
    deepest_trans h.scanner h.deepest h'.deepest⟩

/-- A state from which the parser may go on is such a state for all that lie before it. -/
theorem Before.kept {a b c : State} (h : Before a b) (h' : Kept b c) : Kept a c :=
  ⟨h.trans h'.toBefore, h'.ready⟩

/-- The same of the state that a fault leaves. -/
theorem Before.left {a b c : State} (h : Before a b) (h' : Left b c) : Left a c :=
  ⟨Nat.le_trans h.ids h'.ids, h.scanner.trans h'.scanner, h'.stalled ∘ h.stalled,
    h.balanced.trans h'.balanced,
    deepest_trans h.scanner h.deepest h'.deepest⟩

/-- Where the parser may go on, it has kept what it had. -/
theorem Kept.refl {s : State} (hs : s.Ready) : Kept s s := ⟨.refl s, hs⟩

/-- A course goes on from a state that was kept. -/
theorem Kept.trans {a b c : State} (h : Kept a b) (h' : Kept b c) : Kept a c := h.toBefore.kept h'

/-- What is noted later on does not matter. -/
theorem Kept.noted {a b : State} (h : Kept a b) (noted : Bool) :
    Kept a { b with stalled := b.stalled || noted } :=
  ⟨⟨h.ids, h.back, h.front, h.scanner, fun ha => by rw [h.stalled ha, Bool.true_or],
      h.balanced.trans (.same rfl rfl), h.deepest⟩,
    ⟨h.ready.tidy, h.ready.front, h.ready.token, h.ready.scanner⟩⟩

/-- A fault may leave any state that is kept. -/
theorem Kept.left {a b : State} (h : Kept a b) : Left a b := ⟨h.ids, h.scanner, h.stalled, h.balanced, h.deepest⟩

/-- A fault may leave the state as it was. -/
theorem Left.refl (s : State) : Left s s := ⟨Nat.le_refl _, .refl _, id, .same rfl rfl, Nat.le_max_left _ _⟩

end State

/-- How the parser moves. -/
def course : Course State where
  kept := State.Kept
  left := State.Left
  kept_trans := State.Kept.trans
  left_of_kept h h' := h.toBefore.left h'

/-- The nodes `l` were built since the next number was `i` and the token ahead started at `p`. -/
structure Built (i p : Nat) (l : List Node) (s : State) : Prop where
  ready : s.Ready
  ids : i ≤ s.nextId
  front : p ≤ s.front
  row : Row i p l s.nextId s.back

namespace Built

variable {i p : Nat} {l l' : List Node} {s s' : State}

/-- Before anything is built there are no nodes. -/
theorem start (hs : s.Ready) : Built s.nextId s.front [] s :=
  ⟨hs, Nat.le_refl _, Nat.le_refl _, .nil ..⟩

/-- What was built stays so while the parser moves on. -/
theorem kept (b : Built i p l s) (h : s.Kept s') : Built i p l s' :=
  ⟨h.ready, Nat.le_trans b.ids h.ids, Nat.le_trans b.front h.front,
    b.row.widen (Nat.le_refl _) (Nat.le_refl _) h.ids h.back⟩

/-- What is built later goes behind what was built before. -/
theorem append (b : Built i p l s) (h : s.Kept s') (b' : Built s.nextId s.front l' s') :
    Built i p (l ++ l') s' where
  ready := h.ready
  ids := Nat.le_trans b.ids h.ids
  front := Nat.le_trans b.front h.front
  row := b.row.append b'.row b.ids (Nat.le_refl _) h.ids b.front b.ready.front h.back

/-- Where there is a node, something was taken. -/
theorem le_back (b : Built i p l s) (hl : l ≠ []) : p ≤ s.back := by
  obtain ⟨n, hn⟩ := List.exists_mem_of_ne_nil l hl
  have := b.row.order.of_mem hn
  omega

end Built

/-- Wherever it starts, a part of the grammar that succeeds adds its nodes to the row. -/
def Builds {α : Type} (x : Parse α) (nodesOf : α → List Node) : Prop :=
  ∀ s : State, s.Ready → course.Leads x s fun a s' => Built s.nextId s.front (nodesOf a) s'

variable {α : Type} {i p : Nat} {l : List Node} {s : State} {nodesOf : α → List Node}

/-- A step that builds nodes adds them to those there are. -/
theorem Built.leads {x : Parse α} (nodesOf : α → List Node) (b : Built i p l s)
    (hx : course.Leads x s fun a s' => Built s.nextId s.front (nodesOf a) s') :
    course.Leads x s fun a s' => Built i p (l ++ nodesOf a) s' :=
  hx.mono fun _ _ hs b' => b.append hs b'

/-- The same of a parser that always builds nodes. -/
theorem Builds.after {x : Parse α} (h : Builds x nodesOf) (b : Built i p l s) :
    course.Leads x s fun a s' => Built i p (l ++ nodesOf a) s' :=
  b.leads nodesOf (h s b.ready)

/-- The steps that only take tokens. -/
def Moves (x : Parse α) : Prop := ∀ s : State, s.Ready → course.Leads x s fun _ _ => True

/-- A parser that makes no nodes leaves those there are. -/
theorem Moves.after {x : Parse α} (h : Moves x) (b : Built i p l s) :
    course.Leads x s fun _ s' => Built i p l s' :=
  (h s b.ready).mono fun _ _ hs _ => b.kept hs

/-! ### Looking and taking -/

/-- A value is given back where the parser may go on. -/
theorem pure_leads {a : α} {Q : α → State → Prop} (hs : s.Ready) (h : Q a s) :
    course.Leads (pure a : Parse α) s Q :=
  .pure (.refl hs) h

/-- A fault asks nothing of the state. -/
theorem fail_leads {Q : α → State → Prop} (cause : GrammarFault) (span : Span) :
    course.Leads (fail cause span) s Q :=
  .throw (.refl s)

/-- A fault at the token ahead asks nothing of the state. -/
theorem failAhead_leads {Q : α → State → Prop} (cause : Option String → GrammarFault) :
    course.Leads (failAhead cause) s Q :=
  .look _ rfl (fail_leads _ _)

/-- To want another token is a fault. -/
theorem want_leads {Q : α → State → Prop} (wanted : Wanted) : course.Leads (want wanted) s Q :=
  failAhead_leads _

/-- A step of the scanner changes nothing but the scanner. -/
theorem scan_apply (x : Scan α) (s : State) :
    scan x s = ((x s.scanner).1, { s with scanner := (x s.scanner).2 }) := rfl

/-- A step that goes on from a state that lies behind. -/
theorem resume_leads {x y : Parse α} {Q : α → State → Prop} (s' : State) (h : x s = y s')
    (hs : s.Before s') (hy : course.Leads y s' Q) : course.Leads x s Q :=
  .resume s' h (fun _ => hs.kept) (fun _ => hs.left) hy

/-- A change of the state that only moves on is followed by the rest. -/
theorem modify_leads {f : State → State} {g : PUnit → Parse α} {Q : α → State → Prop}
    (hs : s.Before (f s)) (h : course.Leads (g ⟨⟩) (f s) Q) :
    course.Leads (modify f >>= g) s Q :=
  resume_leads (f s) rfl hs h

/-- What is noted leads nowhere else. -/
theorem note_leads {stalls : State → Bool} {g : Unit → Parse α} {Q : α → State → Prop}
    (h : ∀ noted : Bool, course.Leads (g ()) { s with stalled := s.stalled || noted } Q) :
    course.Leads (note stalls >>= g) s Q :=
  modify_leads ⟨Nat.le_refl _, Nat.le_refl _, Nat.le_refl _, .refl _, fun h => by simp [h],
    .same rfl rfl, Nat.le_max_left _ _⟩ (h _)

/-- To note how deep rules are nested leads nowhere else. -/
theorem noteDepth_before (s : State) (fuel : Nat) :
    s.Before { s with deepest := max s.deepest (fuelFor s.scanner.source - fuel) } :=
  ⟨Nat.le_refl _, Nat.le_refl _, Nat.le_refl _, .refl _, id, .same rfl rfl, by
    show max s.deepest (fuelFor s.scanner.source - fuel) ≤ _
    omega⟩

/-- Noting the depth changes nothing else. -/
theorem noteDepth_leads {fuel : Nat} {f : Unit → Parse α} {Q : α → State → Prop}
    (h : ∀ deepest, s.Before { s with deepest } → course.Leads (f ()) { s with deepest } Q) :
    course.Leads (noteDepth fuel >>= f) s Q :=
  modify_leads (noteDepth_before s fuel) (h _ (noteDepth_before s fuel))

/-- To come to the bound is a fault. -/
theorem exhausted_leads {Q : α → State → Prop} : course.Leads exhausted s Q :=
  note_leads fun _ => .look _ rfl (fail_leads _ _)

/-- The parser follows the scanner, which keeps its comments tidy. -/
theorem scan_leads {β : Type} {x : Scan β} {f : β → Parse α} {P : β → Scanner → Prop}
    {Q : α → State → Prop} (hx : Scanner.course.Leads x s.scanner P)
    (hf : ∀ b scanner, scanner.Tidy → s.scanner.Precedes scanner → P b scanner →
      course.Leads (f b) { s with scanner } Q) : course.Leads (scan x >>= f) s Q := by
  have hrun : (scan x >>= f) s = _ := Course.bind_apply _ _ s
  rw [scan_apply] at hrun
  rcases h : x s.scanner with ⟨fault | b, scanner⟩ <;> rw [h] at hrun
  · exact .of_error hrun ⟨Nat.le_refl _, hx.error h, id, .same rfl rfl, Nat.le_max_left _ _⟩
  · obtain ⟨⟨htidy, hprecedes⟩, hb⟩ := hx.ok h
    exact resume_leads { s with scanner } hrun
      ⟨Nat.le_refl _, Nat.le_refl _, Nat.le_refl _, hprecedes, id, .same rfl rfl, Nat.le_max_left _ _⟩
      (hf b scanner htidy hprecedes hb)

/-- The token ahead is given back, and the next one in a mode is read. -/
theorem advance_apply (mode : ScanMode) (s : State) :
    advance mode s = match Scan.next mode s.scanner with
      | (.ok token, scanner) =>
        (.ok s.token, { s with lastEnd := s.token.span.stop, scanner, token })
      | (.error fault, scanner) =>
        (.error fault, { s with lastEnd := s.token.span.stop, scanner }) := by
  show (scan (Scan.next mode) >>= fun next => do
    modify fun s => { s with token := next }
    return s.token) { s with lastEnd := s.token.span.stop } = _
  rw [Course.bind_apply, scan_apply]
  rcases Scan.next mode s.scanner with ⟨_ | _, _⟩ <;> rfl

/-- Behind the token that was ahead, which is what is given back. -/
theorem advance_leads (hs : s.Ready) (mode : ScanMode) :
    course.Leads (advance mode) s fun t s' => t = s.token ∧ s.front ≤ s'.back := by
  have hback : s.back ≤ s.token.span.stop.offset := Nat.le_trans hs.front hs.token
  -- the token that is taken ends where the last one now does, and the next is scanned behind it
  refine resume_leads { s with lastEnd := s.token.span.stop } (y := do
      let next ← scan (Scan.next mode)
      modify fun s => { s with token := next }
      return s.token) rfl ⟨Nat.le_refl _, hback, Nat.le_refl _, .refl _, id, .same rfl rfl, Nat.le_max_left _ _⟩ ?_
  refine scan_leads (Scan.next_leads hs.tidy mode) fun token scanner htidy _ hspan => ?_
  -- the next token starts no earlier than the one that is taken ends
  have hfront : s.token.span.stop.offset ≤ token.span.start.offset :=
    Nat.le_trans hs.scanner hspan.start
  refine .of_ok rfl ⟨⟨Nat.le_refl _, Nat.le_refl _, Nat.le_trans hs.token hfront, .refl _, id,
    .same rfl rfl, Nat.le_max_left _ _⟩, ?_⟩
    ⟨rfl, hs.token⟩
  exact ⟨htidy, hfront, hspan.order, hspan.stop⟩

/-- The same in script mode. -/
theorem take_leads (hs : s.Ready) :
    course.Leads take s fun t s' => t = s.token ∧ s.front ≤ s'.back :=
  advance_leads hs .script

/-- The same without the token. -/
theorem skip_leads (hs : s.Ready) : course.Leads skip s fun _ s' => s.front ≤ s'.back :=
  ((take_leads hs).mono fun _ _ _ h => h.2).discard

/-- The same in any mode, without the token. -/
theorem pass_leads (hs : s.Ready) (mode : ScanMode) :
    course.Leads (discard (advance mode)) s fun _ s' => s.front ≤ s'.back :=
  ((advance_leads hs mode).mono fun _ _ _ h => h.2).discard

/-- A token of a text is passed over if it is there; if not, nothing changes. -/
theorem eat_leads (hs : s.Ready) (value : String) :
    course.Leads (eat value) s fun found s' => if found then s.front ≤ s'.back else s' = s := by
  refine .look _ rfl (.ite (fun _ => ?_) fun _ => pure_leads hs rfl)
  exact (skip_leads hs).bind fun _ s' h hback => pure_leads h.ready hback

/-- To pass over an optional token makes no nodes. -/
theorem eat_moves (value : String) : Moves (eat value) :=
  fun _ hs => (eat_leads hs value).mono fun _ _ _ _ => trivial

/-- Behind a token that has to be there. -/
theorem expect_leads (hs : s.Ready) (value : String) :
    course.Leads (expect value) s fun _ s' => s.front ≤ s'.back :=
  .look _ rfl (.ite (fun _ => skip_leads hs) fun _ => want_leads _)

/-- Behind a punctuator that has to be there, in the mode that goes on. -/
theorem expectPunctuator_leads (hs : s.Ready) (value : String) (mode : ScanMode) :
    course.Leads (expectPunctuator value mode) s fun _ s' => s.front ≤ s'.back :=
  .look _ rfl (.ite (fun _ => pass_leads hs mode) fun _ => want_leads _)

/-- To pass over a semicolon, or to find that none is needed, makes no nodes. -/
theorem semicolon_moves : Moves semicolon := by
  intro s hs
  refine (eat_moves ";" s hs).bind fun found s' h _ => ?_
  refine .ite (fun _ => .look _ rfl ?_) fun _ => pure_leads h.ready trivial
  exact .ite (fun _ => want_leads _) fun _ => pure_leads h.ready trivial

/-! ### Making nodes -/

variable {start : Position} {form : Form Node}

/-- A node gets the next number, and nothing else changes. -/
theorem nodeAt_leads (hs : s.Ready) (span : Span) :
    course.Leads (nodeAt span form) s fun n s' =>
      n = .mk s.nextId span form ∧ s' = { s with nextId := s.nextId + 1 } :=
  .of_ok rfl ⟨⟨Nat.le_succ _, Nat.le_refl _, Nat.le_refl _, .refl _, id, .same rfl rfl, Nat.le_max_left _ _⟩,
    ⟨hs.tidy, hs.front, hs.token, hs.scanner⟩⟩ ⟨rfl, rfl⟩

/-- A node ends where the last token ended. -/
theorem node_leads (hs : s.Ready) :
    course.Leads (node start form) s fun n s' =>
      n = .mk s.nextId ⟨start, s.lastEnd⟩ form ∧ s' = { s with nextId := s.nextId + 1 } :=
  nodeAt_leads hs ⟨start, s.lastEnd⟩

/-- A new node for which a row is known. -/
theorem node_row {p' : Nat} (b : Built i p l s)
    (hrow : Row i p' [.mk s.nextId ⟨start, s.lastEnd⟩ form] (s.nextId + 1) s.back)
    (hp : p' ≤ s.front) :
    course.Leads (node start form) s fun n s' => n.form = form ∧ Built i p' [n] s' := by
  refine (node_leads b.ready).mono ?_
  rintro _ _ h ⟨rfl, rfl⟩
  exact ⟨rfl, h.ready, Nat.le_trans b.ids h.ids, hp, hrow⟩

/-- The nodes built since `start` become the children of one node. -/
theorem node_built (b : Built i start.offset l s) (hform : form.isPlain = true)
    (hback : start.offset ≤ s.back)
    (hl : form.children.map (·.2) = l) :
    course.Leads (node start form) s fun n s' => Built i start.offset [n] s' := by
  have hrow : Row i start.offset [.mk s.nextId ⟨start, s.lastEnd⟩ form] (s.nextId + 1) s.back :=
    b.row.node hform hl b.ids (Nat.le_refl _) hback (Nat.le_refl _)
  exact (node_row b hrow b.front).mono fun _ _ _ h => h.2

/-- What is checked with the token ahead and then goes on. -/
theorem unless_leads {c : Prop} [Decidable c] {f : PUnit → Parse α} {Q : α → State → Prop}
    {cause : Parse PUnit} (hcause : course.Leads cause s fun _ _ => False)
    (h : course.Leads (f ⟨⟩) s Q) :
    course.Leads (if c then cause >>= f else f ⟨⟩) s Q :=
  .ite (fun _ => hcause.bind fun _ _ _ h => h.elim) fun _ => h

/-- A step that is made or not before what goes on. -/
theorem when_leads {c : Prop} [Decidable c] {x : Parse PUnit} {f : PUnit → Parse α}
    {Q : α → State → Prop} (hx : Moves x) (b : Built i p l s)
    (h : ∀ s', Built i p l s' → course.Leads (f ⟨⟩) s' Q) :
    course.Leads (if c then x >>= f else f ⟨⟩) s Q :=
  .ite (fun _ => (hx.after b).bind fun _ s' _ b' => h s' b') fun _ => h s b

/-- Two ways to get what is gone on with. -/
theorem either_leads {β : Type} {c : Prop} [Decidable c] {x y : Parse β} {f : β → Parse α}
    {P : β → State → Prop} {Q : α → State → Prop} (hx : course.Leads x s P)
    (hy : course.Leads y s P) (hf : ∀ b s', s.Kept s' → P b s' → course.Leads (f b) s' Q) :
    course.Leads (if c then x >>= f else y >>= f) s Q :=
  .ite (fun _ => hx.bind hf) fun _ => hy.bind hf

/-- To skip a token makes no nodes. -/
theorem skip_moves : Moves skip := fun _ hs => (skip_leads hs).mono fun _ _ _ _ => trivial

/-- The token ahead becomes a node without children. -/
theorem leaf_leads (hs : s.Ready) {form : Token → Form Node}
    (hform : ∀ t, (form t).isPlain = true) (hl : ∀ t, (form t).children = []) :
    course.Leads (take >>= fun token => node s.token.span.start (form token)) s fun n s' =>
      Built s.nextId s.front [n] s' := by
  refine (take_leads hs).bind fun token s' h hback => ?_
  exact node_built ((Built.start hs).kept h) (hform token) hback.2 (by rw [hl]; rfl)

/-- An identifier is one node. -/
theorem identifier_builds : Builds identifier ([·]) := by
  intro s hs
  refine .look _ rfl (unless_leads (want_leads _) (.look _ rfl ?_))
  exact leaf_leads hs (fun _ => rfl) fun _ => rfl

/-- The name of a module is one node. -/
theorem moduleName_builds : Builds moduleName ([·]) := by
  intro s hs
  refine .look _ rfl (unless_leads (want_leads _) (.look _ rfl ?_))
  exact leaf_leads hs (fun _ => rfl) fun _ => rfl

/-- The name of a property is one node. -/
theorem propertyName_builds : Builds propertyName ([·]) := by
  intro s hs
  refine .look _ rfl (.look _ rfl (.ite (fun _ => leaf_leads hs (fun _ => rfl) fun _ => rfl)
    fun _ => .look _ rfl (.ite (fun _ => leaf_leads hs (fun _ => rfl) fun _ => rfl) fun _ => ?_)))
  exact want_leads _

/-! ### Coming back -/

/-- Where the parser comes back to after it failed. -/
theorem restore_apply {s' : State} (hs : s.Ready) (h : s.Left s') :
    restore ⟨s.scanner.position, s.token, s.lastEnd⟩ s' =
      (.ok (), { s' with scanner := s.scanner, token := s.token, lastEnd := s.lastEnd }) := by
  have hrun : restore ⟨s.scanner.position, s.token, s.lastEnd⟩ s' = (.ok (), { s' with
      scanner := s'.scanner.seek s.scanner.position, token := s.token,
      lastEnd := s.lastEnd }) := rfl
  rw [hrun, Scanner.seek_of_precedes hs.tidy h.scanner]

/-- The parser may go back to where it looked ahead from. -/
theorem kept_restored {s' : State} (hs : s.Ready) (h : s.Left s') :
    s.Kept { s' with scanner := s.scanner, token := s.token, lastEnd := s.lastEnd } :=
  ⟨⟨h.ids, Nat.le_refl _, Nat.le_refl _, .refl _, h.stalled, h.balanced.trans (.same rfl rfl), h.deepest⟩,
    ⟨hs.tidy, hs.front, hs.token, hs.scanner⟩⟩

/-- An attempt: if it fails, the parser comes back and goes on otherwise, with the same token ahead. -/
theorem attempt_leads {β : Type} {x : Parse β} {f : Except SourceFault β → Parse α} {g : Parse α}
    {P : β → State → Prop} {Q : α → State → Prop} (hs : s.Ready) (hx : course.Leads x s P)
    (hok : ∀ b s', s.Kept s' → P b s' → course.Leads (f (.ok b)) s' Q)
    (herror : ∀ e, f (.error e) = do
      restore ⟨s.scanner.position, s.token, s.lastEnd⟩
      g)
    (hg : ∀ s', s.Kept s' → s'.scanner = s.scanner → s'.token = s.token → course.Leads g s' Q) :
    course.Leads (observe x >>= f) s Q := by
  -- the outcome of the attempt decides how it goes on, and from which state
  have hrun : (observe x >>= f) s = f (x s).1 (x s).2 := rfl
  rcases h : x s with ⟨fault | b, s'⟩ <;> rw [h] at hrun
  · -- a fault takes the parser back to where it was, but for the nodes that were numbered
    have hleft := hx.error h
    have hback : f (.error fault) s' =
        g { s' with scanner := s.scanner, token := s.token, lastEnd := s.lastEnd } := by
      rw [herror, Course.bind_apply, restore_apply hs hleft]
    have hkept := kept_restored hs hleft
    exact .jump _ (hrun.trans hback) hkept (hg _ hkept rfl rfl)
  · -- a success goes on from where it has come to
    obtain ⟨hs', hb⟩ := hx.ok h
    exact .jump s' hrun hs' (hok b s' hs' hb)

/-- Looking ahead: the parser comes back, with what it found. -/
theorem lookAhead_apply {x : Parse α} {r : Except SourceFault α} {s' : State} (hs : s.Ready)
    (hx : x s = (r, s')) (hleft : s.Left s') :
    lookAhead x s = (r, { s' with scanner := s.scanner, token := s.token, lastEnd := s.lastEnd }) := by
  have hsnapshot : snapshot s = (.ok ⟨s.scanner.position, s.token, s.lastEnd⟩, s) := rfl
  have hobserve : observe x s = (.ok r, s') := by simp only [observe, hx]
  rw [lookAhead, Course.bind_apply, hsnapshot]
  dsimp only
  rw [Course.bind_apply, hobserve]
  dsimp only
  rw [Course.bind_apply, restore_apply hs hleft]
  cases r <;> rfl

/-- Looking ahead leaves the scanner and the token where they were. -/
theorem lookAhead_leads {x : Parse α} (hx : Moves x) (hs : s.Ready) :
    course.Leads (lookAhead x) s fun _ s' => s'.scanner = s.scanner ∧ s'.token = s.token := by
  have hx := hx s hs
  rcases h : x s with ⟨fault | a, s'⟩
  · have hleft := hx.error h
    exact .of_error (lookAhead_apply hs h hleft) (kept_restored hs hleft).left
  · have hleft := (hx.ok h).1.left
    exact .of_ok (lookAhead_apply hs h hleft) (kept_restored hs hleft) ⟨rfl, rfl⟩

/-- To look at the token behind the next one leaves both where they were. -/
theorem second_leads (hs : s.Ready) :
    course.Leads second s fun _ s' => s'.scanner = s.scanner ∧ s'.token = s.token :=
  lookAhead_leads (fun _ hs => (skip_leads hs).bind fun _ _ h _ => .look _ rfl
    (pure_leads h.ready trivial)) hs

/-- It makes no nodes. -/
theorem second_moves : Moves second := fun _ hs => (second_leads hs).mono fun _ _ _ _ => trivial

/-- Nor does it to look at its text. -/
theorem secondText_moves : Moves secondText :=
  fun s hs => (second_moves s hs).bind fun _ _ h _ => pure_leads h.ready trivial

/-- What is built does not depend on the depth. -/
theorem Built.depth {s : State} (b : Built i p l s) (depth : Nat) :
    Built i p l { s with depth } :=
  ⟨⟨b.ready.tidy, b.ready.front, b.ready.token, b.ready.scanner⟩, b.ids, b.front, b.row⟩

/-- Nor on whether the parser has stalled. -/
theorem Built.noted {s : State} (b : Built i p l s) (noted : Bool) :
    Built i p l { s with stalled := s.stalled || noted } :=
  ⟨⟨b.ready.tidy, b.ready.front, b.ready.token, b.ready.scanner⟩, b.ids, b.front, b.row⟩

/-- Nor on how deep the calls were. -/
theorem Built.deepest {s : State} (b : Built i p l s) (deepest : Nat) :
    Built i p l { s with deepest } :=
  ⟨⟨b.ready.tidy, b.ready.front, b.ready.token, b.ready.scanner⟩, b.ids, b.front, b.row⟩

/-- To go deeper is refused behind the bound, and counted before that. -/
theorem enter_apply (s : State) :
    enter s = if maxNesting < s.depth + 1 then
        (.error (.grammar .nestedTooDeeply s.token.span),
          { s with depth := s.depth + 1, refused := s.refused + 1 })
      else (.ok (), { s with depth := s.depth + 1 }) := by
  calc enter s = (if maxNesting < s.depth + 1 then do
          modify fun s => { s with refused := s.refused + 1 }
          fail .nestedTooDeeply s.token.span
        else pure ⟨⟩ : Parse Unit) { s with depth := s.depth + 1 } := rfl
    _ = _ := by split <;> rfl

/-- A step one level deeper: it is refused, or it is made there and then the parser comes up again. -/
theorem nested_apply (x : Parse α) (s : State) :
    nested x s = if maxNesting < s.depth + 1 then
        (.error (.grammar .nestedTooDeeply s.token.span),
          { s with depth := s.depth + 1, refused := s.refused + 1 })
      else
        ((x { s with depth := s.depth + 1 }).1,
          { (x { s with depth := s.depth + 1 }).2 with
            depth := (x { s with depth := s.depth + 1 }).2.depth - 1 }) := by
  rw [nested, Course.bind_apply, enter_apply]
  -- the depth is counted before it is compared, so a refusal leaves it counted
  by_cases hdeep : maxNesting < s.depth + 1
  · rw [if_pos hdeep, if_pos hdeep]
  · rw [if_neg hdeep, if_neg hdeep]
    rfl

/-- Where it was refused to go deeper, one level more than before is counted. -/
theorem State.balanced_refused (s : State) :
    s.Balanced { s with depth := s.depth + 1, refused := s.refused + 1 } := by
  constructor
  · exact Nat.le_succ s.refused
  · show s.depth + 1 + s.refused = s.depth + (s.refused + 1)
    omega

/-- Refusing leaves a state that is counted as deeper, and as refused. -/
theorem left_refused (s : State) :
    s.Left { s with depth := s.depth + 1, refused := s.refused + 1 } :=
  ⟨Nat.le_refl _, .refl _, id, s.balanced_refused, Nat.le_max_left _ _⟩

/-- Where the parser comes up again, it stands where the step one level deeper ended. -/
theorem left_leave {s' : State} (h : State.Left { s with depth := s.depth + 1 } s') :
    s.Left { s' with depth := s'.depth - 1 } :=
  ⟨h.ids, h.scanner, h.stalled, h.balanced.leave, h.deepest⟩

/-- The depth is taken back behind what was parsed deeper. -/
theorem kept_leave {s' : State} (h : State.Kept { s with depth := s.depth + 1 } s') :
    s.Kept { s' with depth := s'.depth - 1 } :=
  ⟨⟨h.ids, h.back, h.front, h.scanner, h.stalled, h.balanced.leave, h.deepest⟩,
    ⟨h.ready.tidy, h.ready.front, h.ready.token, h.ready.scanner⟩⟩

/-- Going one level deeper changes nothing but the depth. -/
theorem nested_leads {x : Parse α} {P Q : α → State → Prop}
    (hx : course.Leads x { s with depth := s.depth + 1 } P)
    (hP : ∀ a s', State.Kept { s with depth := s.depth + 1 } s' → P a s' →
      Q a { s' with depth := s'.depth - 1 }) : course.Leads (nested x) s Q := by
  have hrun := nested_apply x s
  split at hrun
  · -- refused: the body has not run
    exact .of_error hrun (left_refused s)
  · -- the body runs one level deeper, and the level is left however it ends
    cases h : x { s with depth := s.depth + 1 } with
    | mk r s' =>
      rw [h] at hrun
      cases r with
      | error fault => exact .of_error hrun (left_leave (hx.error h))
      | ok a =>
        obtain ⟨hs', ha⟩ := hx.ok h
        exact .of_ok hrun (kept_leave hs') (hP a s' hs' ha)

/-- One level deeper the same nodes are built. -/
theorem nested_builds {x : Parse α} (hx : Builds x nodesOf) : Builds (nested x) nodesOf :=
  fun _ hs => nested_leads (hx _ ⟨hs.tidy, hs.front, hs.token, hs.scanner⟩) fun _ _ _ b => b.depth _

/-! ### Loops -/

/-- A loop adds to what was built before what its rounds add. -/
theorem collectUpTo_leads {more : Parse Bool} {item : Parse (α × Bool)}
    {R : List Node → State → Prop} (nodesOf : α → List Node) (hready : ∀ l s, R l s → s.Ready)
    (hnote : ∀ l s, R l s → ∀ noted : Bool, R l { s with stalled := s.stalled || noted })
    (hmore : ∀ l s, R l s → course.Leads more s fun _ s' => R l s')
    (hitem : ∀ l s, R l s → course.Leads item s fun r s' => R (l ++ nodesOf r.1) s') (n : Nat)
    (hs : R l s) :
    course.Leads (collectUpTo more item n) s fun as s' => R (l ++ as.flatMap nodesOf) s' := by
  -- by induction on the rounds that are left; the nodes so far are carried along
  induction n generalizing l s with
  | zero => exact exhausted_leads
  | succ n ih =>
    refine .look _ rfl ((hmore l s hs).bind fun goesOn s1 _ h1 => .ite (fun _ => ?_) fun _ => ?_)
    · -- one item, and the note of whether the round came onward
      refine (hitem l s1 h1).bind fun r s2 _ h2 => note_leads fun noted => ?_
      have hnoted : R (l ++ nodesOf r.1) { s2 with stalled := s2.stalled || noted } :=
        hnote _ _ h2 noted
      refine .ite (fun _ => ?_) fun _ => pure_leads (hready _ _ hnoted) (by simpa using hnoted)
      exact (ih hnoted).bind fun as s3 _ h3 => pure_leads (hready _ _ h3) (by simpa using h3)
    · exact pure_leads (hready _ _ h1) (by simpa using h1)

/-- A loop builds the nodes of its items, one after the other. -/
theorem collect_builds {more : Parse Bool} {item : Parse (α × Bool)}
    (hmore : Moves more) (hitem : Builds item fun r => nodesOf r.1) :
    Builds (collect more item) fun as => as.flatMap nodesOf :=
  fun s hs => .look _ rfl (collectUpTo_leads (R := Built s.nextId s.front) _ (fun _ _ b => b.ready)
    (fun _ _ b => b.noted) (fun _ _ b => hmore.after b) (fun _ _ b => hitem.after b) _ (.start hs))

/-- A parser that only looks makes no nodes. -/
theorem moves_of_look {x : Parse α} (h : ∀ s, ∃ a, x s = (.ok a, s)) : Moves x := by
  intro s hs
  obtain ⟨a, ha⟩ := h s
  exact .of_ok ha (.refl hs) trivial

/-- Items between commas build their nodes one after the other. -/
theorem separated_builds {item : Parse α} (close : String)
    (hitem : Builds item nodesOf) : Builds (separated close item) fun as => as.flatMap nodesOf := by
  refine collect_builds (moves_of_look fun s => ⟨_, rfl⟩) fun s hs => ?_
  refine (hitem s hs).bind fun a s1 _ b1 => ?_
  exact ((eat_moves ",").after b1).bind fun _ _ _ b2 => pure_leads b2.ready b2

/-- Loops over single nodes build the list that they give. -/
theorem collect_nodes {more : Parse Bool} {item : Parse (Node × Bool)} (hmore : Moves more)
    (hitem : Builds item fun r => [r.1]) : Builds (collect more item) id := by
  have hcollect : Builds (collect more item) fun as => as.flatMap ([·]) :=
    collect_builds hmore hitem
  intro s hs
  refine (hcollect s hs).mono fun as s' _ b => ?_
  simpa using b

/-- The same of items that are nodes themselves. -/
theorem separated_nodes {item : Parse Node} (close : String) (hitem : Builds item ([·])) :
    Builds (separated close item) id := by
  intro s hs
  refine (separated_builds close hitem s hs).mono fun as s' _ b => ?_
  simpa using b

/-- A loop that goes on with what the last round built. -/
theorem extend_leads {step : α → Parse (Option α)} {Q : α → State → Prop}
    (hready : ∀ a s, Q a s → s.Ready)
    (hnote : ∀ a s, Q a s → ∀ noted : Bool, Q a { s with stalled := s.stalled || noted })
    (hstep : ∀ a s, Q a s → course.Leads (step a) s fun o s' => Q (o.getD a) s') {a : α}
    (ha : Q a s) : course.Leads (extend step a) s Q := by
  -- as many rounds as the source has characters, and two more, are always left
  refine .look _ rfl ?_
  generalize s.scanner.source.size + 2 = n
  induction n generalizing a s with
  | zero => exact exhausted_leads
  | succ n ih =>
    refine .look _ rfl ((hstep a s ha).bind fun o s' _ ho => ?_)
    -- either nothing follows, or the value that follows takes the place
    cases o with
    | none => exact pure_leads (hready _ _ ho) ho
    | some b => exact note_leads fun noted => ih (hnote _ _ ho noted)

end Reflow.Grammar
