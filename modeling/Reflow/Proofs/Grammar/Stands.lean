import Reflow.Proofs.Grammar.Steps
import Reflow.Proofs.Token.Words

/-!
# Reading words

A parser stands before a list of words if the token ahead is the first of them and the scanner reads
the others.  `Gives` says that a part of the grammar succeeds with a property of its result and of
where it then stands, or fails in one of the ways that are left open: what is read for good may only
be nested too deeply, and what is only tried may fail in any way.

## Key results

- `Gives.bind` and the rules for single steps: how a run goes through a part of the grammar
- `Gives.deeper`: where the input may be nested too deeply
-/

namespace Reflow

/-- Is the word one of the given names or punctuators? -/
def Word.isOne (w : Word) (values : List String) : Bool :=
  (w.kind == .punctuator || w.kind == .name) && values.contains w.text

namespace Grammar

/-- The parser looks at the first of the words, and the scanner reads the others. -/
structure Stands (s : State) (ws : List Word) : Prop where
  ready : s.Ready
  ahead : ws.head? = some s.token.word
  rest : Yields s.scanner ws.tail
  /-- There are no more words than the bound on loops allows. -/
  room : ws.length ≤ s.scanner.source.size + 1

namespace Stands

variable {s : State} {w : Word} {ws : List Word}

/-- The token ahead is the first word. -/
theorem word_eq (h : Stands s (w :: ws)) : s.token.word = w := (Option.some.inj h.ahead).symm

/-- So it has one of some texts if that word has. -/
theorem isOne_eq (h : Stands s (w :: ws)) (values : List String) :
    isOne s.token values = w.isOne values := by
  rw [← h.word_eq]
  rfl

/-- Its kind is that of the word. -/
theorem kind_eq (h : Stands s (w :: ws)) : s.token.kind = w.kind := congrArg Word.kind h.word_eq

/-- So is its text. -/
theorem text_eq (h : Stands s (w :: ws)) : s.token.text = w.text := congrArg Word.text h.word_eq

/-- Only the token ahead and the scanner tell where a parser stands. -/
theorem congr {t : State} (h : Stands s ws) (hscanner : t.scanner = s.scanner)
    (htoken : t.token = s.token) (hend : t.lastEnd = s.lastEnd) : Stands t ws := by
  -- only these three parts of the state matter
  have hback : t.back = s.back := congrArg Position.offset hend
  have hfront : t.front = s.front := by rw [State.front, State.front, htoken]
  refine ⟨⟨?_, ?_, ?_, ?_⟩, ?_, ?_, ?_⟩
  · rw [hscanner]
    exact h.ready.tidy
  · rw [hback, hfront]
    exact h.ready.front
  · rw [hfront, htoken]
    exact h.ready.token
  · rw [htoken, hscanner]
    exact h.ready.scanner
  · rw [htoken]
    exact h.ahead
  · rw [hscanner]
    exact h.rest
  · rw [hscanner]
    exact h.room

/-- Taking a word leads to the next one. -/
theorem advance (h : Stands s (w :: ws)) (hws : ws ≠ []) :
    ∃ s', Grammar.take s = (.ok s.token, s') ∧ Stands s' ws := by
  obtain ⟨w', ws, rfl⟩ := List.exists_cons_of_ne_nil hws
  -- the next word is scanned where this one ends
  obtain ⟨token, scanner, hnext, hword, hrest⟩ := h.rest
  have happly : Grammar.take s =
      (.ok s.token, { s with lastEnd := s.token.span.stop, scanner, token }) := by
    have hscan : Scan.next .script s.scanner = (.ok token, scanner) := hnext
    rw [Grammar.take, advance_apply, hscan]
  refine ⟨_, happly, ((take_leads h.ready).ok happly).1.ready, congrArg some hword.symm, hrest, ?_⟩
  -- the source stays, so there is room for the other words
  have hsource : scanner.source = s.scanner.source := Scan.nextScript_source hnext
  have hroom := h.room
  simp only [List.length_cons] at hroom ⊢
  rw [hsource]
  omega

/-- Where a source of words starts, the first token leads to the words. -/
theorem start {source : Source} {token : Token} {scanner : Scanner} {ws : List Word}
    (hnext : Scan.nextScript (.start source) = (.ok token, scanner)) (hrest : Yields scanner ws)
    (hroom : ws.length ≤ source.size) : Stands { scanner, token } (token.word :: ws) := by
  have htidy : (Scanner.start source).Tidy := trivial
  obtain ⟨⟨hscanner, -⟩, hspan⟩ := (Scan.next_leads htidy .script).ok hnext
  refine ⟨⟨hscanner, Nat.zero_le _, hspan.order, hspan.stop⟩, rfl, hrest, ?_⟩
  show ws.length + 1 ≤ scanner.source.size + 1
  rw [Scan.nextScript_source hnext]
  exact Nat.succ_le_succ hroom

end Stands

/-- The step succeeds with `Q`, or fails with one of the given faults. -/
def Gives {α : Type} (faults : SourceFault → Prop) (x : Parse α) (s : State)
    (Q : α → State → Prop) : Prop :=
  match x s with
  | (.ok a, s') => Q a s'
  | (.error fault, _) => faults fault

/-- The input is nested too deeply. -/
def TooDeep (fault : SourceFault) : Prop := ∃ span, fault = .grammar .nestedTooDeeply span

namespace Gives

variable {α β : Type} {F : SourceFault → Prop} {x : Parse α} {f : α → Parse β} {s : State}
  {P : α → State → Prop} {Q : β → State → Prop} {w : Word} {ws : List Word} {value : String}
  {values : List String}

/-- A result that is at hand. -/
theorem of_ok {a : α} {s' : State} (h : x s = (.ok a, s')) (ha : P a s') : Gives F x s P := by
  rw [Gives, h]
  exact ha

/-- A fault that is at hand. -/
theorem of_error {fault : SourceFault} {s' : State} (h : x s = (.error fault, s'))
    (hfault : F fault) : Gives F x s P := by
  rw [Gives, h]
  exact hfault

/-- What is known of a fault, once there is one. -/
theorem error {fault : SourceFault} {s' : State} (hx : Gives F x s P)
    (h : x s = (.error fault, s')) : F fault := by
  rwa [Gives, h] at hx

/-- What is known of a result, once there is one. -/
theorem ok {a : α} {s' : State} (hx : Gives F x s P) (h : x s = (.ok a, s')) : P a s' := by
  rwa [Gives, h] at hx

/-- A second step starts from what the first one gives. -/
protected theorem bind (hx : Gives F x s P) (hf : ∀ a s', P a s' → Gives F (f a) s' Q) :
    Gives F (x >>= f) s Q := by
  rcases h : x s with ⟨fault | a, s'⟩
  · exact of_error (by rw [Course.bind_apply, h]) (hx.error h)
  · have hrun : (x >>= f) s = f a s' := by rw [Course.bind_apply, h]
    rw [Gives, hrun]
    exact hf a s' (hx.ok h)

/-- Less may be claimed, of results and of faults. -/
theorem mono {G : SourceFault → Prop} {P' : α → State → Prop} (hx : Gives F x s P)
    (hfaults : ∀ fault, F fault → G fault) (h : ∀ a s', P a s' → P' a s') : Gives G x s P' := by
  rcases hr : x s with ⟨fault | a, s'⟩
  · exact of_error hr (hfaults _ (hx.error hr))
  · exact of_ok hr (h _ _ (hx.ok hr))

/-- To give a value back gives that value. -/
protected theorem pure {a : α} (ha : P a s) : Gives F (pure a) s P := ha

/-- The result may be changed behind the step. -/
protected theorem map {g : α → β} (hx : Gives F x s fun a s' => Q (g a) s') :
    Gives F (g <$> x) s Q := by
  have h : (g <$> x) = x >>= fun a => pure (g a) := (bind_pure_comp g x).symm
  rw [h]
  exact hx.bind fun _ _ ha => ha

/-- What is known of a step in another way holds of its result too. -/
theorem with_leads {Q : α → State → Prop} (hx : Gives F x s P) (hleads : course.Leads x s Q) :
    Gives F x s fun a s' => P a s' ∧ Q a s' := by
  rcases h : x s with ⟨fault | a, s'⟩
  · exact of_error h (hx.error h)
  · exact of_ok h ⟨hx.ok h, (hleads.ok h).2⟩

/-- A step that only looks at the state. -/
theorem look (a : α) (h : x s = (.ok a, s)) (hf : Gives F (f a) s Q) : Gives F (x >>= f) s Q := by
  have hx : (x >>= f) s = f a s := by rw [Course.bind_apply, h]
  rw [Gives, hx]
  exact hf

/-- What is noted does not tell where the parser stands. -/
theorem note {stalls : State → Bool} {f : Unit → Parse β} (h : Stands s ws)
    (hf : ∀ s', Stands s' ws → Gives F (f ()) s' Q) : Gives F (note stalls >>= f) s Q :=
  hf { s with stalled := s.stalled || stalls s } (h.congr rfl rfl rfl)

/-- How deep rules are nested does not tell where the parser stands. -/
theorem noteDepth {fuel : Nat} {f : Unit → Parse β} (h : Stands s ws)
    (hf : ∀ s', Stands s' ws → Gives F (f ()) s' Q) : Gives F (noteDepth fuel >>= f) s Q :=
  hf { s with deepest := max s.deepest (fuelFor s.scanner.source - fuel) } (h.congr rfl rfl rfl)

/-- One of the given words is ahead. -/
theorem isAt_pos {y z : Parse β} (h : Stands s (w :: ws)) (hw : w.isOne values = true)
    (hy : Gives F y s Q) : Gives F (isAt values >>= fun found => if found = true then y else z) s Q :=
  look (isOne s.token values) rfl (by rwa [h.isOne_eq, if_pos hw])

/-- None of the given words is ahead. -/
theorem isAt_neg {y z : Parse β} (h : Stands s (w :: ws)) (hw : w.isOne values = false)
    (hz : Gives F z s Q) : Gives F (isAt values >>= fun found => if found = true then y else z) s Q :=
  look (isOne s.token values) rfl (by rwa [h.isOne_eq, if_neg (by simp [hw])])

/-- To take the first word leaves the others ahead. -/
theorem take {f : Token → Parse β} (h : Stands s (w :: ws)) (hws : ws ≠ [])
    (hf : ∀ token s', token.word = w → Stands s' ws → Gives F (f token) s' Q) :
    Gives F (take >>= f) s Q := by
  obtain ⟨s', hrun, hs'⟩ := h.advance hws
  rw [Gives, Course.bind_apply, hrun]
  exact hf s.token s' h.word_eq hs'

/-- To skip a token is to take it and drop it. -/
theorem skip_apply {s' : State} {token : Token} (h : Grammar.take s = (.ok token, s')) :
    Grammar.skip s = (.ok (), s') := by
  have hskip : Grammar.skip = (Grammar.take >>= fun _ => pure ()) :=
    (bind_pure_comp (fun _ => ()) Grammar.take).symm
  rw [hskip, Course.bind_apply, h]
  rfl

/-- To skip the first word leaves the others ahead. -/
theorem skip {f : Unit → Parse β} (h : Stands s (w :: ws)) (hws : ws ≠ [])
    (hf : ∀ s', Stands s' ws → Gives F (f ()) s' Q) : Gives F (skip >>= f) s Q := by
  obtain ⟨s', hrun, hs'⟩ := h.advance hws
  rw [Gives, Course.bind_apply, skip_apply hrun]
  exact hf s' hs'

/-- An optional word that is there is skipped. -/
theorem eat_pos {f : Bool → Parse β} (h : Stands s (w :: ws)) (hws : ws ≠ [])
    (hw : w.isOne [value] = true) (hf : ∀ s', Stands s' ws → Gives F (f true) s' Q) :
    Gives F (eat value >>= f) s Q := by
  refine .bind (P := fun found s' => found = true ∧ Stands s' ws) ?_ ?_
  · exact .isAt_pos h hw (.skip h hws fun s' hs' => .pure ⟨rfl, hs'⟩)
  · rintro _ s' ⟨rfl, hs'⟩
    exact hf s' hs'

/-- One that is not there is not. -/
theorem eat_neg {f : Bool → Parse β} (h : Stands s (w :: ws)) (hw : w.isOne [value] = false)
    (hf : Gives F (f false) s Q) : Gives F (eat value >>= f) s Q := by
  refine .bind (P := fun found s' => found = false ∧ s' = s) ?_ ?_
  · exact .isAt_neg h hw (.pure ⟨rfl, rfl⟩)
  · rintro _ _ ⟨rfl, rfl⟩
    exact hf

/-- A word that has to be there is skipped if it is. -/
theorem expect {f : Unit → Parse β} (h : Stands s (w :: ws)) (hws : ws ≠ [])
    (hw : w.isOne [value] = true) (hf : ∀ s', Stands s' ws → Gives F (f ()) s' Q) :
    Gives F (expect value >>= f) s Q := by
  refine .bind (P := fun _ s' => Stands s' ws) ?_ fun _ => hf
  obtain ⟨s', hrun, hs'⟩ := h.advance hws
  exact .isAt_pos h hw (of_ok (skip_apply hrun) hs')

/-- A node of a form is made. -/
theorem node {start : Position} {form : Form Node} {P : Node → State → Prop} (h : Stands s ws)
    (hP : ∀ n s', n.form = form → Stands s' ws → P n s') : Gives F (node start form) s P :=
  of_ok rfl (hP _ _ rfl (h.congr rfl rfl rfl))

/-- Where it is one level deeper, the input may be nested too deeply. -/
theorem deeper (hF : ∀ fault, TooDeep fault → F fault)
    (hx : ∀ depth, Gives F x { s with depth } P)
    (hP : ∀ a s' depth, P a s' → P a { s' with depth }) : Gives F (nested x) s P := by
  have hrun := nested_apply x s
  split at hrun
  · exact of_error hrun (hF _ ⟨_, rfl⟩)
  · cases h : x { s with depth := s.depth + 1 } with
    | mk r s' =>
      rw [h] at hrun
      cases r with
      | error fault => exact of_error hrun ((hx _).error h)
      | ok a => exact of_ok hrun (hP _ _ _ ((hx _).ok h))

/-- How deep the parser is does not tell where it stands. -/
protected theorem nested {P : α → Prop} {ws' : List Word} (hF : ∀ fault, TooDeep fault → F fault)
    (h : Stands s ws)
    (hx : ∀ s', Stands s' ws → Gives F x s' fun a s'' => P a ∧ Stands s'' ws') :
    Gives F (nested x) s fun a s' => P a ∧ Stands s' ws' :=
  deeper hF (fun _ => hx _ (h.congr rfl rfl rfl)) fun _ _ _ ⟨ha, hs'⟩ => ⟨ha, hs'.congr rfl rfl rfl⟩

/-- A name becomes an identifier. -/
theorem identifier {text : String} (h : Stands s (Word.name text :: ws)) (hws : ws ≠ [])
    (htext : reserved.contains text = false) :
    Gives F identifier s fun n s' => n.form = .identifier text ∧ Stands s' ws := by
  have hname : isName s.token = true := by
    rw [isName, h.kind_eq, h.text_eq]
    show (TokenKind.name == TokenKind.name && !reserved.contains text) = true
    rw [htext]
    rfl
  refine .look _ rfl ?_
  rw [hname]
  refine .look _ rfl (.take h hws fun token s' htoken hs' => .node hs' fun n s'' hn hs'' => ?_)
  exact ⟨hn.trans (congrArg (Form.identifier ∘ Word.text) htoken), hs''⟩

end Gives

end Grammar

end Reflow
