import Reflow.Proofs.Grammar.Follow
import Reflow.Proofs.Token.Places

/-!
# The parser's positions are counted

The parser takes positions from the tokens that it sees, from the scanner and from the nodes that it
has built, and makes none up.  So wherever it gives up, the fault lies at a place of the source.

A node is located if it and all nodes below it are; by `Node.locates_mk`, a new one is located if
its span and what its form holds are.

## Key results

- `node_confined`: making a node of what is located
- `collect_confined`, `extend_confined`: loops whose rounds are confined
- `lookAhead_confined`, `nested_confined`: coming back and going deeper
-/

namespace Reflow

instance : HasPlaces Node where
  within source n :=
    n.all (fun m => decide (source.Counts m.span.start ∧ source.Counts m.span.stop)) = true

instance : HasPlaces (Field Node) where
  within source
    | .one _ n => source.Locates n
    | .maybe _ o => source.Locates o
    | .many _ l => source.Locates l
    | .holes _ l => source.Locates l
    | .text .. | .flag .. => True

instance : HasPlaces (Form Node) := ⟨fun source form => source.Locates form.fields⟩

instance : HasPlaces ScanMode := ⟨fun _ _ => True⟩

variable {source : Source}

namespace Field

variable {slot : Slot} {n : Node} {o : Option Node} {l : List Node} {holes : List (Option Node)}
  {label text : String} {flag : Bool}

@[simp] theorem locates_one : source.Locates (Field.one slot n) ↔ source.Locates n := .rfl

@[simp] theorem locates_maybe : source.Locates (Field.maybe slot o) ↔ source.Locates o := .rfl

@[simp] theorem locates_many : source.Locates (Field.many slot l) ↔ source.Locates l := .rfl

@[simp] theorem locates_holes : source.Locates (Field.holes slot holes) ↔ source.Locates holes :=
  .rfl

@[simp] theorem locates_text : source.Locates (Field.text label text : Field Node) := trivial

@[simp] theorem locates_flag : source.Locates (Field.flag label flag : Field Node) := trivial

/-- The children in a located field are located. -/
theorem locates_child {f : Field Node} (h : source.Locates f) {p : Place × Node}
    (hp : p ∈ f.children) : source.Locates p.2 := by
  -- by the kind of the field: each child is one of its nodes
  cases f with
  | one slot n =>
    rw [List.mem_singleton.1 hp]
    exact h
  | maybe slot o =>
    cases o with
    | none => cases hp
    | some n =>
      rw [List.mem_singleton.1 hp]
      exact locates_maybe.1 h n rfl
  | many slot l =>
    obtain ⟨n, hn, hp⟩ := List.mem_map.1 (mem_of_mem_placeAll hp)
    cases hp
    exact locates_many.1 h _ hn
  | holes slot l => exact locates_holes.1 h _ (mem_of_mem_placeAll hp) p.2 rfl
  | text => cases hp
  | flag => cases hp

end Field

/-- The places of a form are those of its fields. -/
theorem Form.locates_iff {form : Form Node} :
    source.Locates form ↔ source.Locates form.fields :=
  .rfl

namespace Node

variable {n : Node}

/-- The places of a node are its own and those of its children. -/
theorem locates_iff : source.Locates n ↔
    source.Locates n.span ∧ ∀ m ∈ n.form.children.map (·.2), source.Locates m := by
  refine all_iff.trans (and_congr_left fun _ => ?_)
  exact decide_eq_true_iff

/-- The place of a node is one of its places. -/
theorem locates_span (h : source.Locates n) : source.Locates n.span := (locates_iff.1 h).1

/-- A node is located if its span and what its form holds are. -/
theorem locates_mk {span : Span} {form : Form Node} (hspan : source.Locates span)
    (hform : source.Locates form) (id : Nat) : source.Locates (Node.mk id span form) := by
  refine locates_iff.2 ⟨hspan, fun m hm => ?_⟩
  obtain ⟨p, hp, rfl⟩ := List.mem_map.1 hm
  obtain ⟨f, hf, hp⟩ := List.mem_flatMap.1 hp
  exact Field.locates_child (hform f hf) hp

/-- A node that is moved to a place of the source keeps its other places. -/
theorem locates_withSpan (h : source.Locates n) {span : Span} (hspan : source.Locates span) :
    source.Locates (n.withSpan span) :=
  locates_iff.2 ⟨hspan, (locates_iff.1 h).2⟩

end Node

namespace Grammar

/-- The places that the parser may take over into nodes and faults. -/
structure State.LocatedIn (source : Source) (s : State) : Prop where
  scanner : source.Locates s.scanner
  token : source.Locates s.token
  lastEnd : source.Locates s.lastEnd

instance : HasPlaces State := ⟨State.LocatedIn⟩

/-- The places that the parser may come back to. -/
structure Snapshot.LocatedIn (source : Source) (back : Snapshot) : Prop where
  position : source.Locates back.position
  token : source.Locates back.token
  lastEnd : source.Locates back.lastEnd

instance : HasPlaces Snapshot := ⟨Snapshot.LocatedIn⟩

instance : HasPlaces Rule where
  within source
    | .element start _ => source.Locates start
    | _ => True

variable {α : Type} [HasPlaces α] {start : Position} {form : Form Node} {span : Span}

/-! ### Looking and failing -/

/-- The place of the token ahead was given by the scanner. -/
theorem ahead_confined : Confined source ahead :=
  Confined.get.bind fun _ hs => .pure hs.token

/-- So was its start. -/
theorem startAhead_confined : Confined source startAhead :=
  ahead_confined.bind fun _ htoken => .pure htoken.1

/-- What is told of the token ahead. -/
theorem told_confined {β : Type} [HasPlaces β] {f : Token → β} (hf : ∀ t, source.Locates (f t)) :
    Confined source (return f (← ahead)) :=
  ahead_confined.bind fun t _ => .pure (hf t)

/-- To look at the token ahead gives no place. -/
theorem isAt_confined (values : List String) : Confined source (isAt values) :=
  told_confined fun _ => trivial

theorem isAtName_confined : Confined source isAtName := told_confined fun _ => trivial

/-- Nor does it to look at its kind. -/
theorem isAtKind_confined (kind : TokenKind) : Confined source (isAtKind kind) :=
  told_confined fun _ => trivial

/-- Nor to look whether it is the end. -/
theorem isAtEnd_confined : Confined source isAtEnd := isAtKind_confined _

/-- Nor to look whether it is another one. -/
theorem notAt_confined (values : List String) : Confined source (return !(← isAt values)) :=
  (isAt_confined values).bind fun _ _ => .pure trivial

/-- How far tokens were taken is a number, no place. -/
theorem takenUpTo_confined : Confined source takenUpTo :=
  Confined.get.bind fun _ _ => .pure trivial

/-- So is the number of rounds. -/
theorem rounds_confined : Confined source rounds := Confined.get.bind fun _ _ => .pure trivial

/-- A fault is reported at a place of the source. -/
theorem fail_confined (cause : GrammarFault) (hspan : source.Locates span) :
    Confined source (fail cause span : Parse α) :=
  .throw hspan

/-- The place of the token ahead is one. -/
theorem failAhead_confined (cause : Option String → GrammarFault) :
    Confined source (failAhead cause : Parse α) :=
  ahead_confined.bind fun _ htoken => fail_confined _ htoken

/-- To want another token is a fault at the token ahead. -/
theorem want_confined (wanted : Wanted) : Confined source (want wanted : Parse α) :=
  failAhead_confined _

/-- To note something gives no place. -/
theorem note_confined (stalls : State → Bool) : Confined source (note stalls) :=
  .modify fun _ hs => ⟨hs.scanner, hs.token, hs.lastEnd⟩

/-- Nor does it to note that a loop stands still. -/
theorem onward_confined (before : Nat) : Confined source (onward before) := note_confined _

/-- The bound is reported at the token ahead. -/
theorem exhausted_confined : Confined source (exhausted : Parse α) :=
  (note_confined _).bind fun _ _ => ahead_confined.bind fun _ htoken => fail_confined _ htoken

/-! ### Taking tokens -/

/-- A step of the scanner is located if the scanner was, whatever the token ahead is. -/
theorem scan_ends {x : Scan α} (hx : Confined source x) {s : State}
    (hs : source.Locates s.scanner) :
    Concludes (scan x) s
      (fun a s' => source.Locates a ∧
        source.Locates s'.scanner ∧ s' = { s with scanner := s'.scanner })
      fun fault s' => source.Locates fault ∧
        source.Locates s'.scanner ∧ s' = { s with scanner := s'.scanner } := by
  -- a scan changes the scanner only, be its outcome a token or a fault
  have h := hx s.scanner hs
  cases hrun : x s.scanner with
  | mk r scanner =>
    have hscan : scan x s = (r, { s with scanner }) := by rw [scan_apply, hrun]
    cases r with
    | error fault => exact .of_error hscan ⟨(h.error hrun).1, (h.error hrun).2, rfl⟩
    | ok a => exact .of_ok hscan ⟨(h.ok hrun).1, (h.ok hrun).2, rfl⟩

/-- What the scanner gives has places of the source. -/
theorem scan_confined {x : Scan α} (hx : Confined source x) : Confined source (scan x) := by
  refine fun s hs => (scan_ends hx hs.scanner).mono ?_ ?_
  · rintro a s' ⟨ha, hscanner, hs'⟩
    exact ⟨ha, hscanner, hs' ▸ hs.token, hs' ▸ hs.lastEnd⟩
  · rintro fault s' ⟨hfault, hscanner, hs'⟩
    exact ⟨hfault, hscanner, hs' ▸ hs.token, hs' ▸ hs.lastEnd⟩

/-- What the scanner gives becomes the token ahead. -/
theorem refill_confined (mode : ScanMode) {x : Parse α} (hx : Confined source x) :
    Confined source (do
      let next ← scan (Scan.next mode)
      modify fun s => { s with token := next }
      x) :=
  (scan_confined (Scan.next_confined mode)).bind fun _ hnext =>
    .bind (.modify fun _ hs => ⟨hs.scanner, hnext, hs.lastEnd⟩) fun _ _ => hx

/-- The token ahead is given back, and the scanner gives the next one. -/
theorem advance_confined (mode : ScanMode) : Confined source (advance mode) := by
  refine ahead_confined.bind fun token htoken => ?_
  refine .bind (.modify fun _ hs => ⟨hs.scanner, hs.token, htoken.2⟩) fun _ _ => ?_
  exact refill_confined mode (.pure htoken)

/-- To pass over a token gives no place. -/
theorem pass_confined (mode : ScanMode) : Confined source (discard (advance mode)) :=
  (advance_confined mode).discard

theorem take_confined : Confined source take := advance_confined _

theorem skip_confined : Confined source skip := pass_confined _

/-- Nor does it to pass over an optional one. -/
theorem eat_confined (value : String) : Confined source (eat value) :=
  (isAt_confined _).bind fun _ _ =>
    .ite (skip_confined.bind fun _ _ => .pure trivial) (.pure trivial)

/-- A missing token is reported at the token ahead. -/
theorem expect_confined (value : String) : Confined source (expect value) :=
  (isAt_confined _).bind fun _ _ => .ite skip_confined (want_confined _)

/-- So is a missing punctuator. -/
theorem expectPunctuator_confined (value : String) (mode : ScanMode) :
    Confined source (expectPunctuator value mode) :=
  ahead_confined.bind fun _ _ => .ite (pass_confined mode) (want_confined _)

/-- So is a missing semicolon. -/
theorem semicolon_confined : Confined source semicolon := by
  refine (eat_confined _).bind fun found _ => .ite ?_ (.pure trivial)
  exact ahead_confined.bind fun _ _ => .ite (want_confined _) (.pure trivial)

/-! ### Making nodes -/

/-- A node has the place that it is given, and those of its form. -/
theorem nodeAt_confined (hspan : source.Locates span) (hform : source.Locates form) :
    Confined source (nodeAt span form) :=
  Confined.get.bind fun _ hs => .bind (.set ⟨hs.scanner, hs.token, hs.lastEnd⟩) fun _ _ =>
    .pure (Node.locates_mk hspan hform _)

/-- A node ends where the last token ended, which is a place of the source. -/
theorem node_confined (hstart : source.Locates start) (hform : source.Locates form) :
    Confined source (node start form) :=
  Confined.get.bind fun _ hs => nodeAt_confined ⟨hstart, hs.lastEnd⟩ hform

/-- The token ahead becomes a node. -/
theorem leaf_confined (hstart : source.Locates start) {f : Token → Form Node}
    (hf : ∀ t, source.Locates (f t)) :
    Confined source (take >>= fun token => node start (f token)) :=
  take_confined.bind fun t _ => node_confined hstart (hf t)

section Names

-- what a node holds is read off its form
attribute [local simp] Form.locates_iff Form.fields

/-- An identifier starts at the token ahead. -/
theorem identifier_confined : Confined source identifier := by
  refine isAtName_confined.bind fun _ _ => .optionally (want_confined _) ?_
  exact startAhead_confined.bind fun _ hstart => leaf_confined hstart (by simp)

/-- So does the name of a module. -/
theorem moduleName_confined : Confined source moduleName := by
  refine (isAtKind_confined _).bind fun _ _ => .optionally (want_confined _) ?_
  exact startAhead_confined.bind fun _ hstart => leaf_confined hstart (by simp)

/-- So does the name of a property. -/
theorem propertyName_confined : Confined source propertyName := by
  refine startAhead_confined.bind fun _ hstart => (isAtKind_confined _).bind fun _ _ => ?_
  refine .ite (leaf_confined hstart (by simp)) ((isAtKind_confined _).bind fun _ _ => ?_)
  exact .ite (leaf_confined hstart (by simp)) (want_confined _)

end Names

/-! ### Coming back and going deeper -/

/-- A snapshot holds places that the scanner gave. -/
theorem snapshot_confined : Confined source snapshot :=
  Confined.get.bind fun _ hs => .pure ⟨hs.scanner.2, hs.token, hs.lastEnd⟩

/-- To go back to a snapshot brings those places back. -/
theorem restore_confined {back : Snapshot} (hback : source.Locates back) :
    Confined source (restore back) :=
  .modify fun _ hs => ⟨Scanner.locates_seek hs.scanner hback.position, hback.token, hback.lastEnd⟩

/-- A fault that is observed has a place of the source too. -/
theorem observe_confined {x : Parse α} (hx : Confined source x) : Confined source (observe x) := by
  intro s hs
  have h := hx s hs
  cases hrun : x s with
  | mk r s' =>
    have hobserve : observe x s = (.ok r, s') := by rw [observe, hrun]
    cases r with
    | error fault => exact .of_ok hobserve (h.error hrun)
    | ok a => exact .of_ok hobserve (h.ok hrun)

/-- What is looked at ahead has places of the source. -/
theorem lookAhead_confined {x : Parse α} (hx : Confined source x) :
    Confined source (lookAhead x) := by
  refine snapshot_confined.bind fun back hback => (observe_confined hx).bind fun result h => ?_
  refine (restore_confined hback).bind fun _ _ => ?_
  cases result with
  | error fault => exact .throw h
  | ok a => exact .pure h

/-- So has the token behind the next one. -/
theorem second_confined : Confined source second :=
  lookAhead_confined (skip_confined.bind fun _ _ => ahead_confined)

/-- Its text has none. -/
theorem secondText_confined : Confined source secondText :=
  second_confined.bind fun _ _ => .pure trivial

/-- To be nested too deeply is reported at the token ahead. -/
theorem nested_confined {x : Parse α} (hx : Confined source x) : Confined source (nested x) := by
  -- the level is counted before it may be refused, at the token that stands there
  have henter : Confined source enter := by
    refine .bind (.modify fun _ hs => ⟨hs.scanner, hs.token, hs.lastEnd⟩) fun _ _ => ?_
    refine Confined.get.bind fun _ hs => .ite ?_ (.pure trivial)
    exact .bind (.modify fun _ hs => ⟨hs.scanner, hs.token, hs.lastEnd⟩) fun _ _ =>
      fail_confined _ hs.token
  refine henter.bind fun _ _ s hs => ?_
  have h := hx s hs
  -- the level is left behind either outcome, and no place moves with it
  cases hrun : x s with
  | mk r s' =>
    have hleaving : leaving x s = (r, { s' with depth := s'.depth - 1 }) := by rw [leaving, hrun]
    cases r with
    | error fault =>
      obtain ⟨hfault, hs'⟩ := h.error hrun
      exact .of_error hleaving ⟨hfault, hs'.scanner, hs'.token, hs'.lastEnd⟩
    | ok a =>
      obtain ⟨ha, hs'⟩ := h.ok hrun
      exact .of_ok hleaving ⟨ha, hs'.scanner, hs'.token, hs'.lastEnd⟩

/-! ### Loops -/

/-- The items of a loop have places of the source, one after the other. -/
theorem collect_confined {more : Parse Bool} {item : Parse (α × Bool)}
    (hmore : Confined source more) (hitem : Confined source item) :
    Confined source (collect more item) := by
  -- by induction on the rounds; running out of them is no fault of the source
  have hall : ∀ n, Confined source (collectUpTo more item n) := by
    intro n
    induction n with
    | zero => exact exhausted_confined
    | succ n ih =>
      refine takenUpTo_confined.bind fun before _ => hmore.bind fun _ _ => .ite ?_ (.pure (by simp))
      refine hitem.bind fun r hr => (onward_confined _).bind fun _ _ => ?_
      exact .ite (ih.bind fun _ hl => .pure (Source.locates_cons.2 ⟨hr.1, hl⟩))
        (.pure (Source.locates_cons.2 ⟨hr.1, by simp⟩))
  exact rounds_confined.bind fun n _ => hall n

/-- A loop that goes round again after every item. -/
theorem every_confined {more : Parse Bool} {item : Parse α} (hmore : Confined source more)
    (hitem : Confined source item) : Confined source (collect more do return (← item, true)) :=
  collect_confined hmore (hitem.bind fun _ ha => .pure ⟨ha, trivial⟩)

/-- So have items between commas. -/
theorem separated_confined {item : Parse α} (close : String) (hitem : Confined source item) :
    Confined source (separated close item) :=
  collect_confined (notAt_confined _) (hitem.bind fun _ ha =>
    (eat_confined _).bind fun _ _ => .pure ⟨ha, trivial⟩)

/-- What is extended step by step has places of the source after each step. -/
theorem extend_confined {step : α → Parse (Option α)}
    (hstep : ∀ a, source.Locates a → Confined source (step a)) {a : α} (ha : source.Locates a) :
    Confined source (extend step a) := by
  -- by induction on the rounds, for whatever value stands there
  have hall : ∀ n a, source.Locates a → Confined source (extendUpTo step n a) := by
    intro n
    induction n with
    | zero => exact fun _ _ => exhausted_confined
    | succ n ih =>
      refine fun a ha => takenUpTo_confined.bind fun before _ => (hstep a ha).bind fun o ho => ?_
      -- nothing follows, or the value goes on with what was found
      cases o with
      | none => exact .pure ha
      | some b => exact (onward_confined _).bind fun _ _ => ih b (Source.locates_some.1 ho)
  exact rounds_confined.bind fun n _ => hall n a ha

end Grammar

end Reflow
