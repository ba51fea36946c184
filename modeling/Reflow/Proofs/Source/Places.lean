import Mathlib.Data.List.Induction
import Reflow.Proofs.Course
import Reflow.Proofs.Text.Solid
import Reflow.Proofs.Token.Scanner
import Reflow.Source.Fault

/-!
# What refers to places of a source

The scanner and the parser carry positions along: in their states, in tokens, in nodes and in
faults.  `Source.Locates` says of any of these that its positions are those of offsets of the source,
with lines and columns counted from the start of the source.  `Confined` is the specification of a
step: from a state that is located it ends in such a state, and its result or its fault is located as
well.

As none of this depends on where in the source a step starts, there is one rule for each way to build
a step, and a part of the grammar is confined because its parts are.

## Key results

- `Position.over_start`, `Scanner.Placed.position_eq`: positions tell lines and columns
- `Source.counts_iff`, `Source.Counts.line`: the line and the column of a located position
- `Confined.bind`, `Confined.ite`, `Confined.optionally`: how steps are put together
-/

namespace Reflow

/-! ## Counting -/

/-- The position behind the first characters of a source counts their line feeds, and the characters
behind the last one of these. -/
theorem Position.over_start (cs : List Char) :
    ({} : Position).over cs =
      { line := cs.count '\n' + 1
        column := (cs.reverse.takeWhile (· != '\n')).length + 1
        offset := cs.length } := by
  induction cs using List.reverseRecOn with
  | nil => rfl
  | append_singleton cs c ih =>
    rw [over_append, ih]
    show Position.after _ c = _
    unfold Position.after
    by_cases hc : c = '\n' <;> simp [hc]

/-- Where a scanner is, is told by counting. -/
theorem Scanner.Placed.position_eq {s : Scanner} (h : s.Placed) :
    s.position = s.source.positionAt s.position.offset := by
  have hsize := h.le_size
  rw [Source.size_eq] at hsize
  have hlength : (s.source.chars.take s.position.offset).length = s.position.offset := by
    rw [List.length_take]
    omega
  rw [Scanner.Placed, Position.over_start, hlength] at h
  rw [Source.positionAt, hlength, Nat.sub_self, Nat.add_zero]
  exact h

/-- The text stands in the source at its range, and the ends of the range are told by counting. -/
structure Source.Holds (source : Source) (span : Span) (text : String) : Prop where
  start : span.start = source.positionAt span.start.offset
  stop : span.stop = source.positionAt span.stop.offset
  size : span.stop.offset ≤ source.size
  extent : span.stop.offset = span.start.offset + text.length
  text : text = source.text span.start.offset span.stop.offset

/-- What a scanner passes over stands in the source. -/
theorem Scanner.Placed.holds {s : Scanner} (h : s.Placed) (n : Nat) :
    s.source.Holds ⟨s.position, (s.advance n).position⟩ (String.ofList (s.rest.take n)) where
  start := h.position_eq
  stop := (placed_advance h n).position_eq
  size := (placed_advance h n).le_size
  extent := by
    rw [offset_advance, String.length_ofList, List.length_take]
  text := text_advance s n

/-! ## Located positions -/

/-- The position is the one behind the characters of the source before its offset. -/
def Source.Counts (source : Source) (p : Position) : Prop :=
  p = ({} : Position).over (source.chars.take p.offset)

instance (source : Source) (p : Position) : Decidable (source.Counts p) :=
  inferInstanceAs (Decidable (_ = _))

/-- The position of an offset that lies in the source, told by counting. -/
theorem Source.counts_iff {source : Source} {p : Position} :
    source.Counts p ↔ p.offset ≤ source.size ∧ p = source.positionAt p.offset := by
  rw [size_eq]
  constructor
  · -- the scanner that has read up to the place counts the same
    intro h
    have hplaced : Scanner.Placed { source, position := p } := h
    exact ⟨source.size_eq ▸ hplaced.le_size, hplaced.position_eq⟩
  · -- the position is that of its offset, which is in the source
    rintro ⟨hsize, h⟩
    have hlength : (source.chars.take p.offset).length = p.offset := by
      rw [List.length_take]
      omega
    rw [positionAt, hlength, Nat.sub_self, Nat.add_zero] at h
    rw [Counts, Position.over_start, hlength]
    exact h

/-- The positions of the offsets of a source are located. -/
theorem Source.counts_positionAt {source : Source} {offset : Nat} (h : offset ≤ source.size) :
    source.Counts (source.positionAt offset) :=
  counts_iff.2 ⟨h, rfl⟩

/-- The line of a located position, and its column, which does not lie behind the end of that line. -/
theorem Source.Counts.line {source : Source} {p : Position} (h : source.Counts p) :
    ∃ line, (Text.splitAt '\n' source.chars)[p.line - 1]? = some line ∧
      1 ≤ p.line ∧ 1 ≤ p.column ∧ p.column ≤ line.length + 1 := by
  have hline := Text.getElem?_splitAt '\n' (source.chars.take p.offset)
    (source.chars.drop p.offset)
  rw [List.take_append_drop] at hline
  rw [Counts, Position.over_start] at h
  rw [congrArg Position.line h, congrArg Position.column h]
  refine ⟨_, hline, Nat.le_add_left .., Nat.le_add_left .., ?_⟩
  rw [List.length_append, List.length_reverse]
  exact Nat.succ_le_succ (Nat.le_add_right _ _)

/-- At the start of a source nothing has been counted. -/
theorem Source.counts_start (source : Source) : source.Counts {} := by
  simp [Counts]

/-- Data that refer to places of a source. -/
class HasPlaces (α : Type) where
  /-- The positions of the data are those of offsets of the source. -/
  within : Source → α → Prop

/-- The positions of the data are those of offsets of the source, and their lines and columns are
counted from its start. -/
def Source.Locates {α : Type} [HasPlaces α] (source : Source) (a : α) : Prop :=
  HasPlaces.within source a

section Instances

variable {α β : Type} [HasPlaces α] [HasPlaces β]

instance : HasPlaces Position := ⟨Source.Counts⟩
instance : HasPlaces Span :=
  ⟨fun source span => source.Locates span.start ∧ source.Locates span.stop⟩
instance : HasPlaces SourceFault := ⟨fun source fault => source.Locates fault.span⟩
instance : HasPlaces (Option α) := ⟨fun source o => ∀ a ∈ o, source.Locates a⟩
instance : HasPlaces (List α) := ⟨fun source l => ∀ a ∈ l, source.Locates a⟩
instance : HasPlaces (α × β) := ⟨fun source p => source.Locates p.1 ∧ source.Locates p.2⟩
instance : HasPlaces PUnit := ⟨fun _ _ => True⟩
instance : HasPlaces Bool := ⟨fun _ _ => True⟩
instance : HasPlaces Nat := ⟨fun _ _ => True⟩
instance : HasPlaces String := ⟨fun _ _ => True⟩

instance : HasPlaces (Except SourceFault α) where
  within source
    | .ok a => source.Locates a
    | .error fault => source.Locates fault

end Instances

namespace Source

variable {α : Type} [HasPlaces α] {source : Source} {a : α} {l l' : List α}

@[simp] theorem locates_nil : source.Locates ([] : List α) := by
  intro a ha
  cases ha

@[simp] theorem locates_cons : source.Locates (a :: l) ↔ source.Locates a ∧ source.Locates l :=
  List.forall_mem_cons

@[simp] theorem locates_append :
    source.Locates (l ++ l') ↔ source.Locates l ∧ source.Locates l' :=
  List.forall_mem_append

@[simp] theorem locates_none : source.Locates (none : Option α) := by
  intro a ha
  cases ha

@[simp] theorem locates_some : source.Locates (some a) ↔ source.Locates a := by
  show (∀ b ∈ some a, source.Locates b) ↔ _
  simp

end Source

variable {σ α β : Type} [HasPlaces σ] [HasPlaces α] [HasPlaces β] {source : Source}

/-- From any state that is located the step ends in one, with a result or a fault that is located. -/
def Confined (source : Source) (x : ExceptT SourceFault (StateM σ) α) : Prop :=
  ∀ s, source.Locates s → Concludes x s (fun a s' => source.Locates a ∧ source.Locates s')
    fun fault s' => source.Locates fault ∧ source.Locates s'

namespace Confined

variable {x : ExceptT SourceFault (StateM σ) α} {f : α → ExceptT SourceFault (StateM σ) β}

/-- How a confined step ends from a state that is located. -/
theorem ends (hx : Confined source x) {s : σ} (hs : source.Locates s) :
    Concludes x s (fun _ _ => True) fun fault _ => source.Locates fault :=
  (hx s hs).mono (fun _ _ _ => trivial) fun _ _ h => h.1

/-- A value whose places are in the source may be returned. -/
protected theorem pure {a : α} (ha : source.Locates a) :
    Confined source (pure a : ExceptT SourceFault (StateM σ) α) :=
  fun _ hs => .of_ok rfl ⟨ha, hs⟩

/-- A fault that is located in the source may be raised. -/
protected theorem throw {fault : SourceFault} (h : source.Locates fault) :
    Confined source (throw fault : ExceptT SourceFault (StateM σ) α) :=
  fun _ hs => .of_error rfl ⟨h, hs⟩

/-- The state may be read. -/
protected theorem get : Confined source (get : ExceptT SourceFault (StateM σ) σ) :=
  fun _ hs => .of_ok rfl ⟨hs, hs⟩

/-- The state may be changed in a way that keeps its places in the source. -/
protected theorem modify {g : σ → σ} (hg : ∀ s, source.Locates s → source.Locates (g s)) :
    Confined source (modify g : ExceptT SourceFault (StateM σ) PUnit) :=
  fun s hs => .of_ok rfl ⟨trivial, hg s hs⟩

/-- It may be replaced by one whose places are in the source. -/
protected theorem set {s : σ} (hs : source.Locates s) :
    Confined source (set s : ExceptT SourceFault (StateM σ) PUnit) :=
  fun _ _ => .of_ok rfl ⟨trivial, hs⟩

/-- Steps are confined one after the other. -/
protected theorem bind (hx : Confined source x)
    (hf : ∀ a, source.Locates a → Confined source (f a)) : Confined source (x >>= f) :=
  fun s hs => (hx s hs).bind fun a s' h => hf a h.1 s' h.2

/-- What is made of a confined result is confined. -/
protected theorem map {g : α → β} (hx : Confined source x)
    (hg : ∀ a, source.Locates a → source.Locates (g a)) : Confined source (g <$> x) := by
  rw [← bind_pure_comp]
  exact hx.bind fun a ha => .pure (hg a ha)

/-- What drops its result is confined. -/
protected theorem discard (hx : Confined source x) : Confined source (discard x) :=
  hx.map fun _ _ => trivial

/-- Either way of a choice is. -/
protected theorem ite {c : Prop} [Decidable c] {y : ExceptT SourceFault (StateM σ) α}
    (hx : Confined source x) (hy : Confined source y) : Confined source (if c then x else y) :=
  fun s hs => .ite (fun _ => hx s hs) fun _ => hy s hs

/-- Two ways to get what is gone on with. -/
theorem either {c : Prop} [Decidable c] {y : ExceptT SourceFault (StateM σ) α}
    (hx : Confined source x) (hy : Confined source y)
    (hf : ∀ a, source.Locates a → Confined source (f a)) :
    Confined source (if c then x >>= f else y >>= f) :=
  .ite (hx.bind hf) (hy.bind hf)

/-- A step that is made or not before what goes on. -/
theorem optionally {c : Prop} [Decidable c] {y : ExceptT SourceFault (StateM σ) PUnit}
    {g : PUnit → ExceptT SourceFault (StateM σ) α} (hy : Confined source y)
    (hg : Confined source (g ⟨⟩)) : Confined source (if c then y >>= g else g ⟨⟩) :=
  .ite (hy.bind fun _ _ => hg) hg

end Confined

end Reflow
