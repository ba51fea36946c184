import Mathlib.Data.Set.Insert
import Reflow.Print.Comments

/-!
# What printers mark

`Marks c F m S` says that a printer `m`, in the context `c`, marks the comments in `S` and no others
when it succeeds, and that it fails with a fault in `F` only.  There is one rule for each way to
build a printer; the sets of the parts of a printer add up.

## Key results

- `Marks.bind`, `Marks.mapM`: printers one after the other mark what each of them marks
- `comment_marks`, `withComments_marks`, `danglingWhere_marks`: what printing comments marks
-/

namespace Reflow

variable {c : PrintContext} {F : FormatFault → Prop} {α β : Type} {S T : Set Comment}

/-- The printer marks the comments in `S` when it succeeds, and fails with a fault in `F` only. -/
def Marks (c : PrintContext) (F : FormatFault → Prop) (m : Print α) (S : Set Comment) : Prop :=
  ∀ (s : PrintedComments) (notes : List Note),
    match m c s notes with
    | (.ok (_, s'), _) => ∀ k, k ∈ s'.starts ↔ k ∈ s.starts ∨ ∃ x ∈ S, x.start = k
    | (.error f, _) => F f

namespace Marks

variable {m : Print α} {f : α → Print β}

/-- A second printer runs with the comments that the first one has marked. -/
theorem bind_apply (m : Print α) (f : α → Print β) (c : PrintContext) (s : PrintedComments)
    (notes : List Note) :
    (m >>= f) c s notes = match m c s notes with
      | (.ok (a, s'), notes') => f a c s' notes'
      | (.error e, notes') => (.error e, notes') := by
  simp only [bind, ReaderT.bind, StateT.bind, ExceptT.bind, ExceptT.mk, ExceptT.bindCont]
  rcases m c s notes with ⟨_ | _, _⟩ <;> rfl

/-- Behind a result, exactly the comments of the set are marked besides those that were. -/
theorem ok (h : Marks c F m S) {s s' : PrintedComments} {notes notes' : List Note} {a : α}
    (hm : m c s notes = (.ok (a, s'), notes')) (k : Nat) :
    k ∈ s'.starts ↔ k ∈ s.starts ∨ ∃ x ∈ S, x.start = k := by
  have h := h s notes
  rw [hm] at h
  exact h k

/-- A printer that gives up does so by a fault of the kind. -/
theorem fault (h : Marks c F m S) {s : PrintedComments} {notes notes' : List Note} {f : FormatFault}
    (hm : m c s notes = (.error f, notes')) : F f := by
  have h := h s notes
  rw [hm] at h
  exact h

/-- The set may be written in another way. -/
theorem congr (h : Marks c F m S) (hS : S = T) : Marks c F m T := hS ▸ h

/-- A printer that marks nothing. -/
theorem quiet (h : ∀ s notes, ∃ a notes', m c s notes = (.ok (a, s), notes')) : Marks c F m ∅ := by
  intro s notes
  obtain ⟨a, notes', h⟩ := h s notes
  simp [h]

/-- To give a document back marks nothing. -/
protected theorem pure (a : α) : Marks c F (pure a) ∅ := quiet fun _ notes => ⟨a, notes, rfl⟩

/-- A printer that gives up may claim any set. -/
protected theorem throw {e : FormatFault} (h : F e) : Marks c F (throw e : Print α) S :=
  fun _ _ => h

/-- Two printers mark what either of them marks. -/
protected theorem bind (hm : Marks c F m S) (hf : ∀ a, Marks c F (f a) T) :
    Marks c F (m >>= f) (S ∪ T) := by
  intro s notes
  rw [bind_apply]
  rcases h : m c s notes with ⟨e | ⟨a, s'⟩, notes'⟩
  · exact hm.fault h
  · simp only
    rcases h' : f a c s' notes' with ⟨e | ⟨b, s''⟩, notes''⟩
    · exact (hf a).fault h'
    · intro k
      rw [(hf a).ok h' k, hm.ok h k, or_assoc]
      simp only [Set.mem_union, or_and_right, exists_or]

/-- A printer with nothing to mark behind it. -/
theorem last (hm : Marks c F m S) (hf : ∀ a, Marks c F (f a) ∅) : Marks c F (m >>= f) S :=
  (hm.bind hf).congr (Set.union_empty S)

/-- A printer with one behind it that marks nothing new. -/
theorem again (hm : Marks c F m S) (hf : ∀ a, ∃ T ⊆ S, Marks c F (f a) T) :
    Marks c F (m >>= f) S := by
  intro s notes
  rw [bind_apply]
  -- a fault of the first step is the fault of both
  rcases h : m c s notes with ⟨e | ⟨a, s'⟩, notes'⟩
  · exact hm.fault h
  · simp only
    obtain ⟨T, hT, hfa⟩ := hf a
    rcases h' : f a c s' notes' with ⟨e | ⟨b, s''⟩, notes''⟩
    · exact hfa.fault h'
    · -- what the second step marks has been marked by the first
      intro k
      rw [hfa.ok h' k, hm.ok h k]
      refine or_iff_left_of_imp ?_
      rintro ⟨x, hx, rfl⟩
      exact .inr ⟨x, hT hx, rfl⟩

/-- A printer that only looks. -/
theorem look (a : α) (h : ∀ s notes, m c s notes = (.ok (a, s), notes))
    (hf : Marks c F (f a) T) : Marks c F (m >>= f) T := by
  intro s notes
  rw [bind_apply, h]
  exact hf s notes

/-- A printer whose result is changed. -/
protected theorem map (g : α → β) (hm : Marks c F m S) : Marks c F (g <$> m) S := by
  rw [← bind_pure_comp]
  exact hm.last fun a => .pure (g a)

/-- Both branches mark the set, each under its condition. -/
protected theorem ite {p : Prop} [Decidable p] {m' : Print α} (h : p → Marks c F m S)
    (h' : ¬p → Marks c F m' S) : Marks c F (if p then m else m') S := by
  split
  · exact h (by assumption)
  · exact h' (by assumption)

/-- Printers one after the other mark what each of them marks. -/
protected theorem mapM {g : β → Print α} {S : β → Set Comment} {l : List β}
    (h : ∀ b ∈ l, Marks c F (g b) (S b)) : Marks c F (l.mapM g) {x | ∃ b ∈ l, x ∈ S b} := by
  induction l with
  | nil => exact (Marks.pure []).congr (by simp)
  | cons b rest ih =>
    rw [List.mapM_cons]
    have hrest := ih fun b hb => h b (List.mem_cons_of_mem _ hb)
    have hall := (h b List.mem_cons_self).bind fun a => hrest.bind fun as => .pure (a :: as)
    refine hall.congr ?_
    ext x
    simp

end Marks

/-! ### Comments -/

/-- The comments before and behind a node. -/
def Attachments.around (a : Attachments) (n : Node) : List Comment :=
  ((a.of n).filter (·.role != .dangling)).map (·.comment)

/-- The comments inside a node. -/
def Attachments.inside (a : Attachments) (n : Node) : List Comment :=
  (a.inRole .dangling n).map (·.comment)

namespace Print

/-- To mark a comment marks that one. -/
theorem mark_marks (x : Comment) : Marks c F (mark x) {x} := by
  intro s notes
  have hmark : mark x c s notes = (.ok ((), s.insert x), notes) := rfl
  rw [hmark]
  intro k
  simp only [PrintedComments.insert, Set.mem_singleton_iff, exists_eq_left]
  split
  next h =>
    -- a comment that is marked already is not marked again
    have hmem : x.start ∈ s.starts := by simpa using h
    constructor
    · exact .inl
    · rintro (hk | rfl)
      · exact hk
      · exact hmem
  next => simp [or_comm, eq_comm]

/-- A comment that is printed is marked. -/
theorem comment_marks (a : Attachment) : Marks c F (comment a) {a.comment} := by
  unfold comment
  refine (mark_marks a.comment).last fun _ => ?_
  refine .ite (fun _ => .ite (fun _ => ?_) fun _ => .pure _) fun _ => .pure _
  exact .look _ (fun _ _ => rfl) (.ite (fun _ => .pure _) fun _ => .pure _)

/-- So is one in front of its node. -/
theorem leadingComment_marks (a : Attachment) : Marks c F (leadingComment a) {a.comment} := by
  unfold leadingComment
  refine (comment_marks a).last fun _ => ?_
  exact .look _ (fun _ _ => rfl) (.pure _)

/-- So is one behind its node. -/
theorem trailingComment_marks (a : Attachment) : Marks c F (trailingComment a) {a.comment} := by
  unfold trailingComment
  refine (comment_marks a).last fun _ => ?_
  refine .look _ (fun _ _ => rfl) ?_
  refine .ite (fun _ => ?_) fun _ => .ite (fun _ => .pure _) fun _ => .pure _
  exact .look _ (fun _ _ => rfl) (.pure _)

/-- The comments of a list of attachments. -/
theorem mapM_comments {g : Attachment → Print Doc} {l : List Attachment}
    (h : ∀ a ∈ l, Marks c F (g a) {a.comment}) :
    Marks c F (l.mapM g) {x | x ∈ l.map (·.comment)} := by
  refine (Marks.mapM h).congr ?_
  ext x
  simp [eq_comm]

/-- Around a document, the comments around its node are marked. -/
theorem withComments_marks (n : Node) (d : Doc) :
    Marks c F (withComments n d) {x | x ∈ c.attachments.around n} := by
  unfold withComments
  refine .look c.attachments (fun _ _ => rfl) ?_
  dsimp only
  split
  next h =>
    -- without comments there is nothing to mark
    refine (Marks.pure d).congr ?_
    have hnil : c.attachments.around n = [] := by
      rw [Attachments.around, List.isEmpty_iff.1 h, List.map_nil]
    simp [hnil]
  next =>
    have hdocs := mapM_comments (c := c) (F := F)
      (g := fun a => if a.role == .leading then leadingComment a else trailingComment a)
      (l := (c.attachments.of n).filter (·.role != .dangling)) fun a _ =>
        .ite (fun _ => leadingComment_marks a) fun _ => trailingComment_marks a
    exact hdocs.last fun _ => .pure _

/-- Those of the dangling comments are marked that are asked for. -/
theorem danglingWhere_marks (keep : Comment → Bool) (n : Node) :
    Marks c F (danglingWhere keep n) {x | x ∈ (c.attachments.inside n).filter keep} := by
  unfold danglingWhere
  refine .look c.attachments (fun _ _ => rfl) ?_
  refine (mapM_comments fun a _ => comment_marks a).congr ?_
  rw [Attachments.inside, List.filter_map]
  rfl

/-- The same where they are put on one line or more. -/
theorem dangling_marks (n : Node) (keep : Comment → Bool) :
    Marks c F (dangling n keep) {x | x ∈ (c.attachments.inside n).filter keep} := by
  unfold dangling
  exact (danglingWhere_marks keep n).last fun _ => .pure _

/-- All comments inside a node. -/
theorem dangling_marks_all (n : Node) :
    Marks c F (dangling n) {x | x ∈ c.attachments.inside n} :=
  (dangling_marks n fun _ => true).congr (by simp)

/-- The same where they are put on a line of their own. -/
theorem indentedDangling_marks (n : Node) :
    Marks c F (indentedDangling n) {x | x ∈ c.attachments.inside n} := by
  unfold indentedDangling
  exact ((danglingWhere_marks (fun _ => true) n).last fun _ => .pure _).congr (by simp)

/-- The comments inside a range of the source. -/
theorem markRange_marks (start stop : Nat) :
    Marks c F (markRange start stop)
      {x | x ∈ c.comments.filter fun x => start ≤ x.start && x.stop ≤ stop} := by
  unfold markRange
  refine .look c (fun _ _ => rfl) ?_
  generalize c.comments.filter (fun x => start ≤ x.start && x.stop ≤ stop) = l
  -- by induction on the comments in the range
  induction l with
  | nil => exact (Marks.pure ()).congr (by simp)
  | cons x rest ih =>
    show Marks c F (mark x >>= fun _ => rest.forM mark) _
    refine ((mark_marks x).bind fun _ => ih).congr ?_
    ext y
    simp

end Print

end Reflow
