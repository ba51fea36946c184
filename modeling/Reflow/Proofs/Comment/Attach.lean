import Reflow.Proofs.Comment.Rules
import Reflow.Proofs.Grammar.Parse
import Reflow.Proofs.Source.Gap

/-!
# Attaching comments is exact

`Ordered` is what holds while comments are attached one after the other: each comment seen so far is
attached once or waits, and on each side of a node comments stand in the order of the source.  Ties
are broken before a comment is attached, or behind a comment that a rule took; in the second case the
order of the two does not matter, because they do not meet.

## Key results

- `attach_ordered`: one comment keeps the invariant
- `attachComments_ordered`: what holds when all comments were seen
- `attachComments_exact`: every comment of a parsed source is on one side of one node, once
-/

namespace Reflow.Attach

variable {root : Node} {source : Source} {done : List Comment} {s : State} {c : Comment}
  {t : CommentTarget} {placement : CommentPlacement}

/-- The attachments of waiting comments to one target. -/
def attachAll (ties : List Tie) (t : CommentTarget) : List Attachment :=
  ties.map fun x => ⟨t.node.id, x.comment, t.role, .remaining⟩

@[simp] theorem map_comment_attachAll (ties : List Tie) (t : CommentTarget) :
    (attachAll ties t).map (·.comment) = ties.map (·.comment) := by
  simp [attachAll]

/-- Comments that waited are attached one after the other. -/
theorem foldl_add (ties : List Tie) (t : CommentTarget) (s : State) :
    ties.foldl (fun s x => s.add x.comment t .remaining) s =
      { s with attached := ⟨s.attached.all ++ attachAll ties t⟩ } := by
  induction ties generalizing s with
  | nil => simp [attachAll]
  | cons tie rest ih =>
    rw [List.foldl_cons, ih]
    simp [State.add, Attachments.add, attachAll]

/-- Breaking ties attaches the waiting comments in their order, to nodes next to one of them. -/
theorem breakTies_spec (source : Source) (s : State) :
    ∃ new : List Attachment, (s.breakTies source).attached.all = s.attached.all ++ new ∧
      (s.breakTies source).ties = [] ∧ new.map (·.comment) = s.ties.map (·.comment) ∧
      ∀ x ∈ new, ∃ tie ∈ s.ties, tie.Meets x.owner x.role := by
  unfold State.breakTies
  split
  -- without ties nothing happens
  next hties => exact ⟨[], by simp, hties, by simp [hties], by simp⟩
  -- the first tie tells where all of them go
  next tie rest hties =>
    simp only [foldl_add, List.append_assoc]
    refine ⟨_, rfl, trivial, ?_, ?_⟩
    · -- the two halves of the ties are all of them
      rw [List.map_append, map_comment_attachAll, map_comment_attachAll, ← List.map_append,
        List.take_append_drop, hties]
    · intro x hx
      refine ⟨tie, hties ▸ List.mem_cons_self, ?_⟩
      rcases List.mem_append.1 hx with hx | hx
      · obtain ⟨y, -, rfl⟩ := List.mem_map.1 hx
        -- the first half goes behind the node in front, the second in front of the node behind
        exact .inl ⟨rfl, rfl⟩
      · obtain ⟨y, -, rfl⟩ := List.mem_map.1 hx
        exact .inr ⟨rfl, rfl⟩

/-- On one side of one node the first comment starts before the second. -/
def Apart (x y : Attachment) : Prop :=
  x.owner = y.owner → x.role = y.role → x.comment.start < y.comment.start

/-- What holds when the comments `done` were seen. -/
structure Ordered (root : Node) (source : Source) (done : List Comment) (s : State) : Prop where
  perm : (s.attached.all.map (·.comment) ++ s.ties.map (·.comment)).Perm done
  owners : ∀ x ∈ s.attached.all, ∃ n, root.Reaches n ∧ n.id = x.owner
  order : s.attached.all.Pairwise Apart
  earlier : ∀ x ∈ s.attached.all, ∀ tie ∈ s.ties, x.comment.start < tie.comment.start
  ties : s.ties.Pairwise fun a b => a.comment.start < b.comment.start
  waits : ∀ tie ∈ s.ties, Waits root source tie

namespace Ordered

variable (h : Ordered root source done s)

include h

/-- A comment that is attached was looked at. -/
theorem mem_done_of_attached {x : Attachment} (hx : x ∈ s.attached.all) : x.comment ∈ done :=
  h.perm.mem_iff.1 (List.mem_append_left _ (List.mem_map_of_mem hx))

/-- So was one that waits. -/
theorem mem_done_of_tie {tie : Tie} (htie : tie ∈ s.ties) : tie.comment ∈ done :=
  h.perm.mem_iff.1 (List.mem_append_right _ (List.mem_map_of_mem htie))

/-- What ties become is in order, and goes to nodes of the tree. -/
theorem broken {new : List Attachment} (hcomments : new.map (·.comment) = s.ties.map (·.comment))
    (hmeets : ∀ x ∈ new, ∃ tie ∈ s.ties, tie.Meets x.owner x.role) :
    new.Pairwise Apart ∧ ∀ x ∈ new, ∃ n, root.Reaches n ∧ n.id = x.owner := by
  constructor
  · -- the ties are in the order of their comments, and so are the attachments
    have hties : (s.ties.map (·.comment)).Pairwise fun a b => a.start < b.start :=
      List.pairwise_map.2 h.ties
    rw [← hcomments] at hties
    exact (List.pairwise_map.1 hties).imp fun hlt _ _ => hlt
  · intro x hx
    obtain ⟨tie, htie, hmeets⟩ := hmeets x hx
    -- what a tie waits for lies in the tree
    have hwaits := h.waits tie htie
    obtain ⟨parent, hl⟩ := locate_located root tie.comment
    rcases hmeets with ⟨-, howner⟩ | ⟨-, howner⟩
    · exact ⟨tie.preceding, hl.reaches_preceding hwaits.preceding, howner.symm⟩
    · exact ⟨tie.following, hl.reaches_following hwaits.following, howner.symm⟩

/-- When the wait is over, all that waited is attached, in order. -/
theorem breakTies : Ordered root source done (s.breakTies source) := by
  obtain ⟨new, hall, hties, hcomments, hmeets⟩ := breakTies_spec source s
  obtain ⟨hnew, howners⟩ := h.broken hcomments hmeets
  constructor
  · rw [hall, hties, List.map_append, hcomments, List.map_nil, List.append_nil]
    exact h.perm
  · -- the attachments are those from before and the new ones, in every field
    rw [hall]
    intro x hx
    rcases List.mem_append.1 hx with hx | hx
    · exact h.owners x hx
    · exact howners x hx
  · rw [hall, List.pairwise_append]
    refine ⟨h.order, hnew, fun x hx y hy _ _ => ?_⟩
    -- what was attached before comes before the ties
    have hmem : y.comment ∈ s.ties.map (·.comment) := hcomments ▸ List.mem_map_of_mem hy
    obtain ⟨tie, htie, heq⟩ := List.mem_map.1 hmem
    rw [← heq]
    exact h.earlier x hx tie htie
  all_goals simp [hties]

/-- A comment that is attached behind all others.  Only the pairs with the new one are left. -/
theorem add_order (hc : ∀ d ∈ done, d.start < c.start) :
    (s.add c t placement).attached.all.Pairwise Apart := by
  rw [State.add, Attachments.all_add, List.pairwise_append]
  refine ⟨h.order, List.pairwise_singleton .., fun x hx y hy _ _ => ?_⟩
  rw [List.mem_singleton.1 hy]
  exact hc _ (h.mem_done_of_attached hx)

/-- A comment that is attached to a node of the tree has an owner in it. -/
theorem add_owners (ht : root.Reaches t.node) :
    ∀ x ∈ (s.add c t placement).attached.all, ∃ n, root.Reaches n ∧ n.id = x.owner := by
  intro x hx
  rw [State.add, Attachments.all_add] at hx
  rcases List.mem_append.1 hx with hx | hx
  · exact h.owners x hx
  · exact ⟨t.node, ht, by rw [List.mem_singleton.1 hx]⟩

/-- A comment that is attached when none waits. -/
theorem add (hties : s.ties = []) (hc : ∀ d ∈ done, d.start < c.start) (ht : root.Reaches t.node) :
    Ordered root source (done ++ [c]) (s.add c t placement) := by
  refine ⟨?_, h.add_owners ht, h.add_order hc, ?_, ?_, ?_⟩
  · have hperm := h.perm
    rw [hties, List.map_nil, List.append_nil] at hperm
    simpa [State.add, hties] using hperm.append_right [c]
  all_goals simp [State.add, hties]

/-- A comment that a rule takes while others wait: they are attached behind it, but elsewhere. -/
theorem take (hw : root.WellBuilt) (hc : ∀ d ∈ done, d.start < c.start) (hle : c.start ≤ c.stop)
    (ht : byRules remainingRules source c (locate root c) = some t) :
    Ordered root source (done ++ [c]) ((s.add c t .remaining).breakTies source) := by
  obtain ⟨new, hall, hties, hcomments, hmeets⟩ := breakTies_spec source (s.add c t .remaining)
  -- to add an attachment leaves the ties
  have hsame : (s.add c t .remaining).ties = s.ties := rfl
  rw [hsame] at hcomments hmeets
  obtain ⟨hnew, howners⟩ := h.broken hcomments hmeets
  obtain ⟨parent, hl⟩ := locate_located root c
  have hreaches := byRules_reaches hw hl remainingRules_subset ht
  constructor
  · rw [hall, hties, List.map_append, hcomments, List.map_nil, List.append_nil]
    simp only [State.add, Attachments.all_add, List.map_append, List.map_cons, List.map_nil,
      List.append_assoc]
    -- the comment is attached before the ties are, but the order of a permutation does not matter
    refine List.Perm.trans ?_ (h.perm.append_right [c])
    rw [List.append_assoc]
    exact List.perm_append_comm.append_left _
  · rw [hall]
    intro x hx
    rcases List.mem_append.1 hx with hx | hx
    · exact h.add_owners hreaches x hx
    · exact howners x hx
  · rw [hall, List.pairwise_append]
    refine ⟨h.add_order hc, hnew, fun x hx y hy howner hrole => ?_⟩
    rw [State.add, Attachments.all_add] at hx
    rcases List.mem_append.1 hx with hx | hx
    · -- what was attached before comes before the ties
      have hmem : y.comment ∈ s.ties.map (·.comment) := hcomments ▸ List.mem_map_of_mem hy
      obtain ⟨tie, htie, heq⟩ := List.mem_map.1 hmem
      rw [← heq]
      exact h.earlier x hx tie htie
    · -- the comment itself meets no tie, so that it shares neither owner nor role with one
      obtain ⟨tie, htie, hmeets⟩ := hmeets y hy
      have hnot := (h.waits tie htie).not_meets hw (hc _ (h.mem_done_of_tie htie)) hle ht
      rw [List.mem_singleton.1 hx] at howner hrole
      rw [← howner, ← hrole] at hmeets
      exact absurd hmeets hnot
  all_goals simp [hties]

/-- A comment that waits, behind those that wait already. -/
theorem wait {tie : Tie} (hc : ∀ d ∈ done, d.start < tie.comment.start)
    (hwaits : Waits root source tie) :
    Ordered root source (done ++ [tie.comment]) { s with ties := s.ties ++ [tie] } := by
  refine ⟨?_, h.owners, h.order, ?_, ?_, ?_⟩
  · -- each field gets the tie, or the comment of the tie
    rw [List.map_append, ← List.append_assoc]
    exact h.perm.append_right _
  · intro x hx y hy
    rcases List.mem_append.1 hy with hy | hy
    · exact h.earlier x hx y hy
    · rw [List.mem_singleton.1 hy]
      -- the comment comes behind those that are done
      exact hc _ (h.mem_done_of_attached hx)
  · refine List.pairwise_append.2 ⟨h.ties, List.pairwise_singleton .., fun x hx y hy => ?_⟩
    rw [List.mem_singleton.1 hy]
    exact hc _ (h.mem_done_of_tie hx)
  · intro x hx
    rcases List.mem_append.1 hx with hx | hx
    · exact h.waits x hx
    · rw [List.mem_singleton.1 hx]
      exact hwaits

end Ordered

/-- Behind that nothing waits. -/
theorem ties_breakTies (source : Source) (s : State) : (s.breakTies source).ties = [] := by
  obtain ⟨-, -, hties, -⟩ := breakTies_spec source s
  exact hties

/-- A comment that no rule takes goes to a node of the tree. -/
theorem fallback_reaches {l : CommentLocation} {parent : Node} {first second : Option CommentTarget}
    (hl : Located root c l parent) (hfirst : ∀ t ∈ first, root.Reaches t.node)
    (hsecond : ∀ t ∈ second, root.Reaches t.node) :
    root.Reaches (fallback root l first second).node := by
  unfold fallback
  -- what the first rules found, else what the second ones did, else the enclosing node or the root
  cases first with
  | some t => exact hfirst t rfl
  | none =>
    cases second with
    | some t => exact hsecond t rfl
    | none =>
      cases hE : l.enclosing with
      | some n => exact hl.reaches_enclosing hE
      | none => exact .here

/-- A target in front of a comment is in the tree. -/
theorem reaches_before {l : CommentLocation} {parent : Node} (hl : Located root c l parent) :
    ∀ t ∈ l.following.bind leading, root.Reaches t.node := by
  intro t ht
  obtain ⟨n, hn, ⟨⟩⟩ := Option.bind_eq_some_iff.1 ht
  exact hl.reaches_following hn

/-- So is one behind it. -/
theorem reaches_behind {l : CommentLocation} {parent : Node} (hl : Located root c l parent) :
    ∀ t ∈ l.preceding.bind trailing, root.Reaches t.node := by
  intro t ht
  obtain ⟨n, hn, ⟨⟩⟩ := Option.bind_eq_some_iff.1 ht
  exact hl.reaches_preceding hn

/-- Where a comment on its own line or at the end of a line goes. -/
theorem target_reaches (hw : root.WellBuilt) {l : CommentLocation} {parent : Node}
    (hl : Located root c l parent) {rules : List AttachRule}
    (hrules : rules ⊆ nearbyRules ++ deeperRules) {other : CommentTarget}
    (hother : root.Reaches other.node) :
    root.Reaches ((byRules rules source c l).getD other).node := by
  cases h : byRules rules source c l with
  | some t => exact byRules_reaches hw hl hrules h
  | none => exact hother

/-- One comment keeps the invariant. -/
theorem attach_ordered (hw : root.WellBuilt) (h : Ordered root source done s)
    (hc : ∀ d ∈ done, d.start < c.start) (hle : c.start ≤ c.stop) :
    Ordered root source (done ++ [c]) (s.attach root source c) := by
  obtain ⟨parent, hl⟩ := locate_located root c
  have hbroken := h.breakTies
  have hties := ties_breakTies source s
  unfold State.attach
  -- the place of the comment on its line decides which rules are tried
  split
  · refine hbroken.add hties hc (target_reaches hw hl ownLineRules_subset ?_)
    exact fallback_reaches hl (reaches_before hl) (reaches_behind hl)
  · refine hbroken.add hties hc (target_reaches hw hl endOfLineRules_subset ?_)
    exact fallback_reaches hl (reaches_behind hl) (reaches_before hl)
  · -- the comment stands among other text
    dsimp only
    split
    next t ht => exact h.take hw hc hle ht
    -- it waits for what decides the tie
    next preceding following hfree hpreceding hfollowing =>
      have hwaits : Waits root source ⟨c, preceding, following⟩ := ⟨hpreceding, hfollowing, hfree⟩
      split
      · exact h.wait hc hwaits
      · exact hbroken.wait hc hwaits
    -- no rule takes it, and no tie holds it
    next =>
      refine hbroken.add hties hc ?_
      exact fallback_reaches hl (reaches_behind hl) (reaches_before hl)

/-- Comments that come in the order of the source keep the invariant. -/
theorem foldl_attach_ordered (hw : root.WellBuilt) {comments : List Comment}
    (h : Ordered root source done s)
    (hsorted : (done ++ comments).Pairwise fun a b => a.start < b.start)
    (hle : ∀ c ∈ comments, c.start ≤ c.stop) :
    Ordered root source (done ++ comments) (comments.foldl (State.attach root source) s) := by
  -- induction on the comments, each of which comes behind those that are done
  induction comments generalizing done s with
  | nil => simpa using h
  | cons c rest ih =>
    have hc : ∀ d ∈ done, d.start < c.start := fun d hd =>
      (List.pairwise_append.1 hsorted).2.2 d hd c List.mem_cons_self
    have hstep := attach_ordered hw h hc (hle c List.mem_cons_self)
    rw [List.append_cons] at hsorted ⊢
    exact ih hstep hsorted fun d hd => hle d (List.mem_cons_of_mem _ hd)

/-- Before the first comment nothing is attached and nothing waits. -/
theorem Ordered.start : Ordered root source [] {} := by
  constructor <;> simp

/-- What holds when all comments were seen and none waits any more. -/
theorem attachComments_ordered (hw : root.WellBuilt) {comments : List Comment}
    (hsorted : comments.Pairwise fun a b => a.start < b.start)
    (hle : ∀ c ∈ comments, c.start ≤ c.stop) :
    Ordered root source comments ⟨attachComments root comments source, []⟩ := by
  have h : Ordered root source ([] ++ comments) (comments.foldl (State.attach root source) {}) :=
    foldl_attach_ordered hw .start hsorted hle
  have hties := ties_breakTies source (comments.foldl (State.attach root source) {})
  have hstate : (⟨attachComments root comments source, []⟩ : State) =
      (comments.foldl (State.attach root source) {}).breakTies source :=
    congrArg (State.mk _) hties.symm
  rw [hstate]
  exact h.breakTies

end Reflow.Attach

namespace Reflow

variable {a : Attachments} {x : Attachment} {n : Node} {role : CommentRole}

/-- The comments of a node in a role are those that are attached to it in that role. -/
theorem Attachments.mem_inRole :
    x ∈ a.inRole role n ↔ x ∈ a.all ∧ x.owner = n.id ∧ x.role = role := by
  simp only [Attachments.inRole, Attachments.of, List.mem_filter, beq_iff_eq, and_assoc]

/-- They are in the order in which they were attached. -/
theorem Attachments.inRole_sublist (a : Attachments) (role : CommentRole) (n : Node) :
    (a.inRole role n).Sublist a.all :=
  List.filter_sublist.trans List.filter_sublist

/-- Attaching the comments of a parsed source loses and duplicates none.  Each comment is on one side
of one node, once, and nothing else is there; on each side of a node the comments come in the order
of the source.  The searches for the next character that decide about it all come to rest. -/
theorem attachComments_exact {source : Source} {html : Bool} {parsed : Grammar.Parsed}
    (h : Grammar.parse source html = .ok parsed) :
    let a := attachComments parsed.root parsed.comments source
    (a.all.map (·.comment)).Perm parsed.comments ∧
    (∀ c ∈ parsed.comments, ∃ n role, parsed.root.Reaches n ∧
      ((a.inRole role n).map (·.comment)).count c = 1 ∧
      ∀ m role', parsed.root.Reaches m → c ∈ (a.inRole role' m).map (·.comment) →
        m = n ∧ role' = role) ∧
    (∀ n role, ((a.inRole role n).map (·.comment.start)).Pairwise (· < ·)) ∧
    ∀ i : Int, 0 ≤ i →
      source.passGap (source.nextCharacterIndex i) = source.nextCharacterIndex i := by
  -- the tree is well built, and the comments are in order
  have hparsed := Grammar.parse_inOrder h
  have hsorted := hparsed.comments
  intro a
  have ho : Attach.Ordered parsed.root source parsed.comments ⟨a, []⟩ :=
    Attach.attachComments_ordered hparsed.tree hsorted fun c hc =>
      Nat.le_of_lt (hparsed.extent c hc)
  have hperm : (a.all.map (·.comment)).Perm parsed.comments := by simpa using ho.perm
  -- no comment is attached twice
  have hnodup : (a.all.map (·.comment)).Nodup :=
    hperm.nodup_iff.2 (hsorted.imp fun hlt heq => by simp [heq] at hlt)
  refine ⟨hperm, fun c hc => ?_, fun n role => ?_, fun i h0 => source.passGap_nextCharacterIndex h0⟩
  · -- the owner of a comment is the node whose list has it
    obtain ⟨x, hx, rfl⟩ := List.mem_map.1 (hperm.mem_iff.2 hc)
    obtain ⟨n, hn, hid⟩ := ho.owners x hx
    have hmem : x.comment ∈ (a.inRole x.role n).map (·.comment) :=
      List.mem_map_of_mem (Attachments.mem_inRole.2 ⟨hx, hid.symm, rfl⟩)
    have hsublist := (a.inRole_sublist x.role n).map (·.comment)
    refine ⟨n, x.role, hn, List.count_eq_one_of_mem (hnodup.sublist hsublist) hmem, ?_⟩
    intro m role' hm hc
    obtain ⟨y, hy, heq⟩ := List.mem_map.1 hc
    obtain ⟨hy, howner, hrole⟩ := Attachments.mem_inRole.1 hy
    -- the lists of one node have each comment at most once
    obtain rfl : y = x := List.inj_on_of_nodup_map hnodup hy hx heq
    exact ⟨hparsed.tree.eq_of_id hm hn (howner.symm.trans hid.symm), hrole.symm⟩
  · have hpairs := ho.order.sublist (a.inRole_sublist role n)
    refine List.pairwise_map.2 (hpairs.imp_of_mem fun hx hy hapart => ?_)
    obtain ⟨-, hx, hxrole⟩ := Attachments.mem_inRole.1 hx
    obtain ⟨-, hy, hyrole⟩ := Attachments.mem_inRole.1 hy
    exact hapart (hx.trans hy.symm) (hxrole.trans hyrole.symm)

set_option maxRecDepth 100000 in
/-- Comments around the arguments of a call: two of them wait for each other. -/
theorem attachComments_exact_call :
    let source : Source := .ofString "f(/*a*/ x /*b*/ /*c*/, y); // d"
    ∃ parsed, Grammar.parse source false = .ok parsed ∧ parsed.comments.length = 4 ∧
      ((attachComments parsed.root parsed.comments source).all.map (·.comment)).Perm
        parsed.comments := by
  intro source
  have hlength : (Grammar.parse source false).toOption.map (·.comments.length) = some 4 := by
    decide +kernel
  -- the source is read, and the numbers of its comments are computed
  cases h : Grammar.parse source false with
  | error fault => simp [h, Except.toOption] at hlength
  | ok parsed =>
    refine ⟨parsed, rfl, ?_, (attachComments_exact h).1⟩
    simpa [h, Except.toOption] using hlength

end Reflow
