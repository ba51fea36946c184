import Reflow.Proofs.Print.Template

/-!
# Groups of a chain

A chain of accesses and calls is taken apart into links and printed in one of two layouts: on one
line, or with its groups on lines of their own.  Whichever the engine chooses, the same links are
printed in the same order, because the groups are a partition of the links and both layouts go
through all groups.

## Key results

- `chainLinks_spine`: the links of a chain are its head, and all accesses and calls on it
- `flatten_cut`, `ne_nil_of_mem_cut`: cutting the links into groups is a partition of them
- `print_offers`, `Layout.madeOf`: the layouts that a chain offers, which go through all groups
- `memberChain_partitions`: the statement about calls of members
-/

namespace Reflow

/-! ## The links of a chain -/

/-- Is it an access, or the call of an access or of a call? -/
def Node.isLinked (n : Node) : Bool :=
  match n.form with
  | .memberExpression .. => true
  | .callExpression callee _ _ => callee.isMember || callee.isCall
  | _ => false

/-- The nodes of a chain, from its head on: what an access or a call hangs on comes before it. -/
inductive Node.Spine : Node → List Node → Prop
  | head {n : Node} (h : n.isLinked = false) : Spine n [n]
  | access {n object property : Node} {computed optional : Bool} {ns : List Node}
    (hn : n.form = .memberExpression object property computed optional) (h : Spine object ns) :
    Spine n (ns ++ [n])
  | call {n callee : Node} {arguments : List Node} {optional : Bool} {ns : List Node}
    (hn : n.form = .callExpression callee arguments optional)
    (hcallee : (callee.isMember || callee.isCall) = true) (h : Spine callee ns) :
    Spine n (ns ++ [n])

section Results

variable {c : PrintContext} {α β : Type} {m : Print α} {f : α → Print β} {P : α → Prop}
  {Q : β → Prop}

/-- Where two printers give a result, the first one gives one that the second goes on with. -/
theorem Print.bind_ok {s s' : PrintedComments} {notes notes' : List Note} {b : β}
    (h : (m >>= f) c s notes = (.ok (b, s'), notes')) :
    ∃ a s₁ notes₁, m c s notes = (.ok (a, s₁), notes₁) ∧ f a c s₁ notes₁ = (.ok (b, s'), notes') := by
  rw [Marks.bind_apply] at h
  rcases hrun : m c s notes with ⟨e | ⟨a, s₁⟩, notes₁⟩
  · rw [hrun] at h
    cases h
  · rw [hrun] at h
    exact ⟨a, s₁, notes₁, rfl, h⟩

/-- A printer behind one whose results have a property. -/
theorem Gives.bind (hm : Gives c m P) (hf : ∀ a, P a → Gives c (f a) Q) : Gives c (m >>= f) Q := by
  intro s s' notes notes' b h
  obtain ⟨a, s₁, notes₁, hrun, hthen⟩ := Print.bind_ok h
  exact hf a (hm hrun) hthen

/-- A document that is given back. -/
theorem Gives.pure {a : α} (h : P a) : Gives c (pure a) P := by
  intro s s' notes notes' b hb
  cases hb
  exact h

/-- A printer behind one of which nothing is known. -/
theorem Gives.after (hf : ∀ a, Gives c (f a) Q) : Gives c (m >>= f) Q :=
  Gives.bind (P := fun _ => True) (fun _ _ _ _ _ _ => trivial) fun a _ => hf a

end Results

namespace Print

variable {c : PrintContext} {print : PrintNode} {p : Path}

/-- A link is for the node that it is printed from. -/
theorem chainLink_node : Gives c (chainLink print p) fun link => link.node = p.node := by
  unfold chainLink
  split
  · exact .after fun _ => .after fun _ => .after fun _ => .pure rfl
  · exact .after fun _ => .after fun _ => .pure rfl
  · exact .after fun _ => .pure rfl

/-- A node that hangs on nothing is the head of a chain. -/
theorem spine_of_chainStep?_none {n : Node} (h : n.chainStep? = none) : n.Spine [n] := by
  apply Node.Spine.head
  obtain ⟨id, span, form⟩ := n
  cases form with
  | memberExpression => simp [Node.chainStep?] at h
  | callExpression callee _ _ =>
    simpa [Node.chainStep?, Node.isLinked, Node.form] using h
  | _ => rfl

/-- A node that hangs on another comes behind the chain of that one. -/
theorem spine_of_chainStep?_some {n inner : Node} {slot : Slot} {ns : List Node}
    (h : n.chainStep? = some (slot, inner)) (hs : inner.Spine ns) : n.Spine (ns ++ [n]) := by
  unfold Node.chainStep? at h
  split at h
  · split at h
    · rename_i hcallee
      cases h
      exact .call rfl hcallee hs
    · cases h
  · cases h
    exact .access rfl hs
  · cases h

/-- The links of a chain are its head, and all accesses and calls on it. -/
theorem chainLinks_spine : Gives c (chainLinks print p) fun links =>
    p.node.Spine (links.map (·.node)) := by
  fun_induction chainLinks print p with
  | case1 p hstep => exact .after fun _ => .pure (spine_of_chainStep?_none hstep)
  | case2 p slot inner hstep ih =>
    refine .bind chainLink_node fun link hlink => .bind ih fun links hlinks => .pure ?_
    rw [List.map_append, List.map_singleton, hlink]
    exact spine_of_chainStep?_some hstep hlinks

end Print

/-! ## Cutting -/

namespace Chain

variable {a : Attachments} {current links : List ChainLink} {seenCall : Bool}

/-- The accesses that are taken and those that are left are the links. -/
theorem takeAccesses_append (links : List ChainLink) :
    (takeAccesses links).1 ++ (takeAccesses links).2 = links := by
  fun_induction takeAccesses links with
  | case1 first second rest hmember accesses others hrest ih =>
    rw [hrest] at ih
    exact congrArg _ ih
  | case2 | case3 => rfl

/-- So are the head and what is left without it. -/
theorem takeHead_append (links : List ChainLink) :
    (takeHead links).1 ++ (takeHead links).2 = links := by
  cases links with
  | nil => rfl
  | cons first rest =>
    unfold takeHead
    dsimp only
    split
    · simp
    · have haccesses := takeAccesses_append
        (rest.dropWhile fun l => l.node.isCall || l.node.isNumericAccess)
      simp [haccesses]

/-- There is something in the head, as the first link is. -/
theorem takeHead_ne_nil (h : links ≠ []) : (takeHead links).1 ≠ [] := by
  cases links with
  | nil => exact absurd rfl h
  | cons first rest =>
    unfold takeHead
    dsimp only
    split <;> simp

/-- The groups are made of the links that were read and those still to be read. -/
theorem flatten_cut (a : Attachments) (current : List ChainLink) (seenCall : Bool)
    (links : List ChainLink) : (cut a current seenCall links).flatten = current ++ links := by
  fun_induction cut a current seenCall links with
  | case1 current seenCall hcurrent => simp [List.isEmpty_iff.1 hcurrent]
  | case2 => simp
  | case3 current seenCall link rest hnumeric ih | case7 current seenCall link rest _ _ _ ih =>
    rw [ih, List.append_assoc, List.singleton_append]
  | case4 current seenCall link rest _ hmember htrailing ih => simp [ih]
  | case5 current seenCall link rest _ hmember htrailing ih => simp [ih]
  | case6 current seenCall link rest _ hmember htrailing ih => simp [ih]

/-- There is something in every group, as there is in the one that is being read once it holds a
call. -/
theorem ne_nil_of_mem_cut (h : seenCall = true → current ≠ []) :
    ∀ g ∈ cut a current seenCall links, g ≠ [] := by
  -- a group is closed behind a link, so that it is not empty
  fun_induction cut a current seenCall links with
  | case1 => simp
  | case2 current seenCall hcurrent => simpa using hcurrent
  | case3 current seenCall link rest hnumeric ih | case7 current seenCall link rest _ _ _ ih =>
    exact ih (by simp)
  -- a call was seen, so the group that is closed here has it
  | case4 current seenCall link rest _ hmember htrailing ih =>
    have hcurrent := h (by simp_all)
    have hrest := ih (by simp)
    simp_all
  | case5 current seenCall link rest _ hmember htrailing ih =>
    have hcurrent := h (by simp_all)
    have hrest := ih (by simp)
    simp_all
  | case6 current seenCall link rest _ hmember htrailing ih =>
    have hrest := ih (by simp)
    simp_all

/-- All groups, with the head as the first one. -/
def allGroups (a : Attachments) (links : List ChainLink) : List (List ChainLink) :=
  (groups a links).1 :: (groups a links).2

/-- The groups are a partition of the links. -/
theorem allGroups_partition (h : links ≠ []) :
    (∀ g ∈ allGroups a links, g ≠ []) ∧ (allGroups a links).flatten = links := by
  constructor
  · intro g hg
    rcases List.mem_cons.1 hg with rfl | hg
    · exact takeHead_ne_nil h
    · exact ne_nil_of_mem_cut (by simp) g hg
  · have hrest := flatten_cut a [] false (takeHead links).2
    rw [allGroups, List.flatten_cons, groups, hrest]
    exact takeHead_append links

end Chain

/-! ## Layouts -/

/-- A document that is made of others, in this order; all else in it are fillers. -/
inductive Doc.MadeOf (filler : Doc → Prop) : Doc → List Doc → Prop
  | part (d : Doc) : MadeOf filler d [d]
  | filler {d : Doc} (h : filler d) : MadeOf filler d []
  | nil : MadeOf filler (.cat []) []
  | cons {d : Doc} {parts ds es : List Doc} (hd : MadeOf filler d ds)
    (hparts : MadeOf filler (.cat parts) es) : MadeOf filler (.cat (d :: parts)) (ds ++ es)
  | indent {d : Doc} {ds : List Doc} (h : MadeOf filler d ds) : MadeOf filler (.indent d) ds
  | group {d : Doc} {ds : List Doc} (h : MadeOf filler d ds) : MadeOf filler (.grouped d) ds

namespace Doc.MadeOf

variable {α : Type} {filler : Doc → Prop} {g : α → Doc} {ds : α → List Doc}

/-- Parts that are put one behind the other, with more behind them. -/
theorem cat_map_append (h : ∀ x, MadeOf filler (g x) (ds x)) (l : List α) {rest es : List Doc}
    (hrest : MadeOf filler (.cat rest) es) :
    MadeOf filler (.cat (l.map g ++ rest)) (l.flatMap ds ++ es) := by
  induction l with
  | nil => exact hrest
  | cons x l ih =>
    rw [List.flatMap_cons, List.append_assoc]
    exact .cons (h x) ih

/-- Parts that are put one behind the other. -/
theorem cat_map (h : ∀ x, MadeOf filler (g x) (ds x)) (l : List α) :
    MadeOf filler (.cat (l.map g)) (l.flatMap ds) := by
  simpa using cat_map_append h l .nil

/-- Parts with a separator between them, which is a filler. -/
theorem join_map {separator : Doc} (hseparator : filler separator)
    (h : ∀ x, MadeOf filler (g x) (ds x)) (l : List α) :
    MadeOf filler (.join separator (l.map g)) (l.flatMap ds) := by
  rw [Doc.join]
  induction l with
  | nil => exact .nil
  | cons x l ih =>
    cases l with
    -- no separator stands behind the last one
    | nil => exact .cons (h x) .nil
    | cons y l =>
      simp only [List.map_cons, List.intersperse_cons_cons] at ih ⊢
      have hrest := MadeOf.cons (.filler hseparator) ih
      exact .cons (h x) hrest

end Doc.MadeOf

/-- The layouts among which the engine chooses. -/
inductive Doc.Offers : Doc → List Doc → Prop
  | only (layout : Doc) : Offers (.grouped layout) [layout]
  | either (breaks : Bool) (oneLine expanded : Doc) :
    Offers (.cat [.when breaks .breakParent, .alternatives oneLine [expanded] false])
      [oneLine, expanded]

namespace Chain

/-- The two layouts of a chain: all groups on one line, or some of them on lines of their own behind
the head and the groups that are kept with it. -/
inductive Layout (head : List ChainLink) (groups : List (List ChainLink)) : Doc → Prop
  | oneLine : Layout head groups (.cat ((head :: groups).map printGroup))
  | expanded {kept broken : List (List ChainLink)} (h : kept ++ broken = groups) (blank : Bool) :
    Layout head groups (.cat [printGroup head, .cat (kept.map printGroup), .when blank .hardline,
      printIndented broken])

/-- A chain offers no other layouts. -/
theorem print_offers (options : Options) (a : Attachments) (source : Source) (isStatement : Bool)
    (links : List ChainLink) :
    ∃ layouts, (print options a source isStatement links).Offers layouts ∧
      ∀ layout ∈ layouts, Layout (groups a links).1 (groups a links).2 layout := by
  unfold print
  generalize groups a links = parts
  obtain ⟨head, gs⟩ := parts
  dsimp only
  -- whether the first group is merged decides only how many groups stay on the line
  generalize (if mergesFirst options a isStatement head gs then 1 else 0) = n
  have hkept := List.prefix_iff_eq_append.1 (List.take_prefix n gs)
  split
  · -- short chains have one layout, long ones two
    exact ⟨_, .only _, List.forall_mem_singleton.2 .oneLine⟩
  · split
    · exact ⟨_, .only _, List.forall_mem_singleton.2 (.expanded hkept _)⟩
    · exact ⟨_, .either _ _ _,
        List.forall_mem_cons.2 ⟨.oneLine, List.forall_mem_singleton.2 (.expanded hkept _)⟩⟩

section Made

variable {filler : Doc → Prop} {ds : List ChainLink → List Doc}
  (hgroup : ∀ g, (printGroup g).MadeOf filler (ds g)) (hline : filler .hardline)
  (hempty : filler .empty)

include hgroup hline hempty

/-- Groups on lines of their own are made of the same groups. -/
theorem printIndented_madeOf (gs : List (List ChainLink)) :
    (printIndented gs).MadeOf filler (gs.flatMap ds) := by
  unfold printIndented
  split
  · rename_i hgs
    rw [List.isEmpty_iff.1 hgs]
    exact .filler hempty
  · have hjoined := Doc.MadeOf.join_map hline hgroup gs
    have hparts := Doc.MadeOf.cons (.filler hline) (.cons hjoined .nil)
    simpa using Doc.MadeOf.indent (.group hparts)

/-- Both layouts go through all groups. -/
theorem Layout.madeOf {head : List ChainLink} {gs : List (List ChainLink)} {layout : Doc}
    (h : Layout head gs layout) : layout.MadeOf filler ((head :: gs).flatMap ds) := by
  cases h with
  -- on one line the groups stand one after the other
  | oneLine => exact Doc.MadeOf.cat_map hgroup (head :: gs)
  -- the groups that are kept, perhaps a blank line, and the others further in
  | @expanded kept broken h blank =>
    have hblank : (Doc.when blank .hardline).MadeOf filler [] := by
      cases blank with
      | true => exact .filler hline
      | false => exact .filler hempty
    have hbroken := printIndented_madeOf hgroup hline hempty broken
    have hparts := Doc.MadeOf.cons (hgroup head)
      (.cons (.cat_map hgroup kept) (.cons hblank (.cons hbroken .nil)))
    simpa [← h] using hparts

end Made

/-- Line breaks and nothing. -/
def IsBreak (d : Doc) : Prop := d = .hardline ∨ d = .empty

/-- Parentheses. -/
def IsParen (d : Doc) : Prop := d = .text "(" ∨ d = .text ")"

/-- A group is made of its links; there may be parentheses around them. -/
theorem printGroup_madeOf {filler : Doc → Prop} (hparen : ∀ d, IsParen d → filler d)
    (group : List ChainLink) : (printGroup group).MadeOf filler (group.map (·.printed)) := by
  have hlink : ∀ link : ChainLink, link.printed.MadeOf filler [link.printed] := fun _ => .part _
  rw [List.map_eq_flatMap]
  unfold printGroup
  dsimp only
  -- a chain that starts with parentheses has them in its first group
  split
  · have hclosing : (Doc.cat [.text ")"]).MadeOf filler [] :=
      .cons (.filler (hparen _ (.inr rfl))) .nil
    have hlinks := Doc.MadeOf.cat_map_append hlink group hclosing
    rw [List.append_nil] at hlinks
    exact .cons (.filler (hparen _ (.inl rfl))) hlinks
  · exact .cat_map hlink group

/-- The links of a chain, as they are printed, are its head and all accesses and calls on it.  Its
groups are a partition of them, and the layouts consist of the same groups, and so of the same
links, in the same order. -/
structure Partitions (a : Attachments) (n : Node) (links : List ChainLink) (layouts : List Doc) :
    Prop where
  spine : n.Spine (links.map (·.node))
  nonempty : ∀ g ∈ allGroups a links, g ≠ []
  flatten : (allGroups a links).flatten = links
  groups : ∀ layout ∈ layouts, layout.MadeOf IsBreak ((allGroups a links).map printGroup)
  links : ∀ layout ∈ layouts,
    layout.MadeOf (fun d => IsBreak d ∨ IsParen d) (links.map (·.printed))

variable (options : Options) (source : Source) (isStatement : Bool) in
/-- The layouts of a chain show all of it. -/
theorem print_partitions {n : Node} (hlinks : links ≠ []) (hspine : n.Spine (links.map (·.node))) :
    ∃ layouts, (print options a source isStatement links).Offers layouts ∧
      Partitions a n links layouts := by
  obtain ⟨layouts, hoffers, hlayouts⟩ := print_offers options a source isStatement links
  have hpartition := allGroups_partition (a := a) hlinks
  refine ⟨layouts, hoffers, hspine, hpartition.1, hpartition.2, fun layout h => ?_,
    fun layout h => ?_⟩
  · -- the groups, with line breaks between them
    have hgroup : ∀ g, (printGroup g).MadeOf IsBreak [printGroup g] := fun _ => .part _
    have hmade := (hlayouts layout h).madeOf hgroup (.inl rfl) (.inr rfl)
    rwa [← List.map_eq_flatMap] at hmade
  · -- the links, with parentheses, too
    have hgroup : ∀ g, (printGroup g).MadeOf (fun d => IsBreak d ∨ IsParen d)
        (g.map (·.printed)) := printGroup_madeOf fun _ => .inr
    have hmade := (hlayouts layout h).madeOf hgroup (.inl (.inl rfl)) (.inl (.inr rfl))
    -- the groups have the links in their order
    have hall := congrArg (List.map (·.printed)) hpartition.2
    rw [List.map_flatten, ← List.flatMap_def] at hall
    exact hall ▸ hmade

end Chain

namespace Print

open Chain

variable {c : PrintContext} {p : Path} {callee : Node} {args : List Node} {optional : Bool}

variable (c) in
/-- The document of a call of a member offers layouts that show the whole chain: the links that are
printed for its callee, and the call itself. -/
theorem memberChain_partitions (print : PrintNode)
    (hform : p.node.form = .callExpression callee args optional)
    (hmember : callee.isMember = true) {s s' : PrintedComments} {notes notes' : List Note} {d : Doc}
    (h : memberChain print p callee args c s notes = (.ok (d, s'), notes')) :
    ∃ tail links s₁ notes₁,
      callTail print p callee args c s notes = (.ok (tail, s₁), notes₁) ∧
      chainLinks print (p.child .callee callee) c s₁ notes₁ = (.ok (links, s'), notes') ∧
      ∃ layouts, d.Offers layouts ∧
        Partitions c.attachments p.node (links ++ [{ node := p.node, printed := tail }]) layouts := by
  obtain ⟨tail, s₁, notes₁, htail, h⟩ := bind_ok h
  obtain ⟨links, s₂, notes₂, hlinks, h⟩ := bind_ok h
  -- what is left only looks at the surroundings
  cases h
  refine ⟨tail, links, s₁, notes₁, htail, hlinks, print_partitions c.options c.source _ (by simp) ?_⟩
  rw [List.map_append]
  exact .call hform (by simp [hmember]) (chainLinks_spine hlinks)

/-- A chain of two accesses with a call behind each of them, which is printed. -/
theorem memberChain_partitions_two :
    let name (s : String) : Node := .mk 0 default (.identifier s)
    let first : Node := .mk 1 default (.memberExpression (name "a") (name "b") false false)
    let call : Node := .mk 2 default (.callExpression first [] false)
    let second : Node := .mk 3 default (.memberExpression call (name "c") false false)
    let outer : Node := .mk 4 default (.callExpression second [] false)
    let print : PrintNode := fun p _ => return .text p.node.typeName
    let c : PrintContext :=
      { options := {}
        source := .ofString "a.b().c()"
        comments := []
        attachments := {}
        textToDoc := fun _ s => return .text s }
    ∃ d s notes, memberChain print (.ofRoot outer) second [] c {} [] = (.ok (d, s), notes) ∧
      ∃ tail links s₁ notes₁,
        callTail print (.ofRoot outer) second [] c {} [] = (.ok (tail, s₁), notes₁) ∧
        chainLinks print (.child (.ofRoot outer) .callee second) c s₁ notes₁ =
          (.ok (links, s), notes) ∧
        ∃ layouts, d.Offers layouts ∧
          Partitions c.attachments outer (links ++ [{ node := outer, printed := tail }]) layouts := by
  intro name first call second outer print c
  -- the chain is printed, and its parts are those of the theorem
  have hrun : (memberChain print (.ofRoot outer) second [] c {} []).1.isOk = true := by
    decide +kernel
  rcases h : memberChain print (.ofRoot outer) second [] c {} [] with ⟨e | ⟨d, s⟩, notes⟩
  · rw [h] at hrun
    cases hrun
  · exact ⟨d, s, notes, rfl, memberChain_partitions c print rfl rfl h⟩

end Print

end Reflow
