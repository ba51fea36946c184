import Reflow.Print.Markup
import Reflow.Proofs.Text.Solid

/-!
# Packed children

The children of an element are packed into contents and separators in turn, then cleaned and
trimmed.  Cleaning takes out two neighbours at a time and trimming at the end takes out parts with
nothing behind them, so what is left stays in turn.  None of what is taken out is solid: no word and
no printed child is lost, doubled or moved.

## Key results

- `Thins`: what cleaning and trimming can do to a list of parts
- `clean_thins`, `trim_thins`: that they do nothing else
- `pack_paired`: packing gives pairs of a content and a separator
- `packed_inTurn`: the contents of an element are all its words and printed children, in turn with
  separators
-/

namespace Reflow

open Text (splitAt)

/-! ## Words -/

/-- The pieces of a text hold all but the separators. -/
theorem flatten_splitAt (separator : Char) (cs : List Char) :
    (splitAt separator cs).flatten = cs.filter (· != separator) := by
  induction cs with
  | nil => rfl
  | cons c cs ih =>
    rw [splitAt]
    by_cases hc : c = separator
    · simp [hc, ih]
    · rw [if_neg hc, List.filter_cons_of_pos (by simpa using hc), ← ih]
      cases splitAt separator cs with
      | nil => simp
      | cons piece pieces => simp

/-- The words of a text hold all of it but its white space. -/
theorem flatten_markupWords (raw : List Char) :
    (markupWords raw).flatten = raw.filter fun c => !isMarkupSpace c := by
  -- words are what is left between the spaces
  have hwords : (markupWords raw).flatten =
      (raw.map fun c => if isMarkupSpace c then ' ' else c).filter (· != ' ') := by
    rw [markupWords, List.flatten_filter_not_isEmpty, flatten_splitAt]
  rw [hwords, List.filter_map]
  -- a character that is kept is not replaced
  have hsame : ∀ c ∈ raw.filter (fun c => !isMarkupSpace c),
      (if isMarkupSpace c then ' ' else c) = id c := by
    simp_all
  -- the space is among the characters that are replaced
  have hkept : ((· != ' ') ∘ fun c => if isMarkupSpace c then ' ' else c) =
      fun c => !isMarkupSpace c := by
    funext c
    by_cases hc : isMarkupSpace c = true
    · simp [hc]
    · have hne : c ≠ ' ' := fun h => hc (h ▸ rfl)
      simp [hc, hne]
  rw [hkept]
  exact (List.map_congr_left hsame).trans (List.map_id _)

/-- A word of a text has characters. -/
theorem ne_nil_of_mem_markupWords {raw word : List Char} (h : word ∈ markupWords raw) :
    word ≠ [] := by
  simp_all [markupWords]

/-- A text that does not show has no words. -/
theorem markupWords_of_hidden {raw : List Char} (h : isMeaningfulText raw = false) :
    markupWords raw = [] := by
  have hspace : ∀ c ∈ raw, isMarkupSpace c = true := by simp_all [isMeaningfulText]
  have hflat : (markupWords raw).flatten = [] := by simpa [flatten_markupWords] using hspace
  apply List.eq_nil_iff_forall_not_mem.2
  intro word hword
  exact ne_nil_of_mem_markupWords hword (List.flatten_eq_nil_iff.1 hflat word hword)

/-! ## Parts in turn -/

namespace ChildPart

/-- Is it a word or a printed child? -/
def isSolid : ChildPart → Bool
  | .word _ | .item _ => true
  | _ => false

/-- Is it a content: a word, a printed child or nothing? -/
def isContent (x : ChildPart) : Bool := x.isSolid || x.isEmpty

/-- Is it a separator?  It can be nothing only where no white space may be added. -/
def isSeparator (translated : Bool) (x : ChildPart) : Bool :=
  !x.isSolid && (translated || !x.isEmpty)

/-- Can it stand at a place?  Contents stand at even places, and separators at odd ones. -/
def fitsAt (translated : Bool) (place : Nat) (x : ChildPart) : Bool :=
  if place % 2 = 0 then x.isContent else x.isSeparator translated

/-- What fits at a place fits two places further on. -/
theorem fitsAt_add_two (translated : Bool) (place : Nat) (x : ChildPart) :
    x.fitsAt translated (place + 2) = x.fitsAt translated place := by
  simp [fitsAt]

end ChildPart

/-- The words of a text, and a child that prints something. -/
def MarkupChild.solids : MarkupChild → List ChildPart
  | .text raw => (markupWords raw).map .word
  | .item (.text "") _ => []
  | .item d _ => [.item d]

namespace Children

open ChildPart

variable {translated hasText : Bool} {space : Doc} {x y : ChildPart}
  {parts xs ys : List ChildPart} {place : Nat}

/-- Contents and separators in turn, the first part being at a place. -/
def InTurn (translated : Bool) (place : Nat) (parts : List ChildPart) : Prop :=
  ∀ i (x : ChildPart), parts[i]? = some x → x.fitsAt translated (place + i) = true

/-- Nothing is in turn. -/
theorem inTurn_nil : InTurn translated place [] := by
  intro i x h
  simp at h

/-- Parts are in turn if the first fits where it is and the others do behind it. -/
theorem inTurn_cons :
    InTurn translated place (x :: xs) ↔
      x.fitsAt translated place = true ∧ InTurn translated (place + 1) xs := by
  -- a part further on is the same part one place earlier behind the first one
  constructor
  · intro h
    refine ⟨h 0 x rfl, fun i y hy => ?_⟩
    have hplace : place + 1 + i = place + (i + 1) := by omega
    rw [hplace]
    exact h (i + 1) y hy
  · intro ⟨hx, hxs⟩ i y hy
    cases i with
    | zero =>
      cases hy
      exact hx
    | succ i =>
      have hplace : place + (i + 1) = place + 1 + i := by omega
      rw [hplace]
      exact hxs i y hy

/-- Two places further the same parts are in turn. -/
theorem inTurn_add_two : InTurn translated (place + 2) xs ↔ InTurn translated place xs := by
  have hplace (i : Nat) : place + 2 + i = place + i + 2 := by omega
  simp only [InTurn, hplace, fitsAt_add_two]

/-! ## Taking out parts -/

/-- What taking out parts that are not solid can leave: two neighbours are taken out together, and
single parts only at the end. -/
inductive Thins : List ChildPart → List ChildPart → Prop
  | refl (parts : List ChildPart) : Thins parts parts
  | trans {xs ys zs : List ChildPart} (h : Thins xs ys) (h' : Thins ys zs) : Thins xs zs
  | cons (x : ChildPart) {xs ys : List ChildPart} (h : Thins xs ys) : Thins (x :: xs) (x :: ys)
  | pair {x y : ChildPart} (hx : x.isSolid = false) (hy : y.isSolid = false)
    (parts : List ChildPart) : Thins (x :: y :: parts) parts
  | last {x : ChildPart} (hx : x.isSolid = false) : Thins [x] []

namespace Thins

/-- What is left was at places of the same parity, in the same order. -/
theorem exists_origin (h : Thins xs ys) :
    ∃ origin : Nat → Nat, (∀ i j, i < j → origin i < origin j) ∧
      ∀ i (x : ChildPart), ys[i]? = some x →
        xs[origin i]? = some x ∧ origin i % 2 = i % 2 := by
  -- by induction on how the parts were thinned
  induction h with
  | refl => exact ⟨id, fun _ _ h => h, fun _ _ hx => ⟨hx, rfl⟩⟩
  | trans _ _ ih ih' =>
    obtain ⟨f, hf, hxs⟩ := ih
    obtain ⟨g, hg, hys⟩ := ih'
    refine ⟨f ∘ g, fun i j h => hf _ _ (hg i j h), fun i x hx => ?_⟩
    obtain ⟨hy, hmod⟩ := hys i x hx
    obtain ⟨hx, hmod'⟩ := hxs (g i) x hy
    exact ⟨hx, hmod'.trans hmod⟩
  | cons x _ ih =>
    obtain ⟨f, hf, hxs⟩ := ih
    -- the first part stays where it is
    refine ⟨fun i => if i = 0 then 0 else f (i - 1) + 1, fun i j h => ?_, fun i y hy => ?_⟩
    · by_cases hi : i = 0
      · have hj : j ≠ 0 := by omega
        simp [hi, hj]
      · have hj : j ≠ 0 := by omega
        have hlt := hf (i - 1) (j - 1) (by omega)
        simpa [hi, hj] using hlt
    · cases i with
      | zero => exact ⟨hy, rfl⟩
      | succ i =>
        obtain ⟨hx, hmod⟩ := hxs i y hy
        refine ⟨hx, ?_⟩
        simp only [Nat.add_one_ne_zero, if_false, Nat.add_sub_cancel]
        omega
  -- a pair at the front moves everything behind it by two
  | pair _ _ parts => exact ⟨(· + 2), fun i j h => Nat.add_lt_add_right h 2,
    fun i x hx => ⟨hx, Nat.add_mod_right i 2⟩⟩
  | last => exact ⟨id, fun _ _ h => h, fun i x hx => by simp at hx⟩

/-- What is left of parts is left in their order. -/
theorem sublist (h : Thins xs ys) : ys.Sublist xs := by
  induction h with
  | refl parts => exact .refl parts
  | trans _ _ ih ih' => exact ih'.trans ih
  | cons x _ ih => exact ih.cons_cons x
  | pair _ _ parts => exact ((List.Sublist.refl parts).cons _).cons _
  | last _ => exact List.nil_sublist _

/-- All that is solid is left. -/
theorem filter_isSolid (h : Thins xs ys) : ys.filter isSolid = xs.filter isSolid := by
  induction h with
  | refl => rfl
  | trans _ _ ih ih' => rw [ih', ih]
  | cons x _ ih => rw [List.filter_cons, List.filter_cons, ih]
  | pair hx hy => simp [hx, hy]
  | last hx => simp [hx]

/-- What is left is in turn, if the parts were. -/
theorem inTurn (h : Thins xs ys) : InTurn translated place xs → InTurn translated place ys := by
  induction h generalizing place with
  | refl => exact id
  | trans _ _ ih ih' => exact fun hxs => ih' (ih hxs)
  | cons x _ ih =>
    intro hxs
    have hparts := inTurn_cons.1 hxs
    exact inTurn_cons.2 ⟨hparts.1, ih hparts.2⟩
  | pair hx hy parts =>
    intro hxs
    exact inTurn_add_two.1 (inTurn_cons.1 (inTurn_cons.1 hxs).2).2
  | last => exact fun _ => inTurn_nil

/-- What stands in front stays. -/
theorem append_left (front : List ChildPart) (h : Thins xs ys) :
    Thins (front ++ xs) (front ++ ys) := by
  induction front with
  | nil => exact h
  | cons x front ih => exact .cons x ih

end Thins

/-- An empty part is not solid. -/
theorem isSolid_of_isEmpty (h : x.isEmpty = true) : x.isSolid = false := by
  cases x <;> simp_all [isEmpty, isSolid]

/-- Only separators are superfluous. -/
theorem isSolid_of_isSuperfluous {c : ChildPart} (h : isSuperfluous hasText x c = true) :
    x.isSolid = false := by
  cases x <;> simp_all [isSuperfluous, isHardline, isBreak, isWhitespace, isSolid]

variable (hasText) in
/-- A step of the cleaning. -/
theorem cleanBefore_thins (a : ChildPart) (rest : List ChildPart) :
    Thins (a :: rest) (cleanBefore hasText a rest) := by
  fun_cases cleanBefore hasText a rest with
  | case1 | case2 | case4 | case7 => exact .refl _
  | case3 b more hb ha =>
    exact .pair (isSolid_of_isEmpty ha) (isSolid_of_isEmpty (by simpa using hb)) more
  | case5 b hb ha c more hac =>
    exact .pair (isSolid_of_isSuperfluous hac) (isSolid_of_isEmpty (by simpa using hb)) (c :: more)
  | case6 b hb ha c more hac hswallow =>
    -- the line break behind white space goes, with the empty part in front of it
    have hc : c.isSolid = false := by
      cases c <;> simp_all [isBreak, isSolid]
    exact .cons a (.pair (isSolid_of_isEmpty (by simpa using hb)) hc more)

variable (hasText) in
/-- Cleaning drops parts that are not solid, an even number at a time. -/
theorem clean_thins (parts : List ChildPart) : Thins parts (clean hasText parts) := by
  induction parts with
  | nil => exact .refl []
  | cons a parts ih => exact (ih.cons a).trans (cleanBefore_thins hasText a _)

/-- Parts of which trimming takes out none that is solid. -/
def Showing (space : Doc) (parts : List ChildPart) : Prop :=
  ∀ x ∈ parts, x.isSolid = true → x.isTrimmed space = false

/-- What is left of parts shows no more than they do. -/
theorem Showing.of_sublist (h : Showing space parts) (hxs : xs.Sublist parts) :
    Showing space xs :=
  fun x hx => h x (hxs.subset hx)

/-- A part that is trimmed is not solid. -/
theorem Showing.isSolid (h : Showing space parts) (hx : x ∈ parts)
    (htrimmed : x.isTrimmed space = true) : x.isSolid = false := by
  by_cases hsolid : x.isSolid = true
  · simp [h x hx hsolid] at htrimmed
  · simpa using hsolid

/-- Trimming the start drops parts that are not solid. -/
theorem trimStart_thins (h : Showing space parts) : Thins parts (trimStart space parts) := by
  fun_induction trimStart space parts with
  | case1 a b rest htrimmed ih =>
    simp only [Bool.and_eq_true] at htrimmed
    have ha := h.isSolid (by simp) htrimmed.1
    have hb := h.isSolid (by simp) htrimmed.2
    have hrest : Showing space rest := h.of_sublist ((List.sublist_cons_self b rest).cons a)
    exact (Thins.pair ha hb rest).trans (ih hrest)
  | case2 | case3 => exact .refl _

/-- So does trimming the end. -/
theorem trimEnd_thins (h : Showing space parts) :
    Thins parts (parts.reverse.dropWhile (·.isTrimmed space)).reverse := by
  -- from the end of the list
  induction parts using List.reverseRecOn with
  | nil => exact .refl []
  | append_singleton parts x ih =>
    rw [List.reverse_concat]
    -- the last part is trimmed, so it shows nothing, and the next may be
    by_cases hx : x.isTrimmed space = true
    · rw [List.dropWhile_cons_of_pos hx]
      have hsolid := h.isSolid (by simp) hx
      have hlast : Thins (parts ++ [x]) parts := by
        simpa using Thins.append_left parts (.last hsolid)
      exact hlast.trans (ih (h.of_sublist (List.sublist_append_left parts [x])))
    · rw [List.dropWhile_cons_of_neg hx, List.reverse_cons, List.reverse_reverse]
      exact .refl _

/-- So does trimming both. -/
theorem trim_thins (h : Showing space parts) : Thins parts (trim space parts) := by
  have hend := trimEnd_thins h
  exact hend.trans (trimStart_thins (h.of_sublist hend.sublist))

/-! ## Packing -/

/-- Pairs of a content and a separator. -/
def Paired (translated : Bool) (parts : List ChildPart) : Prop :=
  parts.length % 2 = 0 ∧ InTurn translated 0 parts

/-- Nothing is paired. -/
theorem paired_nil : Paired translated [] := ⟨rfl, inTurn_nil⟩

/-- Parts are paired if the first two are content and separator and the others are paired. -/
theorem paired_cons :
    Paired translated (x :: y :: parts) ↔
      (x.isContent = true ∧ y.isSeparator translated = true) ∧ Paired translated parts := by
  have hlength : (x :: y :: parts).length % 2 = parts.length % 2 := by
    simp only [List.length_cons]
    omega
  have htwo : InTurn translated 2 parts ↔ InTurn translated 0 parts := inTurn_add_two
  rw [Paired, Paired, hlength, inTurn_cons, inTurn_cons]
  simp only [Nat.zero_add, Nat.reduceAdd, htwo, fitsAt, Nat.zero_mod, Nat.one_mod, if_true]
  simp
  tauto

/-- Paired parts may be put one behind the other. -/
theorem Paired.append {xs ys : List ChildPart} (hx : Paired translated xs)
    (hy : Paired translated ys) : Paired translated (xs ++ ys) := by
  match xs, hx with
  | [], _ => exact hy
  | [x], hx => exact absurd hx.1 (by simp)
  | x :: y :: xs, hx =>
    have hpair := paired_cons.1 hx
    exact paired_cons.2 ⟨hpair.1, hpair.2.append hy⟩

section Separators

variable (s : Surroundings) (word : List Char)

/-- What stands between words and children without white space is a separator. -/
theorem isSeparator_tight : (tight s word).isSeparator s.translated = true := by
  unfold tight
  split
  · simp_all [isSeparator, isSolid]
  · split <;> simp [isSeparator, isSolid, isEmpty]

/-- So is what stands at the edge of a text. -/
theorem isSeparator_atEdge (white : List Char) :
    (atEdge s white word).isSeparator s.translated = true := by
  unfold atEdge loose
  split
  · split <;> simp [isSeparator, isSolid, isEmpty]
  · simp [isSeparator, isSolid, isEmpty]

/-- So is what stands behind a child. -/
theorem isSeparator_behindItem (item : MarkupChild) (next : Option MarkupChild) :
    (behindItem translated item next).isSeparator translated = true := by
  unfold behindItem
  split
  · split
    · exact isSeparator_tight ⟨translated, item.isUnclosed⟩ _
    · simp [isSeparator, isSolid, isEmpty]
  · simp [isSeparator, isSolid, isEmpty]

end Separators

/-- Words with gaps between them and a separator behind them. -/
theorem paired_words {words : List (List Char)} (hwords : words ≠ [])
    (hx : x.isSeparator translated = true) :
    Paired translated ((words.map ChildPart.word).intersperse .gap ++ [x]) := by
  induction words with
  | nil => exact absurd rfl hwords
  | cons word words ih =>
    cases words with
    | nil => exact paired_cons.2 ⟨⟨rfl, hx⟩, paired_nil⟩
    | cons next words =>
      have hrest := ih (by simp)
      simp only [List.map_cons, List.intersperse_cons_cons, List.cons_append] at hrest ⊢
      exact paired_cons.2 ⟨⟨rfl, by simp [isSeparator, isSolid, isEmpty]⟩, hrest⟩

/-- The parts of a text are paired. -/
theorem ofText_paired (s : Surroundings) (raw : List Char) :
    Paired s.translated (ofText s raw) := by
  -- white space at an edge is a pair of its own
  have hleading : ∀ (white word : List Char), Paired s.translated
      (if white.isEmpty then [] else [.empty, atEdge s white word]) := by
    intro white word
    split
    · exact paired_nil
    · exact paired_cons.2 ⟨⟨rfl, isSeparator_atEdge s word white⟩, paired_nil⟩
  unfold ofText
  dsimp only
  split
  · exact hleading _ _
  · -- the words stand in turn with white space, up to the edge behind them
    rename_i last hlast
    have hwords : markupWords raw ≠ [] := by
      intro h
      simp [h] at hlast
    rw [List.append_assoc]
    refine (hleading _ _).append (paired_words hwords ?_)
    split
    · exact isSeparator_tight s last
    · exact isSeparator_atEdge s last _

variable (translated) in
/-- Packing gives pairs of a content and a separator. -/
theorem pack_paired (children : List MarkupChild) :
    Paired translated (pack translated children) := by
  induction children with
  | nil => exact paired_nil
  -- each child gives pairs: a text, or an item with what is behind it
  | cons child rest ih =>
    cases child with
    | text raw =>
      rw [pack]
      refine Paired.append ?_ ih
      split
      · exact ofText_paired ⟨translated, _⟩ raw
      · -- a blank text leaves an empty line, or nothing
        split
        · exact paired_cons.2 ⟨⟨rfl, by simp [isSeparator, isSolid, isEmpty]⟩, paired_nil⟩
        · exact paired_nil
    | item d unclosed =>
      rw [pack]
      -- an item is content, whether it is a word or a document
      have hcontent : (ofDoc d).isContent = true := by
        unfold ofDoc
        split
        · split <;> rfl
        · rfl
      exact paired_cons.2 ⟨⟨hcontent, isSeparator_behindItem _ _⟩, ih⟩

/-! ## What is solid -/

/-- A separator is not solid. -/
theorem isSolid_of_isSeparator (h : x.isSeparator translated = true) : x.isSolid = false := by
  simp_all [isSeparator]

/-- The solid parts of words are the words. -/
theorem filter_isSolid_words (words : List (List Char)) :
    ((words.map ChildPart.word).intersperse .gap).filter isSolid = words.map .word := by
  induction words with
  | nil => rfl
  | cons word words ih =>
    cases words with
    | nil => rfl
    | cons next words =>
      simp only [List.map_cons, List.intersperse_cons_cons] at ih ⊢
      rw [List.filter_cons_of_pos rfl, List.filter_cons_of_neg (by simp [isSolid]), ih]

/-- The words of a text stay. -/
theorem filter_isSolid_ofText (s : Surroundings) (raw : List Char) :
    (ofText s raw).filter isSolid = (markupWords raw).map .word := by
  -- white space at an edge is not solid
  have hleading : ∀ (white word : List Char),
      (if white.isEmpty then [] else [.empty, atEdge s white word]).filter isSolid = [] := by
    intro white word
    have hedge := isSolid_of_isSeparator (isSeparator_atEdge s word white)
    split
    · rfl
    · rw [List.filter_cons_of_neg (by simp [isSolid]), List.filter_cons_of_neg (by simp [hedge])]
      rfl
  unfold ofText
  dsimp only
  split
  · rename_i hlast
    rw [hleading, List.getLast?_eq_none_iff.1 hlast]
    rfl
  · -- the words between the edges are
    rename_i last hlast
    rw [List.filter_append, List.filter_append, hleading, filter_isSolid_words]
    split
    · simp [isSolid_of_isSeparator (isSeparator_tight s last)]
    · simp [isSolid_of_isSeparator (isSeparator_atEdge s last _)]

/-- The solid part of a child is the child, unless it is empty. -/
theorem filter_isSolid_ofDoc (d : Doc) (unclosed : Bool) :
    [ofDoc d].filter isSolid = (MarkupChild.item d unclosed).solids := by
  cases d with
  | text s =>
    by_cases hs : s = ""
    · subst hs
      rfl
    · have hof : ofDoc (.text s) = .item (.text s) := by simp [ofDoc, hs]
      rw [hof]
      simp [MarkupChild.solids, hs, isSolid]
  | _ => rfl

variable (translated) in
/-- What is solid are the words and the printed children, in order. -/
theorem filter_isSolid_pack (children : List MarkupChild) :
    (pack translated children).filter isSolid = children.flatMap MarkupChild.solids := by
  induction children with
  | nil => rfl
  | cons child rest ih =>
    -- a text gives its words, an item itself
    cases child with
    | text raw =>
      rw [pack, List.filter_append, ih, List.flatMap_cons, MarkupChild.solids]
      congr 1
      -- a text without words is left out
      by_cases hraw : isMeaningfulText raw = true
      · rw [if_pos hraw, filter_isSolid_ofText]
      · rw [if_neg hraw, markupWords_of_hidden (by simpa using hraw)]
        split <;> simp [isSolid]
    | item d unclosed =>
      rw [pack, List.filter_append, ih, List.flatMap_cons]
      -- what stands behind an item is not solid
      have hbehind : (behindItem translated (.item d unclosed) rest.head?).isSolid = false :=
        isSolid_of_isSeparator (isSeparator_behindItem _ _)
      have hpair : [ofDoc d, behindItem translated (.item d unclosed) rest.head?].filter isSolid =
          [ofDoc d].filter isSolid := by
        simp [List.filter_cons, hbehind]
      rw [hpair, filter_isSolid_ofDoc]

/-- A solid part that is packed is one of a child. -/
theorem mem_solids_of_mem_pack {children : List MarkupChild} (hx : x ∈ pack translated children)
    (hsolid : x.isSolid = true) : ∃ c ∈ children, x ∈ c.solids := by
  have hmem : x ∈ (pack translated children).filter isSolid := List.mem_filter.2 ⟨hx, hsolid⟩
  rwa [filter_isSolid_pack, List.mem_flatMap] at hmem

/-- What is solid shows, unless a printed child starts with a line break. -/
theorem pack_showing {children : List MarkupChild}
    (h : ∀ d unclosed, .item d unclosed ∈ children → d.isLineNext = false ∧ d ≠ .concat []) :
    Showing space (pack translated children) := by
  intro x hx hsolid
  obtain ⟨child, hchild, hmem⟩ := mem_solids_of_mem_pack hx hsolid
  -- a solid part is a word, or the document of an item
  cases child with
  | text raw =>
    obtain ⟨word, hword, rfl⟩ := List.mem_map.1 hmem
    have hne := ne_nil_of_mem_markupWords hword
    simp [isTrimmed, doc, Doc.isLineNext, Doc.firstLeafIsLine?, Doc.isEmpty, hne]
  -- a document that is not empty and starts with no line is not trimmed
  | item d unclosed =>
    obtain ⟨hline, hempty⟩ := h d unclosed hchild
    have hd : x = .item d ∧ d ≠ .text "" := by
      unfold MarkupChild.solids at hmem
      split at hmem <;> simp_all
    have hsome : d.isEmpty = false := by
      unfold Doc.isEmpty
      split <;> simp_all
    simp [hd.1, isTrimmed, doc, hline, hsome]

/-! ## Written parts -/

section Broken

variable (w : Whitespace) (parts : List ChildPart)

/-- As many parts are printed when the children are on lines of their own. -/
theorem length_broken : (broken w parts).length = parts.length := by
  simp [broken]

/-- Of all parts only white space is written in another way. -/
theorem getElem?_broken {i : Nat} (hi : parts[i]? = some x) (hx : x.isWhitespace = false) :
    (broken w parts)[i]? = some (x.doc w.doc) := by
  simp [broken, hi, brokenPart, hx]

end Broken

/-- White space does not stand where contents stand. -/
theorem isWhitespace_of_isContent (h : x.isContent = true) : x.isWhitespace = false := by
  cases x <;> simp_all [isContent, isSolid, isEmpty, isWhitespace]

/-! ## Contents -/

/-- The contents of an element are its words and its printed children, each of them once and in
order, in turn with separators.  Cleaning and trimming take out nothing else than empty contents and
separators and leave what stays at places of the same parity.  Writing out white space changes no
content. -/
theorem packed_inTurn (options : Options) (translated : Bool) (children : List MarkupChild)
    (h : ∀ d unclosed, .item d unclosed ∈ children → d.isLineNext = false ∧ d ≠ .concat []) :
    let w := Print.whitespace options
    let parts := pack translated children
    let kept := (Print.packed options translated children).1
    let written := broken w kept
    Paired translated parts ∧
      parts.filter isSolid = children.flatMap MarkupChild.solids ∧
      (∃ origin : Nat → Nat, (∀ i j, i < j → origin i < origin j) ∧
        ∀ i (x : ChildPart), kept[i]? = some x →
          parts[origin i]? = some x ∧ origin i % 2 = i % 2) ∧
      kept.filter isSolid = parts.filter isSolid ∧
      InTurn translated 0 kept ∧
      written.length = kept.length ∧
      (∀ i (x : ChildPart), kept[i]? = some x → i % 2 = 0 ∨ x.isWhitespace = false →
        written[i]? = some (x.doc w.doc)) ∧
      (children.any (·.isMeaningful) = true →
        (Print.packed options translated children).2 = .fill written) := by
  intro w parts kept written
  -- the parts are in pairs; three passes thin them, each by pairs or at the end
  have hpaired : Paired translated parts := pack_paired translated children
  have hclean : Thins parts (clean (children.any (·.isMeaningful)) parts) := clean_thins _ parts
  have hshowing : Showing w.doc parts := pack_showing h
  have hkept : Thins parts kept := hclean.trans (trim_thins (hshowing.of_sublist hclean.sublist))
  have hturn : InTurn translated 0 kept := hkept.inTurn hpaired.2
  refine ⟨hpaired, filter_isSolid_pack translated children, hkept.exists_origin,
    hkept.filter_isSolid, hturn, length_broken w kept, fun i x hx hplain => ?_, fun htext => ?_⟩
  · -- content is no white space, and no other part is written in another way
    have hspace : x.isWhitespace = false := by
      rcases hplain with heven | hspace
      · have hcontent := hturn i x hx
        rw [Nat.zero_add, fitsAt, if_pos heven] at hcontent
        exact isWhitespace_of_isContent hcontent
      · exact hspace
    exact getElem?_broken w kept hx hspace
  · exact if_pos htext

/-- Words, a tag behind white space, white space alone, an expression, and an empty line. -/
theorem packed_inTurn_five :
    let children : List MarkupChild := [.text ['\n', 'o', 'n', 'e', ' ', 't', 'w', 'o', ' '],
      .item (.text "<b />") true, .text [' '], .item (.grouped (.text "\x7bx\x7d")) false,
      .text ['\n', '\n']]
    (∀ d unclosed, .item d unclosed ∈ children → d.isLineNext = false ∧ d ≠ .concat []) ∧
      (Print.packed {} false children).1.filter isSolid = [.word ['o', 'n', 'e'],
        .word ['t', 'w', 'o'], .item (.text "<b />"), .item (.grouped (.text "\x7bx\x7d"))] := by
  intro children
  -- neither item starts with a line
  have hitems : ∀ d unclosed, .item d unclosed ∈ children →
      d.isLineNext = false ∧ d ≠ .concat [] := by
    intro d unclosed hd
    simp only [children, List.mem_cons, reduceCtorEq, MarkupChild.item.injEq, List.not_mem_nil,
      false_or, or_false] at hd
    rcases hd with ⟨rfl, -⟩ | ⟨rfl, -⟩
    · exact ⟨rfl, nofun⟩
    · exact ⟨rfl, nofun⟩
  obtain ⟨-, hsolid, -, hkept, -⟩ := packed_inTurn {} false children hitems
  exact ⟨hitems, hkept.trans (hsolid.trans rfl)⟩

end Children

end Reflow
