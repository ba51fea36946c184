import Mathlib.Data.List.Perm.Basic
import Reflow.Proofs.Doc.Pieces
import Reflow.Proofs.Embed.Marker
import Reflow.Proofs.Text.Ranges

/-!
# Expressions are spliced exactly

`Filled m expression d numerals r` says what it is for `r` to be the document `d` with the placeholders of
its texts replaced by expressions; the numerals are those of the placeholders, in the order of the
texts.  It says nothing about how placeholders are found or in which order parts are rebuilt.

Splicing gives that document if the numbers of the placeholders are the first ones, each once.  Else it
reports a mismatch, unless there is a number that has too many digits to be read or to be told.

## Key results

- `filled_iff`: a document is filled in one way
- `splice_exact`: when splicing succeeds and what it gives
- `splice_unreadable`: a number with too many digits
-/

namespace Reflow.Embed

variable {m : Marker} {c : Char} {expression : Nat → Doc} {language : Language}

/-- What stands in the place of a placeholder: an expression in braces behind a dollar sign. -/
def hole (expression : Doc) : Doc := .cat ["$\x7b", expression, "\x7d"]

mutual
/-- The last document is the first one with the placeholders in its texts replaced by the expressions of
their numbers.  Texts without placeholders stay, and so does the structure, but for empty parts of
sequences; all shapes of a group are filled. -/
inductive Filled (m : Marker) (expression : Nat → Doc) : Doc → List (List Char) → Doc → Prop
  | text (s : String) (h : m.Free s.toList) : Filled m expression (.text s) [] (.text s)
  /-- The texts around placeholders and the expressions follow each other. -/
  | holes (s : String) {first : List Char} {more : List (List Char × List Char)}
    (h : m.Reads s.toList first more) (hmore : more ≠ []) :
    Filled m expression (.text s) (more.map (·.1)) (.cat (.text (String.ofList first) ::
      more.flatMap fun p =>
        [hole (expression (Text.decimalNumber p.1)), .text (String.ofList p.2)]))
  | line (kind : LineKind) : Filled m expression (.line kind) [] (.line kind)
  | breakParent : Filled m expression .breakParent [] .breakParent
  | suffixBoundary : Filled m expression .suffixBoundary [] .suffixBoundary
  | cursor : Filled m expression .cursor [] .cursor
  | concat {parts rs : List Doc} {ns : List (List Char)} (h : FilledAll m expression parts ns rs) :
    Filled m expression (.concat parts) ns (.cat rs)
  | fill {parts rs : List Doc} {ns : List (List Char)} (h : FilledAll m expression parts ns rs) :
    Filled m expression (.fill parts) ns (.fill rs)
  | indent {body r : Doc} {ns : List (List Char)} (h : Filled m expression body ns r) :
    Filled m expression (.indent body) ns (.indent r)
  | align (amount : Alignment) {body r : Doc} {ns : List (List Char)}
    (h : Filled m expression body ns r) : Filled m expression (.align amount body) ns (.align amount r)
  | group (broken : Bool) {body r : Doc} {ns : List (List Char)} (h : Filled m expression body ns r) :
    Filled m expression (.group body broken) ns (.group r broken)
  | lineSuffix {body r : Doc} {ns : List (List Char)} (h : Filled m expression body ns r) :
    Filled m expression (.lineSuffix body) ns (.lineSuffix r)
  | alternatives (broken : Bool) {first r : Doc} {others rs : List Doc} {ns ks : List (List Char)}
    (hfirst : Filled m expression first ns r) (hothers : FilledAll m expression others ks rs) :
    Filled m expression (.alternatives first others broken) (ns ++ ks) (.alternatives r rs broken)
  | ifBreak {broken flat r r' : Doc} {ns ks : List (List Char)}
    (hbroken : Filled m expression broken ns r) (hflat : Filled m expression flat ks r') :
    Filled m expression (.ifBreak broken flat) (ns ++ ks) (.ifBreak r r')

/-- `Filled` for the documents of two lists. -/
inductive FilledAll (m : Marker) (expression : Nat → Doc) :
    List Doc → List (List Char) → List Doc → Prop
  | nil : FilledAll m expression [] [] []
  | cons {d r : Doc} {parts rs : List Doc} {ns ks : List (List Char)}
    (h : Filled m expression d ns r) (hs : FilledAll m expression parts ks rs) :
    FilledAll m expression (d :: parts) (ns ++ ks) (r :: rs)
end

/-! ## Filling a document -/

/-- The numerals of the placeholders in the texts of a document, in order. -/
def numeralsIn (m : Marker) (d : Doc) : List (List Char) :=
  (textsOf .all d).flatMap m.placeholders

/-- The numerals of the placeholders in several documents. -/
def numeralsInAll (m : Marker) (parts : List Doc) : List (List Char) :=
  (textsOfAll .all parts).flatMap m.placeholders

section Rebuilding

variable (f : String → Doc)

@[simp] theorem mapTexts_text (s : String) : (Doc.text s).mapTexts f = f s := by
  simp [Doc.mapTexts, Doc.mapBottomUp]

@[simp] theorem mapTexts_concat (parts : List Doc) :
    (Doc.concat parts).mapTexts f = .cat (parts.map (·.mapTexts f)) := by
  simp [Doc.mapTexts, Doc.mapBottomUp, Doc.mapAll_eq, Doc.cat]

@[simp] theorem mapTexts_fill (parts : List Doc) :
    (Doc.fill parts).mapTexts f = .fill (parts.map (·.mapTexts f)) := by
  simp [Doc.mapTexts, Doc.mapBottomUp, Doc.mapAll_eq]

@[simp] theorem mapTexts_alternatives (first : Doc) (others : List Doc) (broken : Bool) :
    (Doc.alternatives first others broken).mapTexts f =
      .alternatives (first.mapTexts f) (others.map (·.mapTexts f)) broken := by
  simp [Doc.mapTexts, Doc.mapBottomUp, Doc.mapAll_eq]

end Rebuilding

/-- A text is filled as it is replaced. -/
theorem filled_text (hm : m.StartsWith c) (s : String) :
    Filled m expression (.text s) (m.placeholders s) (m.replace expression s) := by
  -- the text is cut as it reads
  have hreads := hm.reads_cut s.toList
  rw [Marker.placeholders, Marker.replace]
  rcases hcut : m.cut 0 s.toList with ⟨first, more⟩
  rw [hcut] at hreads
  -- without a placeholder the text stays
  cases more with
  | nil =>
    refine .text s ?_
    rw [hreads.text, Marker.written_nil, List.append_nil]
    exact hreads.first
  -- with one it becomes the texts with what fills the places
  | cons p more =>
    have hmore : p :: more ≠ [] := List.cons_ne_nil _ _
    exact .holes s hreads hmore

mutual
/-- Replacing the placeholders in all texts fills a document. -/
theorem filled_mapTexts (hm : m.StartsWith c) (d : Doc) :
    Filled m expression d (numeralsIn m d) (d.mapTexts (m.replace expression)) := by
  -- by recursion on the document
  match d with
  | .text s =>
    rw [mapTexts_text, numeralsIn, textsOf, List.flatMap_singleton]
    exact filled_text hm s
  | .line kind => exact .line kind
  | .breakParent => exact .breakParent
  | .suffixBoundary => exact .suffixBoundary
  | .cursor => exact .cursor
  | .concat parts =>
    rw [mapTexts_concat]
    exact .concat (filledAll_mapTexts hm parts)
  | .fill parts =>
    rw [mapTexts_fill]
    exact .fill (filledAll_mapTexts hm parts)
  | .indent body => exact .indent (filled_mapTexts hm body)
  | .align amount body => exact .align amount (filled_mapTexts hm body)
  | .group body broken => exact .group broken (filled_mapTexts hm body)
  | .lineSuffix body => exact .lineSuffix (filled_mapTexts hm body)
  -- all shapes of a choice are filled
  | .alternatives first others broken =>
    rw [mapTexts_alternatives, numeralsIn, textsOf, if_pos rfl, List.flatMap_append]
    exact .alternatives broken (filled_mapTexts hm first) (filledAll_mapTexts hm others)
  | .ifBreak broken flat =>
    rw [numeralsIn, textsOf, List.flatMap_append]
    exact .ifBreak (filled_mapTexts hm broken) (filled_mapTexts hm flat)

/-- Replacing the placeholders in all texts fills several documents. -/
theorem filledAll_mapTexts (hm : m.StartsWith c) (parts : List Doc) :
    FilledAll m expression parts (numeralsInAll m parts)
      (parts.map (·.mapTexts (m.replace expression))) := by
  match parts with
  | [] => exact .nil
  | d :: parts =>
    rw [numeralsInAll, textsOfAll, List.flatMap_append]
    exact .cons (filled_mapTexts hm d) (filledAll_mapTexts hm parts)
end

mutual
/-- There is no other way to fill a document. -/
theorem Filled.unique (hm : m.StartsWith c) {d r : Doc} {ns : List (List Char)}
    (h : Filled m expression d ns r) :
    ns = numeralsIn m d ∧ r = d.mapTexts (m.replace expression) := by
  -- by cases on how the document was filled, each of which its form determines
  match h with
  | .text s hfree =>
    -- the text is free of placeholders, so that the cut finds none
    have hreads : m.Reads s.toList s.toList [] := ⟨by simp, hfree, by simp⟩
    rw [mapTexts_text, numeralsIn, textsOf, List.flatMap_singleton, Marker.placeholders,
      Marker.replace, hm.cut_of_reads hreads]
    exact ⟨rfl, rfl⟩
  -- the text reads in one way alone
  | .holes s hreads hmore =>
    rw [mapTexts_text, numeralsIn, textsOf, List.flatMap_singleton, Marker.placeholders,
      Marker.replace, hm.cut_of_reads hreads]
    simp only [List.isEmpty_iff, hmore, if_false]
    exact ⟨trivial, rfl⟩
  | .line _ | .breakParent | .suffixBoundary | .cursor => exact ⟨rfl, rfl⟩
  | .concat hparts =>
    obtain ⟨rfl, rfl⟩ := FilledAll.unique hm hparts
    exact ⟨rfl, (mapTexts_concat ..).symm⟩
  | .fill hparts =>
    obtain ⟨rfl, rfl⟩ := FilledAll.unique hm hparts
    exact ⟨rfl, (mapTexts_fill ..).symm⟩
  | .indent hbody | .align _ hbody | .group _ hbody | .lineSuffix hbody =>
    obtain ⟨rfl, rfl⟩ := Filled.unique hm hbody
    exact ⟨rfl, rfl⟩
  -- the numerals of the shapes come one after the other
  | .alternatives _ hfirst hothers =>
    obtain ⟨rfl, rfl⟩ := Filled.unique hm hfirst
    obtain ⟨rfl, rfl⟩ := FilledAll.unique hm hothers
    rw [mapTexts_alternatives, numeralsIn, numeralsIn, textsOf, if_pos rfl, List.flatMap_append]
    exact ⟨rfl, rfl⟩
  | .ifBreak hbroken hflat =>
    obtain ⟨rfl, rfl⟩ := Filled.unique hm hbroken
    obtain ⟨rfl, rfl⟩ := Filled.unique hm hflat
    rw [numeralsIn, numeralsIn, numeralsIn, textsOf, List.flatMap_append]
    exact ⟨rfl, rfl⟩

/-- There is no other way to fill several documents. -/
theorem FilledAll.unique (hm : m.StartsWith c) {parts rs : List Doc} {ns : List (List Char)}
    (h : FilledAll m expression parts ns rs) :
    ns = numeralsInAll m parts ∧ rs = parts.map (·.mapTexts (m.replace expression)) := by
  match h with
  | .nil => exact ⟨rfl, rfl⟩
  | .cons hd hparts =>
    obtain ⟨rfl, rfl⟩ := Filled.unique hm hd
    obtain ⟨rfl, rfl⟩ := FilledAll.unique hm hparts
    rw [numeralsInAll, numeralsInAll, textsOfAll, List.flatMap_append]
    exact ⟨rfl, rfl⟩
end

/-- A document is filled in one way. -/
theorem filled_iff (hm : m.StartsWith c) {d r : Doc} {ns : List (List Char)} :
    Filled m expression d ns r ↔
      ns = numeralsIn m d ∧ r = d.mapTexts (m.replace expression) := by
  constructor
  · exact fun h => h.unique hm
  · rintro ⟨rfl, rfl⟩
    exact filled_mapTexts hm d

/-! ## The numbers -/

/-- The number of a numeral is too long to be read, or to be told with one added to it. -/
def IsTooLong (numeral : List Char) : Prop :=
  Decimal.maxDigits < numeral.length ∨
    Decimal.isWritable (Text.decimalNumber numeral + 1) = false

/-- A numeral stands for an expression when it is short enough to be read and below the count. -/
theorem placeholderNumber_eq_ok {count n : Nat} {numeral : List Char} :
    placeholderNumber language count numeral = .ok n ↔
      numeral.length ≤ Decimal.maxDigits ∧ n < count ∧ n = Text.decimalNumber numeral := by
  unfold placeholderNumber Decimal.whole
  -- the numeral is too long to be read
  by_cases hlength : Decimal.maxDigits < numeral.length
  · have : ¬numeral.length ≤ Decimal.maxDigits := by omega
    simp [hlength, this, Except.mapError, bind, Except.bind]
  · have hle : numeral.length ≤ Decimal.maxDigits := by omega
    -- the number is that of an expression
    by_cases hn : Text.decimalNumber numeral < count
    · simp only [hlength, if_false, Except.mapError, bind, Except.bind, hn, if_true, pure,
        Except.pure, Except.ok.injEq, hle, true_and]
      omega
    · simp only [hlength, if_false, Except.mapError, bind, Except.bind, hn, hle, true_and]
      have : ¬(n < count ∧ n = Text.decimalNumber numeral) := by omega
      -- the fault writes the number, if it can be written
      by_cases hw : Decimal.isWritable (Text.decimalNumber numeral + 1) = true
      · simp [hw, this, throw, throwThe, MonadExceptOf.throw]
      · simp [hw, this, throw, throwThe, MonadExceptOf.throw]

/-- A number that is not taken is a mismatch, if it is not too long. -/
theorem placeholderNumber_error {count : Nat} {numeral : List Char} {e : SpliceFault}
    (h : placeholderNumber language count numeral = .error e) :
    (∃ found, e = .mismatch found) ∨ e = .limit .digits ∧ IsTooLong numeral := by
  unfold placeholderNumber Decimal.whole at h
  -- too long to be read, too large, or too large even to be written
  by_cases hlength : Decimal.maxDigits < numeral.length
  · simp only [hlength, if_true, Except.mapError, bind, Except.bind, Except.error.injEq] at h
    exact .inr ⟨h.symm, .inl hlength⟩
  · simp only [hlength, if_false, Except.mapError, bind, Except.bind, pure, Except.pure] at h
    split at h
    · cases h
    split at h
    · cases h
      exact .inl ⟨_, rfl⟩
    · rename_i hw
      cases h
      exact .inr ⟨rfl, .inr (Bool.eq_false_iff.2 hw)⟩

section Taking

variable {α β ε : Type} {f : α → Except ε β}

/-- Everything is taken if each item is. -/
theorem mapM_eq_ok_iff {g : α → β} {P : α → Prop} (hf : ∀ a b, f a = .ok b ↔ P a ∧ b = g a)
    {l : List α} {bs : List β} : l.mapM f = .ok bs ↔ (∀ a ∈ l, P a) ∧ bs = l.map g := by
  -- induction on the list, whose first element fails or not
  induction l generalizing bs with
  | nil => simp [pure, Except.pure, eq_comm]
  | cons a l ih =>
    rw [List.mapM_cons, List.forall_mem_cons, List.map_cons]
    cases ha : f a with
    -- the first element fails, and so does not have the property
    | error e =>
      have hnot : ¬P a := fun hP => by
        rw [(hf a (g a)).2 ⟨hP, rfl⟩] at ha
        cases ha
      simp [bind, Except.bind, hnot]
    | ok b =>
      obtain ⟨hP, rfl⟩ := (hf a b).1 ha
      cases hl : l.mapM f with
      -- an element behind it fails
      | error e =>
        have hnot : ¬∀ a ∈ l, P a := fun hall => by
          rw [ih.2 ⟨hall, rfl⟩] at hl
          cases hl
        simp [bind, Except.bind, hnot]
      | ok cs =>
        obtain ⟨hall, rfl⟩ := ih.1 hl
        simpa [bind, Except.bind, pure, Except.pure, hP, eq_comm] using fun _ => hall

/-- If not, there is an item that is not taken. -/
theorem mapM_error {l : List α} {e : ε} (h : l.mapM f = .error e) : ∃ a ∈ l, f a = .error e := by
  -- induction on the list, whose first fault is the fault
  induction l with
  | nil => cases h
  | cons a l ih =>
    rw [List.mapM_cons] at h
    cases ha : f a with
    | error e' =>
      rw [ha] at h
      cases h
      exact ⟨a, List.mem_cons_self, ha⟩
    | ok b =>
      cases hl : l.mapM f with
      | error e' =>
        rw [ha, hl] at h
        cases h
        obtain ⟨x, hx, hfx⟩ := ih hl
        exact ⟨x, List.mem_cons_of_mem _ hx, hfx⟩
      | ok bs =>
        rw [ha, hl] at h
        cases h

end Taking

/-- Sorting shows whether numbers are the first ones. -/
theorem isPermutationOfRange_iff {numbers : List Nat} {n : Nat} :
    isPermutationOfRange numbers n = true ↔ numbers.Perm (List.range n) := by
  have hperm : (numbers.mergeSort (· ≤ ·)).Perm numbers := List.mergeSort_perm ..
  rw [isPermutationOfRange, beq_iff_eq]
  constructor
  · -- sorted, the numbers are those of the range
    intro h
    rw [← h]
    exact hperm.symm
  · -- a permutation of the range becomes the range when it is sorted
    intro h
    have hsorted : (numbers.mergeSort (· ≤ ·)).Pairwise (· ≤ ·) := by
      have htests : (numbers.mergeSort (· ≤ ·)).Pairwise fun a b => decide (a ≤ b) = true :=
        List.pairwise_mergeSort (by simp only [decide_eq_true_eq]; omega)
          (by simp only [Bool.or_eq_true, decide_eq_true_eq]; omega) numbers
      exact htests.imp of_decide_eq_true
    have hrange : (List.range n).Pairwise (· ≤ ·) :=
      List.pairwise_lt_range.imp Nat.le_of_lt
    exact (hperm.trans h).eq_of_pairwise (fun _ _ _ _ => Nat.le_antisymm) hsorted hrange

/-! ## Splicing -/

/-- The numerals of a document as they are visited: text by text, from the last one to the first. -/
theorem placeholdersOf_perm (d : Doc) : (placeholdersOf m .all d).Perm (numeralsIn m d) :=
  (List.reverse_perm _).flatMap_right _

/-- Splicing succeeds with all placeholders replaced, if their numbers can be read and are the first
ones, each once. -/
theorem splice_eq_ok {wrap : Doc → Doc} {expressions : List Doc} {d r : Doc} :
    splice m language .all wrap expressions d = .ok r ↔
      (∀ n ∈ numeralsIn m d, n.length ≤ Decimal.maxDigits) ∧
      ((numeralsIn m d).map Text.decimalNumber).Perm (List.range expressions.length) ∧
      r = d.mapTexts (m.replace fun n => wrap (expressions.getD n .empty)) := by
  have hperm := placeholdersOf_perm (m := m) d
  -- the numbers are read, and each is below the count
  have htaken (ns : List Nat) :
      (placeholdersOf m .all d).mapM (placeholderNumber language expressions.length) = .ok ns ↔
        (∀ n ∈ placeholdersOf m .all d, n.length ≤ Decimal.maxDigits ∧
          Text.decimalNumber n < expressions.length) ∧
        ns = (placeholdersOf m .all d).map Text.decimalNumber := by
    apply mapM_eq_ok_iff
    -- the order of the conjunction is all that differs
    intro n k
    rw [placeholderNumber_eq_ok, and_assoc]
    refine and_congr_right fun _ => ?_
    constructor
    · rintro ⟨h, rfl⟩
      exact ⟨h, rfl⟩
    · rintro ⟨h, rfl⟩
      exact ⟨h, rfl⟩
  rw [splice]
  -- a number cannot be read, or all of them are
  cases hmapM : (placeholdersOf m .all d).mapM
      (placeholderNumber language expressions.length) with
  | error e =>
    simp only [bind, Except.bind, reduceCtorEq, false_iff]
    rintro ⟨hshort, hnumbers, -⟩
    -- numbers that are the first ones are below their count
    have hall := (htaken _).2 ⟨fun n hn => ?_, rfl⟩
    · rw [hall] at hmapM
      cases hmapM
    · have hn := hperm.mem_iff.1 hn
      exact ⟨hshort n hn, List.mem_range.1 (hnumbers.mem_iff.1 (List.mem_map_of_mem hn))⟩
  -- the numbers are read, and what is asked is whether they are the first ones
  | ok ns =>
    obtain ⟨hall, rfl⟩ := (htaken ns).1 hmapM
    have hshort : ∀ n ∈ numeralsIn m d, n.length ≤ Decimal.maxDigits :=
      fun n hn => (hall n (hperm.mem_iff.2 hn)).1
    have hrange : isPermutationOfRange ((placeholdersOf m .all d).map Text.decimalNumber)
        expressions.length = true ↔
        ((numeralsIn m d).map Text.decimalNumber).Perm (List.range expressions.length) := by
      rw [isPermutationOfRange_iff]
      exact ⟨(hperm.map _).symm.trans, (hperm.map _).trans⟩
    simp only [bind, Except.bind]
    split
    · rename_i h
      simp only [pure, Except.pure, Except.ok.injEq]
      exact ⟨fun hr => ⟨hshort, hrange.1 h, hr.symm⟩, fun hr => hr.2.2.symm⟩
    · rename_i h
      simp only [throw, throwThe, MonadExceptOf.throw, reduceCtorEq, false_iff]
      exact fun hr => h (hrange.2 hr.2.1)

/-- Splicing that does not succeed reports a mismatch, or comes to a number that is too long. -/
theorem splice_error {wrap : Doc → Doc} {expressions : List Doc} {d : Doc} {e : SpliceFault}
    (h : splice m language .all wrap expressions d = .error e) :
    (∃ found, e = .mismatch found) ∨ e = .limit .digits ∧ ∃ n ∈ numeralsIn m d, IsTooLong n := by
  rw [splice] at h
  -- the fault is that of a number, or the numbers are not the first ones
  cases hmapM : (placeholdersOf m .all d).mapM
      (placeholderNumber language expressions.length) with
  | error e' =>
    simp only [hmapM, bind, Except.bind, Except.error.injEq] at h
    subst h
    obtain ⟨n, hn, hnumber⟩ := mapM_error hmapM
    rcases placeholderNumber_error hnumber with hfound | ⟨hlimit, hlong⟩
    · exact .inl hfound
    · exact .inr ⟨hlimit, n, (placeholdersOf_perm d).mem_iff.1 hn, hlong⟩
  | ok ns =>
    simp only [hmapM, bind, Except.bind] at h
    split at h
    · cases h
    · cases h
      exact .inl ⟨_, rfl⟩

/-- A document is filled in one way only, and splicing fills it exactly if all numbers can be read and
they are the first ones, as many as there are expressions, each once.  In any other case there is a
mismatch, or a number that is too long. -/
theorem splice_exact (hm : m = .css ∨ m = .html) (language : Language) (wrap : Doc → Doc)
    (expressions : List Doc) (d : Doc) :
    ∃ numerals r,
      (∀ numerals' r', Filled m (fun n => wrap (expressions.getD n .empty)) d numerals' r' ↔
        numerals' = numerals ∧ r' = r) ∧
      (∀ r', splice m language .all wrap expressions d = .ok r' ↔
        (∀ n ∈ numerals, n.length ≤ Decimal.maxDigits) ∧
        (numerals.map Text.decimalNumber).Perm (List.range expressions.length) ∧ r' = r) ∧
      ∀ e, splice m language .all wrap expressions d = .error e →
        (∃ found, e = .mismatch found) ∨ e = .limit .digits ∧ ∃ n ∈ numerals, IsTooLong n := by
  -- both placeholders start with a character that is in neither numeral nor closing
  obtain ⟨c, hm⟩ : ∃ c, m.StartsWith c := by
    rcases hm with rfl | rfl
    · exact ⟨_, Marker.css_startsWith⟩
    · exact ⟨_, Marker.html_startsWith⟩
  exact ⟨_, _, fun _ _ => filled_iff hm, fun _ => splice_eq_ok, fun _ => splice_error⟩

/-- Two placeholders that stand in another order than their numbers, one with a zero in front. -/
theorem splice_exact_html :
    let expressions : List Doc := [.text "x", .line .soft]
    let d : Doc := .concat [.text "a VXFMT_HTML_PLACEHOLDER_1_IN_JS",
      .group (.text "VXFMT_HTML_PLACEHOLDER_00_IN_JS b") false]
    (Marker.html = .css ∨ Marker.html = .html) ∧
      (numeralsIn .html d).map Text.decimalNumber = [1, 0] ∧
      ∃ numerals r,
        (∀ numerals' r',
          Filled .html (fun n => Doc.grouped (expressions.getD n .empty)) d numerals' r' ↔
            numerals' = numerals ∧ r' = r) ∧
        (∀ r', splice .html .html .all Doc.grouped expressions d = .ok r' ↔
          (∀ n ∈ numerals, n.length ≤ Decimal.maxDigits) ∧
          (numerals.map Text.decimalNumber).Perm (List.range expressions.length) ∧ r' = r) ∧
        ∀ e, splice .html .html .all Doc.grouped expressions d = .error e →
          (∃ found, e = .mismatch found) ∨ e = .limit .digits ∧ ∃ n ∈ numerals, IsTooLong n :=
  ⟨.inr rfl, by decide +kernel, splice_exact (.inr rfl) .html Doc.grouped _ _⟩

/-- A placeholder with 4301 zeros: its number is the first one, but it cannot be read, and there is no
mismatch either. -/
theorem splice_unreadable :
    let numeral := List.replicate (Decimal.maxDigits + 1) '0'
    let d : Doc := .text (String.ofList (Marker.css.placeholder numeral))
    (∃ r, Filled .css (fun n => [Doc.text "x"].getD n .empty) d [numeral] r) ∧
      ([numeral].map Text.decimalNumber).Perm (List.range 1) ∧
      splice .css .css .all id [.text "x"] d = .error (.limit .digits) := by
  intro numeral d
  -- the numeral is as long as no number may be
  have hnumeral : IsNumeral numeral := by
    constructor
    · exact List.ne_nil_of_length_pos (by rw [List.length_replicate]; exact Nat.succ_pos _)
    · rw [List.all_replicate]
      decide
  have hfree : Marker.css.Free [] := fun digits _ hwithin => by
    rw [List.infix_nil, Marker.css_startsWith.placeholder_eq] at hwithin
    cases hwithin
  -- the text is the placeholder and nothing else
  have hreads : Marker.css.Reads (String.ofList (Marker.css.placeholder numeral)).toList []
      [(numeral, [])] := ⟨by simp, hfree, by simp [hnumeral, hfree]⟩
  have hfilled : ∃ r, Filled .css (fun n => [Doc.text "x"].getD n .empty) d [numeral] r :=
    ⟨_, .holes _ hreads (List.cons_ne_nil _ _)⟩
  -- the number it stands for is zero
  have hzero : Text.decimalNumber numeral = 0 :=
    Text.decimalNumber_zeros fun c hc => (List.mem_replicate.1 hc).2
  refine ⟨hfilled, ?_, ?_⟩
  · rw [List.map_singleton, hzero]
    exact .refl _
  · -- the placeholder is the one of the document
    have hplaceholders : placeholdersOf .css .all d = [numeral] := by
      obtain ⟨r, hr⟩ := hfilled
      have := placeholdersOf_perm (m := .css) d
      rw [← ((filled_iff Marker.css_startsWith).1 hr).1] at this
      exact List.perm_singleton.1 this
    have hlong : Decimal.maxDigits < numeral.length := by
      rw [List.length_replicate]
      exact Nat.lt_succ_self _
    rw [splice, hplaceholders]
    simp [placeholderNumber, Decimal.whole, hlong, Except.mapError, bind, Except.bind]

end Reflow.Embed
