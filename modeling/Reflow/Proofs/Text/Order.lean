import Mathlib.Data.List.Basic
import Reflow.Text.Trim

/-!
# Texts that stand in order

Texts stand in a longer one in order if they are found there one behind the other, without sharing
characters.  They stay in order where blanks are dropped at the ends of lines: such a text differs from
another one by the blanks in front of line feeds.

## Key results

- `InOrder`: texts stand in a text, one behind the other
- `InOrder.append`: texts in order, put together
- `InOrder.of_append_blanks`: the order stays without the blanks at the end
- `kept_of_blanks`: what is kept if only blanks are dropped
- `Padded.split`: where texts that differ by such blanks come to the blanks at their ends
-/

namespace Reflow.Text

/-- The texts stand in the text, one behind the other and apart. -/
inductive InOrder : List (List Char) → List Char → Prop
  | nil (cs : List Char) : InOrder [] cs
  | cons (gap t : List Char) {ts : List (List Char)} {cs : List Char} (h : InOrder ts cs) :
    InOrder (t :: ts) (gap ++ (t ++ cs))

/-- A text that ends in a character which is not dropped at the end of a line. -/
def EndsSolid (t : List Char) : Prop := ∃ front c, t = front ++ [c] ∧ isBlank c = false

variable {as bs ts : List (List Char)} {a b cs blanks t : List Char}

/-- A text whose last character is not among those at the end is not cut by them. -/
theorem eq_append_of_not_mem {front rest : List Char} {c : Char} (hc : c ∉ b)
    (h : a ++ b = (front ++ [c]) ++ rest) : ∃ middle, a = (front ++ [c]) ++ middle ∧
      rest = middle ++ b := by
  rcases List.append_eq_append_iff.1 h with ⟨m, hm, hb⟩ | ⟨m, hm, hrest⟩
  · rcases List.eq_nil_or_concat m with rfl | ⟨m, d, rfl⟩
    · exact ⟨[], by simpa using hm.symm, by simpa using hb.symm⟩
    · have hlast : c = d := by simpa [← List.append_assoc] using congrArg List.getLast? hm
      exact absurd (by rw [hb, hlast]; simp) hc
  · exact ⟨m, hm, hrest⟩

namespace InOrder

/-- More may stand in front. -/
theorem front (a : List Char) (h : InOrder ts cs) : InOrder ts (a ++ cs) := by
  cases h with
  | nil => exact .nil _
  | cons gap t h =>
    rw [← List.append_assoc]
    exact .cons (a ++ gap) t h

/-- Texts that stand in order may be put one behind the other. -/
theorem append (ha : InOrder as a) (hb : InOrder bs b) : InOrder (as ++ bs) (a ++ b) := by
  induction ha with
  | nil cs => exact hb.front cs
  | cons gap t h ih =>
    rw [List.append_assoc, List.append_assoc]
    exact .cons gap t ih

/-- More may stand behind. -/
theorem back (h : InOrder ts cs) (b : List Char) : InOrder ts (cs ++ b) := by
  simpa using h.append (.nil b)

/-- What stands in a part of a text stands in the text. -/
theorem of_within (h : InOrder ts a) (hwithin : a <:+: b) : InOrder ts b := by
  obtain ⟨front, back, rfl⟩ := hwithin
  exact (h.front front).back back

/-- Each of the texts stands in the whole. -/
theorem infix_of_mem (h : InOrder ts cs) (ht : t ∈ ts) : t <:+: cs := by
  induction h with
  | nil => cases ht
  | @cons gap u ts cs h ih =>
    rcases List.mem_cons.1 ht with rfl | ht
    · exact ⟨gap, cs, List.append_assoc ..⟩
    · exact (ih ht).trans ((List.suffix_append _ _).trans (List.suffix_append _ _)).isInfix

/-- Texts stay when characters are dropped at the end that none of them ends in. -/
theorem of_append (hts : ∀ t ∈ ts, ∃ front c, t = front ++ [c] ∧ c ∉ b)
    (h : InOrder ts (cs ++ b)) : InOrder ts cs := by
  generalize hwhole : cs ++ b = whole at h
  induction h generalizing cs with
  | nil => exact .nil cs
  | @cons gap t ts rest h ih =>
    obtain ⟨front, c, rfl, hc⟩ := hts t List.mem_cons_self
    have hsplit : cs ++ b = (gap ++ front ++ [c]) ++ rest := by simpa using hwhole
    obtain ⟨middle, rfl, hrest⟩ := eq_append_of_not_mem hc hsplit
    rw [List.append_assoc, List.append_assoc, ← List.append_assoc front]
    exact .cons gap _ (ih (fun u hu => hts u (List.mem_cons_of_mem _ hu)) hrest.symm)

/-- Texts stay when characters are dropped in front that none of them starts with. -/
theorem of_front (hts : ∀ t ∈ ts, ∃ c back, t = c :: back ∧ c ∉ a) (h : InOrder ts (a ++ cs)) :
    InOrder ts cs := by
  generalize hwhole : a ++ cs = whole at h
  -- the first text starts in the front or behind it
  cases h with
  | nil => exact .nil cs
  | @cons gap t ts rest h =>
    rcases List.append_eq_append_iff.1 hwhole with ⟨m, rfl, rfl⟩ | ⟨m, rfl, hrest⟩
    · -- its first character is not in the front, so that it does not start there
      exact .cons m t h
    · obtain ⟨c, back, rfl, hc⟩ := hts t List.mem_cons_self
      cases m with
      | nil =>
        rw [List.nil_append] at hrest
        rw [← hrest]
        exact .cons [] _ h
      -- the text would start in the front
      | cons d m =>
        obtain rfl : c = d := (List.cons.inj hrest).1
        exact absurd (List.mem_append_right gap List.mem_cons_self) hc

/-- Texts that end in no blank stay when blanks are dropped at the end. -/
theorem of_append_blanks (hts : ∀ t ∈ ts, EndsSolid t)
    (hblanks : ∀ c ∈ blanks, isBlank c = true) (h : InOrder ts (cs ++ blanks)) :
    InOrder ts cs := by
  refine h.of_append fun t ht => ?_
  obtain ⟨front, c, rfl, hc⟩ := hts t ht
  exact ⟨front, c, rfl, fun hmem => Bool.false_ne_true (hc.symm.trans (hblanks c hmem))⟩

/-- In an empty text there are none that are not blank. -/
theorem eq_nil_of_empty (hts : ∀ t ∈ ts, EndsSolid t) (h : InOrder ts []) : ts = [] := by
  cases ts with
  | nil => rfl
  | cons t ts =>
    obtain ⟨front, c, rfl, -⟩ := hts t List.mem_cons_self
    have hinfix := List.infix_nil.1 (h.infix_of_mem List.mem_cons_self)
    exact absurd hinfix (by simp)

end InOrder

/-! ## Blanks in front of line feeds -/

/-- Does a text end in a blank? -/
def endsBlank (cs : List Char) : Bool := cs.getLast?.any isBlank

/-- The first text is the second one with blanks put in front of some line feeds. -/
inductive Padded : List Char → List Char → Prop
  | nil : Padded [] []
  | cons (c : Char) {a b : List Char} (h : Padded a b) : Padded (c :: a) (c :: b)
  | lineFeed {blanks a b : List Char} (hblanks : ∀ c ∈ blanks, isBlank c = true)
    (h : Padded a b) : Padded (blanks ++ '\n' :: a) ('\n' :: b)

/-- Blanks that are put behind a text make it end blank. -/
theorem endsBlank_append {blanks : List Char} (h : ∀ c ∈ blanks, isBlank c = true)
    (cs : List Char) : endsBlank (cs ++ blanks) = (endsBlank cs || !blanks.isEmpty) := by
  rcases blanks.eq_nil_or_concat' with rfl | ⟨front, c, rfl⟩
  · simp
  · simp [endsBlank, h c (by simp)]

/-- A character in front of a text matters to its end only if the text is empty. -/
theorem endsBlank_cons {c : Char} {cs : List Char} (hcs : endsBlank cs = false)
    (hc : cs = [] → isBlank c = false) : endsBlank (c :: cs) = false := by
  cases cs with
  | nil => simpa [endsBlank] using hc rfl
  | cons d cs => rwa [endsBlank, List.getLast?_cons_cons]

/-- If only blanks are dropped from a text, what stands in front of its last blanks is kept. -/
theorem kept_of_blanks {cs front blanks back : List Char} (h : cs ++ blanks = front ++ back)
    (hblanks : ∀ c ∈ blanks, isBlank c = true) (hfront : endsBlank front = false) :
    ∃ kept, cs = front ++ kept ∧ back = kept ++ blanks := by
  rcases front.eq_nil_or_concat' with rfl | ⟨front, c, rfl⟩
  · exact ⟨cs, rfl, h.symm⟩
  · have hc : isBlank c = false := by simpa [endsBlank] using hfront
    refine eq_append_of_not_mem (fun hmem => ?_) h
    rw [hblanks c hmem] at hc
    cases hc

namespace Padded

variable {a b a' b' : List Char}

/-- A text is padded by nothing. -/
theorem refl (cs : List Char) : Padded cs cs := by
  induction cs with
  | nil => exact .nil
  | cons c cs ih => exact .cons c ih

/-- Padded texts may be put one behind the other. -/
theorem append (h : Padded a b) (h' : Padded a' b') : Padded (a ++ a') (b ++ b') := by
  induction h with
  | nil => exact h'
  | cons c _ ih => exact .cons c ih
  | lineFeed hblanks _ ih =>
    rw [List.append_assoc, List.cons_append, List.cons_append]
    exact .lineFeed hblanks ih

/-- Without the padding, characters are missing and none is new. -/
theorem sublist (h : Padded a b) : b.Sublist a := by
  induction h with
  | nil => exact .slnil
  | cons c _ ih => exact ih.cons_cons c
  | lineFeed _ _ ih => exact (ih.cons_cons '\n').trans (List.sublist_append_right ..)

/-- Both texts end in the same blanks. -/
theorem split (h : Padded a b) : ∃ front front' back, a = front ++ back ∧ b = front' ++ back ∧
    Padded front front' ∧ endsBlank front = false ∧ endsBlank front' = false ∧
    ∀ c ∈ back, isBlank c = true := by
  induction h with
  | nil => exact ⟨[], [], [], rfl, rfl, .nil, rfl, rfl, nofun⟩
  | @cons c a b _ ih =>
    obtain ⟨front, front', back, rfl, rfl, hpadded, hfront, hfront', hback⟩ := ih
    by_cases hall : front = [] ∧ isBlank c = true
    · -- the text is blank so far
      obtain ⟨rfl, hc⟩ := hall
      obtain rfl : front' = [] := List.sublist_nil.1 hpadded.sublist
      have hall : ∀ d ∈ c :: back, isBlank d = true := List.forall_mem_cons.2 ⟨hc, hback⟩
      exact ⟨[], [], c :: back, rfl, rfl, .nil, rfl, rfl, hall⟩
    · have hc : front = [] → isBlank c = false := by simpa using hall
      have hc' : front' = [] → isBlank c = false := by
        rintro rfl
        cases hpadded
        exact hc rfl
      exact ⟨c :: front, c :: front', back, rfl, rfl, hpadded.cons c, endsBlank_cons hfront hc,
        endsBlank_cons hfront' hc', hback⟩
  | @lineFeed blanks a b hblanks _ ih =>
    obtain ⟨front, front', back, rfl, rfl, hpadded, hfront, hfront', hback⟩ := ih
    -- a line feed is no blank, so the blanks in front of it are not among those at the end
    have hend : ∀ cs, endsBlank cs = false → endsBlank ('\n' :: cs) = false := fun cs hcs =>
      endsBlank_cons hcs fun _ => by decide
    refine ⟨blanks ++ '\n' :: front, '\n' :: front', back, by simp, rfl,
      .lineFeed hblanks hpadded, ?_, hend _ hfront', hback⟩
    have hlast := hend _ hfront
    rw [endsBlank, List.getLast?_append_of_ne_nil _ (by simp)]
    exact hlast

end Padded

end Reflow.Text
