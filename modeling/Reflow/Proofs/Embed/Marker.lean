import Reflow.Embed.Splice
import Reflow.Proofs.Text.Solid

/-!
# Placeholders in a text

A placeholder starts with a character that it holds nowhere else.  So no two placeholders overlap, and
a text falls into placeholders and texts without any in one way only.

## Key results

- `read?_eq_some_iff`: a placeholder is read where one stands
- `cut_of_reads`, `reads_cut`: cutting a text at its placeholders gives its only reading
-/

namespace Reflow.Embed

/-- Digits that may stand in a placeholder: at least one. -/
def IsNumeral (digits : List Char) : Prop := digits ≠ [] ∧ digits.all Text.isDecimal = true

namespace Marker

variable {m : Marker} {c : Char} {cs first digits : List Char}
  {more : List (List Char × List Char)}

/-- The placeholder with the given digits. -/
def placeholder (m : Marker) (digits : List Char) : List Char := m.opening ++ digits ++ m.closing

/-- Placeholders start with a character that stands nowhere else in them, and no digit stands at the
end of their digits. -/
structure StartsWith (m : Marker) (c : Char) : Prop where
  opening : m.opening = c :: m.opening.tail
  not_mem_opening : c ∉ m.opening.tail
  not_mem_closing : c ∉ m.closing
  not_decimal : Text.isDecimal c = false
  closing : m.closing.head?.all (fun d => !Text.isDecimal d) = true
  closing_ne : m.closing ≠ []

/-- A placeholder of stylesheets starts with an at sign. -/
theorem css_startsWith : css.StartsWith '@' := by
  constructor <;> decide

/-- One of markup starts with the first letter of its name. -/
theorem html_startsWith : html.StartsWith 'V' := by
  constructor <;> decide

/-- A text without placeholders. -/
def Free (m : Marker) (cs : List Char) : Prop :=
  ∀ digits, IsNumeral digits → ¬m.placeholder digits <:+: cs

/-- Placeholders, given by their digits, each with the text behind it. -/
def written (m : Marker) (more : List (List Char × List Char)) : List Char :=
  more.flatMap fun p => m.placeholder p.1 ++ p.2

/-- A text is read as a text without placeholders, and placeholders with such texts behind them. -/
structure Reads (m : Marker) (cs first : List Char) (more : List (List Char × List Char)) : Prop where
  text : cs = first ++ m.written more
  first : m.Free first
  more : ∀ p ∈ more, IsNumeral p.1 ∧ m.Free p.2

@[simp] theorem written_nil : m.written [] = [] := rfl

@[simp] theorem written_cons (p : List Char × List Char) :
    m.written (p :: more) = m.placeholder p.1 ++ (p.2 ++ m.written more) := by
  simp [written]

/-- The end of a text without placeholders has none. -/
theorem Free.of_suffix {tail : List Char} (h : m.Free cs) (ht : tail <:+ cs) : m.Free tail :=
  fun digits hdigits hwithin => h digits hdigits (hwithin.trans ht.isInfix)

/-- In a placeholder nothing is cut. -/
theorem cut_skip (skip : Nat) (cs : List Char) : m.cut skip cs = m.cut 0 (cs.drop skip) := by
  induction skip generalizing cs with
  | zero => rfl
  | succ skip ih =>
    cases cs with
    | nil => rfl
    | cons d cs => rw [cut, ih, List.drop_succ_cons]

/-- Without a placeholder at its start, a text starts with a character of its own. -/
theorem cut_cons {d : Char} (h : m.read? (d :: cs) = none) :
    m.cut 0 (d :: cs) = (d :: (m.cut 0 cs).1, (m.cut 0 cs).2) := by
  rw [cut, h]

namespace StartsWith

variable (hm : m.StartsWith c)

include hm

/-- A placeholder starts with the character that its marker starts with. -/
theorem placeholder_eq (digits : List Char) :
    m.placeholder digits = c :: (m.placeholder digits).tail := by
  rw [placeholder, hm.opening]
  rfl

/-- Behind its first character a placeholder does not hold that character. -/
theorem not_mem_tail (hdigits : IsNumeral digits) : c ∉ (m.placeholder digits).tail := by
  have htail : (m.placeholder digits).tail = m.opening.tail ++ (digits ++ m.closing) := by
    rw [placeholder, hm.opening]
    simp
  have hmem : c ∉ digits := fun h => by
    have := List.all_eq_true.1 hdigits.2 c h
    rw [hm.not_decimal] at this
    cases this
  rw [htail, List.mem_append, List.mem_append, not_or, not_or]
  exact ⟨hm.not_mem_opening, hmem, hm.not_mem_closing⟩

/-- The digits of a placeholder end where its closing text starts. -/
theorem takeWhile_digits (hdigits : IsNumeral digits) (rest : List Char) :
    (digits ++ (m.closing ++ rest)).takeWhile Text.isDecimal = digits := by
  rw [List.takeWhile_append_of_pos (List.all_eq_true.1 hdigits.2)]
  have hstop : (m.closing ++ rest).takeWhile Text.isDecimal = [] := by
    cases hclosing : m.closing with
    | nil => exact absurd hclosing hm.closing_ne
    | cons d tail =>
      have hd := hm.closing
      rw [hclosing] at hd
      exact List.takeWhile_cons_of_neg (by simpa using hd)
  rw [hstop, List.append_nil]

/-- A placeholder is read where one stands. -/
theorem read?_eq_some_iff :
    m.read? cs = some digits ↔ IsNumeral digits ∧ m.placeholder digits <+: cs := by
  simp only [read?, Option.bind_eq_bind, Option.bind_eq_some_iff]
  -- both sides speak of an opening, of digits and of a closing
  constructor
  · -- what was read, put together again
    rintro ⟨rest, hopening, after, hclosing, hdigits⟩
    split at hdigits
    · cases hdigits
    rename_i hne
    rw [Option.some.injEq] at hdigits
    subst hdigits
    refine ⟨⟨by simpa [List.isEmpty_iff] using hne, List.all_takeWhile⟩, after, ?_⟩
    have hcs := Text.dropLeading?_eq_some_iff.1 hopening
    have hrest := Text.dropLeading?_eq_some_iff.1 hclosing
    have hsplit : rest.takeWhile Text.isDecimal
        ++ rest.drop (rest.takeWhile Text.isDecimal).length = rest :=
      List.prefix_iff_eq_append.1 (List.takeWhile_prefix _)
    rw [hrest] at hsplit
    rw [hcs, placeholder, List.append_assoc, List.append_assoc, hsplit]
  · -- the text of a placeholder, read from its front
    rintro ⟨hdigits, after, rfl⟩
    refine ⟨digits ++ (m.closing ++ after), ?_, after, ?_, ?_⟩
    · rw [Text.dropLeading?_eq_some_iff, placeholder, List.append_assoc, List.append_assoc]
    · rw [Text.dropLeading?_eq_some_iff, hm.takeWhile_digits hdigits, List.drop_left]
    · rw [hm.takeWhile_digits hdigits, if_neg (by simpa [List.isEmpty_iff] using hdigits.1)]

/-- Where no placeholder stands, none is read. -/
theorem read?_eq_none_iff :
    m.read? cs = none ↔ ∀ digits, IsNumeral digits → ¬m.placeholder digits <+: cs := by
  rw [Option.eq_none_iff_forall_ne_some]
  exact forall_congr' fun digits => by rw [ne_eq, hm.read?_eq_some_iff, not_and]

/-! ## Cutting -/

/-- A placeholder is cut off, and the cut goes on behind it. -/
theorem cut_placeholder (hdigits : IsNumeral digits) (cs : List Char) :
    m.cut 0 (m.placeholder digits ++ cs) = ([], (digits, (m.cut 0 cs).1) :: (m.cut 0 cs).2) := by
  have hread : m.read? (m.placeholder digits ++ cs) = some digits :=
    hm.read?_eq_some_iff.2 ⟨hdigits, List.prefix_append ..⟩
  have hlength : m.length digits - 1 = (m.placeholder digits).tail.length := by
    rw [List.length_tail, placeholder, Marker.length, List.length_append, List.length_append]
  rw [hm.placeholder_eq digits, List.cons_append] at hread ⊢
  rw [cut, hread]
  simp only
  rw [cut_skip, hlength, List.drop_left]

/-- No placeholder starts in a text without any and ends in the placeholders behind it. -/
theorem read?_free {d : Char} (hfree : m.Free (d :: first)) (more : List (List Char × List Char)) :
    m.read? (d :: (first ++ m.written more)) = none := by
  rw [hm.read?_eq_none_iff]
  rintro digits hdigits ⟨rest, hrest⟩
  rw [← List.cons_append] at hrest
  rcases List.append_eq_append_iff.1 hrest with ⟨t, hinside, -⟩ | ⟨t, hacross, hcut⟩
  · exact hfree digits hdigits ⟨[], t, by rw [hinside]; rfl⟩
  cases t with
  | nil => exact hfree digits hdigits ⟨[], [], by simp [hacross]⟩
  | cons e t =>
    cases more with
    | nil => cases hcut
    | cons p more =>
      -- the placeholder would hold the start of the next one
      rw [written_cons, hm.placeholder_eq, List.cons_append, List.cons_append] at hcut
      obtain ⟨rfl, -⟩ := List.cons.inj hcut
      apply hm.not_mem_tail hdigits
      rw [hacross]
      simp

/-- A text with no placeholders is left as it is, in front of placeholders too. -/
theorem cut_free (hfree : m.Free first) (more : List (List Char × List Char)) :
    m.cut 0 (first ++ m.written more) =
      (first ++ (m.cut 0 (m.written more)).1, (m.cut 0 (m.written more)).2) := by
  induction first with
  | nil => rfl
  | cons d first ih =>
    have hrest := ih (hfree.of_suffix (List.suffix_cons d first))
    rw [List.cons_append, cut_cons (hm.read?_free hfree more), hrest]
    rfl

/-- A reading is found by cutting. -/
theorem cut_of_reads (h : m.Reads cs first more) : m.cut 0 cs = (first, more) := by
  obtain ⟨rfl, hfirst, hmore⟩ := h
  induction more generalizing first with
  | nil =>
    rw [hm.cut_free hfirst, written_nil, cut, List.append_nil]
  | cons p more ih =>
    obtain ⟨hdigits, hfree⟩ := hmore p List.mem_cons_self
    have hrest := ih hfree fun q hq => hmore q (List.mem_cons_of_mem _ hq)
    rw [hm.cut_free hfirst, written_cons, hm.cut_placeholder hdigits, hrest, List.append_nil]

/-- Cutting gives a reading. -/
theorem reads_cut (cs : List Char) : m.Reads cs (m.cut 0 cs).1 (m.cut 0 cs).2 := by
  have hnil : m.Free [] := fun digits _ hwithin => by
    rw [List.infix_nil, hm.placeholder_eq] at hwithin
    cases hwithin
  -- induction on the length, because a placeholder passes over several characters
  induction hlength : cs.length using Nat.strongRecOn generalizing cs with
  | _ n ih =>
    cases cs with
    | nil => exact ⟨rfl, hnil, by simp [cut]⟩
    | cons d cs =>
      cases hread : m.read? (d :: cs) with
      -- a placeholder stands here, and the text in front of it is empty
      | some digits =>
        obtain ⟨hdigits, rest, hrest⟩ := hm.read?_eq_some_iff.1 hread
        have hlt : rest.length < n := by
          rw [← hlength, ← hrest, hm.placeholder_eq, List.cons_append, List.length_cons,
            List.length_append]
          omega
        have hreads := ih _ hlt rest rfl
        rw [← hrest, hm.cut_placeholder hdigits]
        refine ⟨?_, hnil, ?_⟩
        · rw [List.nil_append, written_cons, ← hreads.text]
        · intro p hp
          rcases List.mem_cons.1 hp with rfl | hp
          · exact ⟨hdigits, hreads.first⟩
          · exact hreads.more p hp
      -- no placeholder stands here, so that the character belongs to the first text
      | none =>
        have hreads := ih cs.length (by rw [← hlength]; simp) cs rfl
        rw [cut_cons hread]
        refine ⟨?_, ?_, hreads.more⟩
        · rw [List.cons_append, ← hreads.text]
        · -- a placeholder in the first text would start here or behind
          intro digits hdigits hwithin
          rcases List.infix_cons_iff.1 hwithin with hfront | hwithin
          · refine hm.read?_eq_none_iff.1 hread digits hdigits (hfront.trans ?_)
            rw [List.prefix_cons_inj]
            exact ⟨_, hreads.text.symm⟩
          · exact hreads.first digits hdigits hwithin

end StartsWith

end Marker

end Reflow.Embed
