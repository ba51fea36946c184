import Mathlib.Data.List.Infix
import Reflow.Proofs.Text.Solid

/-!
# Replacement

A text is replaced piece by piece: where the pattern stands it is taken as a whole, and all other
characters stay.  Nothing that was not in the text arises from images whose first character does not
occur in it, so that replacements of different patterns can be told apart.

## Key results

- `Replaced`: how the result comes from the text, occurrence by occurrence
- `replaced_replaceFrom`: the computation does this
- `Replaced.prefix_of_prefix`, `Replaced.not_infix`: what cannot arise
- `Replaced.undo`: an image that is replaced back
-/

namespace Reflow.Text

variable {pattern image cs out w : List Char} {c : Char}

/-- The second text comes from the first by replacing the pattern where it stands, from the left. -/
inductive Replaced (pattern image : List Char) : List Char → List Char → Prop
  | nil : Replaced pattern image [] []
  | hit {cs out : List Char} (h : Replaced pattern image cs out) :
    Replaced pattern image (pattern ++ cs) (image ++ out)
  | miss {c : Char} {cs out : List Char} (hmiss : ¬pattern <+: c :: cs)
    (h : Replaced pattern image cs out) : Replaced pattern image (c :: cs) (c :: out)

/-- What is still to be skipped is skipped. -/
theorem replaceFrom_skip (pattern image : List Char) (n : Nat) (cs : List Char) :
    replaceFrom pattern image n cs = replaceFrom pattern image 0 (cs.drop n) := by
  induction n generalizing cs with
  | zero => rfl
  | succ n ih =>
    cases cs with
    | nil => rfl
    | cons c cs => exact ih cs

/-- The pattern is replaced where it stands. -/
theorem replaceFrom_hit (hpattern : pattern ≠ []) (image cs : List Char) :
    replaceFrom pattern image 0 (pattern ++ cs) = image ++ replaceFrom pattern image 0 cs := by
  cases pattern with
  | nil => exact absurd rfl hpattern
  | cons p ps =>
    have hstarts : startsWith (p :: (ps ++ cs)) (p :: ps) = true :=
      startsWith_iff.2 (List.prefix_append (p :: ps) cs)
    have hskip : (p :: ps).length - 1 = ps.length := rfl
    rw [List.cons_append, replaceFrom, if_pos hstarts, replaceFrom_skip, hskip, List.drop_left]

/-- Where it does not stand a character is kept. -/
theorem replaceFrom_miss (image : List Char) (hmiss : ¬pattern <+: c :: cs) :
    replaceFrom pattern image 0 (c :: cs) = c :: replaceFrom pattern image 0 cs := by
  rw [replaceFrom, if_neg fun h => hmiss (startsWith_iff.1 h)]

/-- The computation replaces one occurrence after the other. -/
theorem replaced_replaceFrom (hpattern : pattern ≠ []) (image cs : List Char) :
    Replaced pattern image cs (replaceFrom pattern image 0 cs) := by
  -- induction on the length, because a hit passes over several characters
  induction hlength : cs.length using Nat.strong_induction_on generalizing cs with
  | _ n ih =>
    -- the pattern stands here or it does not
    by_cases hhit : pattern <+: cs
    · obtain ⟨rest, rfl⟩ := hhit
      have hshorter : rest.length < n := by
        have hpositive := List.length_pos_iff.2 hpattern
        rw [List.length_append] at hlength
        omega
      rw [replaceFrom_hit hpattern]
      exact .hit (ih rest.length hshorter rest rfl)
    · cases cs with
      | nil => exact .nil
      | cons c cs =>
        rw [replaceFrom_miss image hhit]
        exact .miss hhit (ih cs.length (by rw [← hlength]; exact Nat.lt_succ_self _) cs rfl)

/-- The replaced text is the one that is computed. -/
theorem Replaced.replaceFrom_eq (hpattern : pattern ≠ []) (h : Replaced pattern image cs out) :
    replaceFrom pattern image 0 cs = out := by
  induction h with
  | nil => rfl
  | hit _ ih => rw [replaceFrom_hit hpattern, ih]
  | miss hmiss _ ih => rw [replaceFrom_miss image hmiss, ih]

/-- The characters of the text are replaced. -/
theorem toList_replaceAll (s pattern image : String) : (replaceAll s pattern image).toList =
    replaceFrom pattern.toList image.toList 0 s.toList := String.toList_ofList

/-- Without an occurrence nothing is replaced. -/
theorem replaced_self (h : ¬pattern <:+: cs) : Replaced pattern image cs cs := by
  induction cs with
  | nil => exact .nil
  | cons c cs ih =>
    rw [List.infix_cons_iff, not_or] at h
    exact .miss h.1 (ih h.2)

section

variable {i p : Char} {is ps : List Char}

/-- No text that lacks the first character of the image comes to stand at the start. -/
theorem Replaced.prefix_of_prefix (h : Replaced pattern (i :: is) cs out) (hi : i ∉ w)
    (hw : w <+: out) : w <+: cs := by
  -- induction on how the text was replaced
  induction h generalizing w with
  | nil => exact hw
  | hit _ _ =>
    cases w with
    | nil => exact List.nil_prefix
    | cons a w =>
      -- the image starts with a character that is not in the pattern
      have hai : a = i := (List.cons_prefix_cons.1 hw).1
      exact absurd (hai ▸ List.mem_cons_self) hi
  | miss _ _ ih =>
    cases w with
    | nil => exact List.nil_prefix
    | cons a w =>
      obtain ⟨rfl, hrest⟩ := List.cons_prefix_cons.1 hw
      exact List.cons_prefix_cons.2 ⟨rfl, ih (fun hmem => hi (List.mem_cons_of_mem _ hmem)) hrest⟩

variable (hi : i ∉ ps) (himage : ∀ rest, p :: ps <:+: (i :: is) ++ rest → p :: ps <:+: rest)

include hi himage

/-- What did not occur does not arise, unless it starts in the image. -/
theorem Replaced.not_infix (h : Replaced pattern (i :: is) cs out) (hcs : ¬p :: ps <:+: cs) :
    ¬p :: ps <:+: out := by
  -- induction on how the text was replaced
  induction h with
  | nil => exact hcs
  | @hit cs out _ ih =>
    have hrest := ih fun hwithin => hcs (hwithin.trans (List.suffix_append pattern cs).isInfix)
    exact fun hwithin => hrest (himage out hwithin)
  | @miss c cs out _ h ih =>
    -- what stands within the text starts with it or behind its first character
    rw [List.infix_cons_iff, not_or, List.cons_prefix_cons] at hcs
    rw [List.infix_cons_iff, List.cons_prefix_cons]
    rintro (⟨rfl, hprefix⟩ | hwithin)
    · exact hcs.1 ⟨rfl, h.prefix_of_prefix hi hprefix⟩
    · exact ih hcs.2 hwithin

/-- After the replacement the pattern is gone, unless it starts in the image. -/
theorem Replaced.not_infix_self (h : Replaced (p :: ps) (i :: is) cs out) : ¬p :: ps <:+: out := by
  induction h with
  | nil => exact fun hwithin => absurd (List.infix_nil.1 hwithin) (List.cons_ne_nil p ps)
  | @hit cs out _ ih => exact fun hwithin => ih (himage out hwithin)
  | @miss c cs out hmiss h ih =>
    rw [List.infix_cons_iff, List.cons_prefix_cons]
    rintro (⟨rfl, hprefix⟩ | hwithin)
    · exact hmiss (List.cons_prefix_cons.2 ⟨rfl, h.prefix_of_prefix hi hprefix⟩)
    · exact ih hwithin

end

/-- A character that is replaced by a text which did not occur comes back. -/
theorem Replaced.undo {i p : Char} {ps : List Char} (h : Replaced [i] (p :: ps) cs out)
    (hp : p ∉ ps) (hcs : ¬p :: ps <:+: cs) : Replaced (p :: ps) [i] out cs := by
  induction h with
  | nil => exact .nil
  | hit _ ih =>
    rw [List.singleton_append, List.infix_cons_iff, not_or] at hcs
    exact .hit (ih hcs.2)
  | @miss c cs out _ h ih =>
    rw [List.infix_cons_iff, not_or] at hcs
    refine .miss (fun hprefix => hcs.1 ?_) (ih hcs.2)
    obtain ⟨rfl, hrest⟩ := List.cons_prefix_cons.1 hprefix
    exact List.cons_prefix_cons.2 ⟨rfl, h.prefix_of_prefix hp hrest⟩

/-- A replaced character is gone if it is not in the image. -/
theorem Replaced.not_mem {i : Char} (h : Replaced [i] image cs out) (himage : i ∉ image) :
    i ∉ out := by
  induction h with
  | nil => exact List.not_mem_nil
  | hit _ ih => exact fun hmem => (List.mem_append.1 hmem).elim himage ih
  | @miss c cs out hmiss _ ih =>
    rintro (_ | ⟨_, hmem⟩)
    · exact hmiss (List.prefix_append [i] cs)
    · exact ih hmem

end Reflow.Text
