import Reflow.Proofs.Embed.Marker
import Reflow.Proofs.Text.Ranges
import Reflow.Proofs.Text.Solid

/-!
# The placeholders in the text of a stylesheet

A placeholder holds no white space and no punctuation but its at sign and hyphens.  So the placeholders
of a text are those of its parts between any other characters, wherever white space is put or taken
next to these.  Its letters are small, so that a text in lower case has at least the placeholders that
it had before.

## Key results

- `placeholdersIn_append`: a delimiter cuts no placeholder
- `placeholdersIn_sublist_lower`: lower case keeps placeholders
- `placeholders_eq`: what is spliced into a text is found by looking at each of its tails
-/

namespace Reflow.Stylesheet

open Embed (Marker)

/-- The digits of the placeholders that start somewhere in a text. -/
def placeholdersIn : List Char → List (List Char)
  | [] => []
  | c :: rest => (Marker.css.read? (c :: rest)).toList ++ placeholdersIn rest

/-- The placeholder with the given digits. -/
def placeholderOf (digits : List Char) : List Char := placeholderStart ++ digits ++ placeholderEnd

/-- A character that is in no placeholder. -/
def delimits (c : Char) : Bool :=
  !(placeholderStart.contains c || placeholderEnd.contains c || Text.isDecimal c)

/-- White space is in no placeholder. -/
theorem delimits_of_isSpace {c : Char} (h : Text.isSpace c = true) : delimits c = true := by
  have hstart : ∀ x ∈ placeholderStart ++ placeholderEnd, Text.isSpace x = false :=
    Text.forall_mem_of_all (by decide)
  have hnot : c ∉ placeholderStart ++ placeholderEnd := fun hc => by
    rw [hstart c hc] at h
    cases h
  rw [List.mem_append, not_or] at hnot
  simp [delimits, Text.isDecimal_of_isSpace h, hnot.1, hnot.2]

/-- A placeholder starts with an at sign. -/
theorem placeholderOf_eq (digits : List Char) :
    placeholderOf digits = '@' :: (placeholderOf digits).tail := by
  have hstart : placeholderStart = '@' :: placeholderStart.tail := by decide
  rw [placeholderOf, hstart]
  rfl

/-! ## Reading a placeholder -/

/-- A placeholder is read where one stands. -/
theorem read?_eq_some_iff {digits cs : List Char} :
    Marker.css.read? cs = some digits ↔
      digits ≠ [] ∧ digits.all Text.isDecimal = true ∧ placeholderOf digits <+: cs := by
  rw [Marker.css_startsWith.read?_eq_some_iff, Embed.IsNumeral, and_assoc]
  rfl

/-- No placeholder holds a delimiter. -/
theorem not_mem_placeholderOf {c : Char} (hc : delimits c = true) {digits : List Char}
    (hdigits : digits.all Text.isDecimal = true) : c ∉ placeholderOf digits := by
  simp only [delimits, Bool.not_eq_true', Bool.or_eq_false_iff, List.contains_eq_mem,
    decide_eq_false_iff_not] at hc
  simp only [placeholderOf, List.mem_append, not_or]
  refine ⟨⟨hc.1.1, fun h => ?_⟩, hc.1.2⟩
  rw [List.all_eq_true.1 hdigits c h] at hc
  exact absurd hc.2 (by simp)

/-- What stands behind a delimiter is no part of a placeholder in front of it. -/
theorem read?_append {d : Char} (hd : delimits d = true) (a b : List Char) :
    Marker.css.read? (a ++ d :: b) = Marker.css.read? a := by
  refine Option.ext fun digits => ?_
  rw [read?_eq_some_iff, read?_eq_some_iff]
  refine and_congr_right fun _ => and_congr_right fun hdigits => ?_
  constructor
  · rintro ⟨rest, hrest⟩
    -- the placeholder ends within the text in front of the delimiter
    rcases List.append_eq_append_iff.1 hrest with ⟨t, ha, -⟩ | ⟨t, hp, ht⟩
    · exact ⟨t, ha.symm⟩
    · -- otherwise the delimiter would be in it
      cases t with
      | nil => exact ⟨[], by simpa using hp⟩
      | cons x t =>
        obtain ⟨rfl, -⟩ := List.cons.inj ht
        exact absurd (by simp [hp]) (not_mem_placeholderOf hd hdigits)
  · exact fun h => h.trans (List.prefix_append ..)

/-! ## The placeholders of a text -/

@[simp] theorem placeholdersIn_nil : placeholdersIn [] = [] := rfl

/-- The placeholders of a text are the one that starts with it, if any, and those of the rest. -/
theorem placeholdersIn_cons_eq (c : Char) (cs : List Char) :
    placeholdersIn (c :: cs) = (Marker.css.read? (c :: cs)).toList ++ placeholdersIn cs := rfl

/-- A delimiter cuts no placeholder. -/
theorem placeholdersIn_append {d : Char} (hd : delimits d = true) (a b : List Char) :
    placeholdersIn (a ++ d :: b) = placeholdersIn a ++ placeholdersIn b := by
  induction a with
  | nil =>
    have hread := read?_append hd [] b
    rw [List.nil_append] at hread ⊢
    rw [placeholdersIn_cons_eq, hread]
    rfl
  | cons c a ih =>
    have hread := read?_append hd (c :: a) b
    rw [List.cons_append] at hread ⊢
    rw [placeholdersIn_cons_eq, placeholdersIn_cons_eq, hread, ih, List.append_assoc]

/-- Behind a character that is in no placeholder nothing is lost. -/
theorem placeholdersIn_cons {d : Char} (hd : delimits d = true) (b : List Char) :
    placeholdersIn (d :: b) = placeholdersIn b := placeholdersIn_append hd [] b

/-- Nor is in front of one. -/
theorem placeholdersIn_concat {d : Char} (hd : delimits d = true) (a : List Char) :
    placeholdersIn (a ++ [d]) = placeholdersIn a := by
  rw [placeholdersIn_append hd, placeholdersIn_nil, List.append_nil]

/-- Two texts are joined without a placeholder across them if the second one starts with a
delimiter. -/
theorem placeholdersIn_join (a : List Char) {b : List Char}
    (hb : ∀ d ∈ b.head?, delimits d = true) :
    placeholdersIn (a ++ b) = placeholdersIn a ++ placeholdersIn b := by
  cases b with
  | nil => simp
  | cons d b => rw [placeholdersIn_append (hb d rfl), placeholdersIn_cons (hb d rfl)]

/-- A text of delimiters has no placeholders, and adds none to a text that it stands in front of. -/
theorem placeholdersIn_delimiters {a : List Char} (ha : ∀ d ∈ a, delimits d = true)
    (b : List Char) : placeholdersIn (a ++ b) = placeholdersIn b := by
  induction a with
  | nil => rfl
  | cons d a ih =>
    rw [List.cons_append, placeholdersIn_cons (ha d List.mem_cons_self),
      ih fun e he => ha e (List.mem_cons_of_mem _ he)]

/-- So such characters at the end hold no placeholder. -/
theorem placeholdersIn_delimiters_end {b : List Char} (hb : ∀ d ∈ b, delimits d = true)
    (a : List Char) : placeholdersIn (a ++ b) = placeholdersIn a := by
  have hnone := placeholdersIn_delimiters hb []
  rw [List.append_nil] at hnone
  rw [placeholdersIn_join a fun d hd => hb d (List.mem_of_mem_head? hd), hnone]
  simp

/-- Dropping white space in front takes no placeholders. -/
theorem placeholdersIn_dropWhile (cs : List Char) :
    placeholdersIn (cs.dropWhile Text.isSpace) = placeholdersIn cs := by
  have hall : (cs.takeWhile Text.isSpace).all Text.isSpace = true := List.all_takeWhile
  have hnone := placeholdersIn_delimiters
    (fun d hd => delimits_of_isSpace (List.all_eq_true.1 hall d hd)) (cs.dropWhile Text.isSpace)
  rw [← hnone, List.takeWhile_append_dropWhile]

/-- Dropping white space at the end takes no placeholders. -/
theorem placeholdersIn_dropEndWhile (cs : List Char) :
    placeholdersIn (Text.dropEndWhile Text.isSpace cs) = placeholdersIn cs := by
  rw [Text.dropEndWhile]
  have hall : (cs.reverse.takeWhile Text.isSpace).all Text.isSpace = true := List.all_takeWhile
  have hsplit := congrArg List.reverse
    (List.takeWhile_append_dropWhile (p := Text.isSpace) (l := cs.reverse))
  rw [List.reverse_append, List.reverse_reverse] at hsplit
  have hnone := placeholdersIn_delimiters_end (b := (cs.reverse.takeWhile Text.isSpace).reverse)
    (fun d hd => delimits_of_isSpace (List.all_eq_true.1 hall d (List.mem_reverse.1 hd)))
    (cs.reverse.dropWhile Text.isSpace).reverse
  rw [← hnone, hsplit]

/-! ## Lower case -/

/-- The characters of a placeholder have no lower case. -/
theorem mapCase_of_mem {digits : List Char} (hdigits : digits.all Text.isDecimal = true) :
    ∀ c ∈ placeholderOf digits,
      c ≠ 'Σ' ∧ Text.mapCase Text.Tables.toLowerMany Text.Tables.toLower c = [c] := by
  -- its letters are in lower case, and digits have none
  have hletters : ∀ c ∈ placeholderStart ++ placeholderEnd,
      c ≠ 'Σ' ∧ Text.mapCase Text.Tables.toLowerMany Text.Tables.toLower c = [c] :=
    Text.forall_mem_of_all (by decide)
  have hsigma : Text.isDecimal 'Σ' = false := by decide
  intro c hc
  simp only [placeholderOf, List.mem_append] at hc
  rcases hc with (hc | hc) | hc
  · exact hletters c (List.mem_append_left _ hc)
  · have hdecimal := List.all_eq_true.1 hdigits c hc
    refine ⟨fun h => ?_, Text.mapCase_of_isDecimal hdecimal⟩
    rw [h, hsigma] at hdecimal
    cases hdecimal
  · exact hletters c (List.mem_append_right _ hc)

/-- The placeholders of the end of a text are among those of the text. -/
theorem placeholdersIn_sublist_append (a b : List Char) :
    (placeholdersIn b).Sublist (placeholdersIn (a ++ b)) := by
  induction a with
  | nil => exact .refl _
  | cons c a ih => exact ih.trans (List.sublist_append_right ..)

/-- A text in lower case has the placeholders that it had before, and maybe more. -/
theorem placeholdersIn_sublist_lower (before cs : List Char) :
    (placeholdersIn cs).Sublist (placeholdersIn (Text.lowerFrom before cs)) := by
  induction cs generalizing before with
  | nil => exact .refl _
  | cons c cs ih =>
    rw [placeholdersIn_cons_eq]
    cases hread : Marker.css.read? (c :: cs) with
    | none =>
      rw [Text.lowerFrom]
      exact (ih _).trans (placeholdersIn_sublist_append _ _)
    | some digits =>
      -- the whole placeholder stays as it is
      obtain ⟨hne, hdigits, rest, hrest⟩ := read?_eq_some_iff.1 hread
      have hfixed := mapCase_of_mem hdigits
      have hlower := Text.lowerFrom_append hfixed before rest
      rw [hrest] at hlower
      have hread' : Marker.css.read? (Text.lowerFrom before (c :: cs)) = some digits :=
        read?_eq_some_iff.2 ⟨hne, hdigits, _, hlower.symm⟩
      have hhead : Text.lowerFrom before (c :: cs) = c :: Text.lowerFrom (c :: before) cs := by
        have hc : c ∈ placeholderOf digits := by
          rw [placeholderOf_eq, List.cons_append] at hrest
          rw [placeholderOf_eq, ← (List.cons.inj hrest).1]
          exact List.mem_cons_self
        obtain ⟨hsigma, hcase⟩ := hfixed c hc
        rw [Text.lowerFrom, if_neg hsigma, hcase]
        rfl
      rw [hhead] at hread' ⊢
      rw [placeholdersIn_cons_eq, hread']
      exact (ih _).cons_cons digits

/-- The same behind another text. -/
theorem placeholdersIn_sublist_lower_behind (a before cs : List Char) :
    (placeholdersIn (a ++ cs)).Sublist (placeholdersIn (a ++ Text.lowerFrom before cs)) := by
  induction a with
  | nil => exact placeholdersIn_sublist_lower before cs
  | cons c a ih =>
    rw [List.cons_append, List.cons_append, placeholdersIn_cons_eq, placeholdersIn_cons_eq]
    cases hread : Marker.css.read? (c :: (a ++ cs)) with
    | none => exact ih.trans (List.sublist_append_right ..)
    | some digits =>
      obtain ⟨hne, hdigits, rest, hrest⟩ := read?_eq_some_iff.1 hread
      have hstand : placeholderOf digits <+: c :: (a ++ Text.lowerFrom before cs) := by
        rw [← List.cons_append] at hrest ⊢
        rcases List.append_eq_append_iff.1 hrest with ⟨t, ha, -⟩ | ⟨t, hp, ht⟩
        · rw [ha, List.append_assoc]
          exact List.prefix_append ..
        · -- its end stands in the part that is put in lower case
          have hfixed := fun d (hd : d ∈ t) =>
            mapCase_of_mem hdigits d (hp ▸ List.mem_append_right _ hd)
          rw [ht, Text.lowerFrom_append hfixed, hp, ← List.append_assoc]
          exact List.prefix_append ..
      rw [read?_eq_some_iff.2 ⟨hne, hdigits, hstand⟩]
      exact ih.cons_cons digits

/-! ## What is spliced -/

/-- A placeholder starts with an at sign. -/
theorem read?_of_ne {c : Char} (hc : c ≠ '@') (cs : List Char) :
    Marker.css.read? (c :: cs) = none := by
  rw [Option.eq_none_iff_forall_ne_some]
  intro digits hread
  obtain ⟨-, -, rest, hrest⟩ := read?_eq_some_iff.1 hread
  rw [placeholderOf_eq, List.cons_append] at hrest
  exact hc (List.cons.inj hrest).1.symm

/-- A text without an at sign can be left out in front. -/
theorem placeholdersIn_drop {a : List Char} (ha : '@' ∉ a) (b : List Char) :
    placeholdersIn (a ++ b) = placeholdersIn b := by
  induction a with
  | nil => rfl
  | cons c a ih =>
    rw [List.mem_cons, not_or] at ha
    rw [List.cons_append, placeholdersIn_cons_eq, read?_of_ne (Ne.symm ha.1), ih ha.2]
    rfl

/-- Cutting a text at its placeholders finds all of them. -/
theorem cut_eq (skip : Nat) (cs : List Char) :
    (Marker.css.cut skip cs).2.map (·.1) = placeholdersIn (cs.drop skip) := by
  fun_induction Marker.cut Marker.css skip cs with
  | case1 => simp
  | case2 skip c rest ih => simpa using ih
  -- a placeholder: its digits are one field, and what follows them is cut further
  | case3 c rest digits hread text more hcut ih =>
    obtain ⟨hne, hdigits, tail, htail⟩ := read?_eq_some_iff.1 hread
    have hat : '@' ∉ (placeholderOf digits).tail :=
      Marker.css_startsWith.not_mem_tail ⟨hne, hdigits⟩
    rw [placeholderOf_eq, List.cons_append] at htail
    obtain ⟨-, hrest⟩ := List.cons.inj htail
    -- what is passed over is the rest of the placeholder
    have hlength : Marker.css.length digits - 1 = (placeholderOf digits).tail.length := by
      rw [List.length_tail, placeholderOf, Marker.length, List.length_append, List.length_append]
      rfl
    rw [hcut, hlength, ← hrest, List.drop_left] at ih
    rw [List.drop_zero, placeholdersIn_cons_eq, hread, ← hrest,
      placeholdersIn_drop hat, ← ih]
    rfl
  | case4 c rest hread text more hcut ih =>
    rw [hcut] at ih
    rw [List.drop_zero, placeholdersIn_cons_eq, hread, ih]
    rfl

/-- The placeholders that are replaced in a text. -/
theorem placeholders_eq (s : String) :
    Marker.css.placeholders s = placeholdersIn s.toList := cut_eq 0 s.toList

end Reflow.Stylesheet
