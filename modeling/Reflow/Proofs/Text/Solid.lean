import Mathlib.Data.List.DropRight
import Mathlib.Data.List.Induction
import Mathlib.Data.List.TakeWhile
import Reflow.Text.Trim

/-!
# Text without its white space

Formatting moves text around by adding and taking white space.  What it must keep are the solid
characters of a text: those that are no white space.

## Key results

- `intercalate_splitAt`: a text is made of its lines
- `splitAt_append`: the lines of two texts with a line end between them
- `getElem?_splitAt`: the line that a place in a text lies in
- `solid_dropWhile`, `solid_trimChars`: dropping white space leaves the solid characters
- `startsWith_iff`: a text starts with its prefixes
- `Tight.trimChars_eq`: trimming finds what stands between white space
-/

namespace Reflow.Text

/-- What is taken ends before the first character that does not satisfy the condition. -/
theorem takeWhile_append_eq_left {p : Char → Bool} {a b : List Char} (ha : ∀ c ∈ a, p c = true)
    (hb : ∀ c ∈ b.head?, p c = false) : (a ++ b).takeWhile p = a := by
  have hnone : b.takeWhile p = [] := by
    cases b with
    | nil => rfl
    | cons c b => rw [List.takeWhile_cons_of_neg (by simp [hb c rfl])]
  rw [List.takeWhile_append_of_pos ha, hnone, List.append_nil]

/-- The characters of a text that are no white space. -/
def solid (cs : List Char) : List Char := cs.filter fun c => !isSpace c

@[simp] theorem solid_nil : solid [] = [] := rfl

@[simp] theorem solid_append (a b : List Char) : solid (a ++ b) = solid a ++ solid b :=
  List.filter_append ..

/-- Nothing solid is left of white space only. -/
theorem solid_eq_nil {cs : List Char} : solid cs = [] ↔ ∀ c ∈ cs, isSpace c = true := by
  simp [solid]

/-- White space in front does not matter. -/
theorem solid_cons_of_isSpace {c : Char} (h : isSpace c = true) (cs : List Char) :
    solid (c :: cs) = solid cs := by
  simp [solid, h]

/-- A character in front may be taken by itself. -/
theorem solid_cons (c : Char) (cs : List Char) : solid (c :: cs) = solid [c] ++ solid cs := by
  rw [← solid_append, List.singleton_append]

/-- The solid characters of a reversed text are the reversed ones. -/
theorem solid_reverse (cs : List Char) : solid cs.reverse = (solid cs).reverse :=
  List.filter_reverse ..

/-- A text, cut in two, keeps its solid characters. -/
theorem solid_take_append_drop (n : Nat) (cs : List Char) :
    solid (cs.take n) ++ solid (cs.drop n) = solid cs := by
  rw [← solid_append, List.take_append_drop]

/-- Dropping white space in front leaves the solid characters. -/
theorem solid_dropWhile {p : Char → Bool} (hp : ∀ c, p c = true → isSpace c = true)
    (cs : List Char) : solid (cs.dropWhile p) = solid cs := by
  induction cs with
  | nil => rfl
  | cons c cs ih =>
    by_cases h : p c = true
    · rw [List.dropWhile_cons_of_pos h, ih, solid_cons_of_isSpace (hp c h)]
    · rw [List.dropWhile_cons_of_neg h]

/-- What comes first behind white space is the first solid character. -/
theorem head?_dropWhile_isSpace (cs : List Char) : (cs.dropWhile isSpace).head? = (solid cs).head? := by
  induction cs with
  | nil => rfl
  | cons c cs ih =>
    by_cases h : isSpace c = true
    · rw [List.dropWhile_cons_of_pos h, ih, solid_cons_of_isSpace h]
    · rw [List.dropWhile_cons_of_neg h]
      simp [solid, h]

/-- Dropping white space at the end keeps the solid characters. -/
theorem solid_dropEndWhile {p : Char → Bool} (hp : ∀ c, p c = true → isSpace c = true)
    (cs : List Char) : solid (dropEndWhile p cs) = solid cs := by
  rw [dropEndWhile, solid_reverse, solid_dropWhile hp, solid_reverse, List.reverse_reverse]

/-- So does trimming. -/
theorem solid_trimChars (cs : List Char) : solid (trimChars cs) = solid cs := by
  rw [trimChars, trimBy, solid_dropEndWhile fun _ h => h, solid_dropWhile fun _ h => h]

/-- Blanks are white space. -/
theorem isSpace_of_isBlank {c : Char} (h : isBlank c = true) : isSpace c = true := by
  simp only [isBlank, Bool.or_eq_true, beq_iff_eq] at h
  rcases h with rfl | rfl <;> rfl

/-! ## Starts -/

/-- A start is dropped if the text starts with it. -/
theorem dropLeading?_eq_some_iff {start cs rest : List Char} :
    dropLeading? start cs = some rest ↔ cs = start ++ rest := by
  -- induction on what is dropped, character by character
  induction start generalizing cs with
  | nil => simp [dropLeading?]
  | cons p start ih =>
    cases cs with
    | nil => simp [dropLeading?]
    | cons c cs =>
      rw [dropLeading?]
      split
      · rename_i hpc
        simp [ih, hpc]
      · rename_i hpc
        simp [Ne.symm hpc]

/-- A text starts with its prefixes. -/
theorem startsWith_iff {cs start : List Char} : startsWith cs start = true ↔ start <+: cs := by
  rw [startsWith, Option.isSome_iff_exists]
  exact exists_congr fun rest => dropLeading?_eq_some_iff.trans eq_comm

/-! ## Lines -/

/-- A text has a first line, if only an empty one. -/
theorem splitAt_ne_nil (separator : Char) (cs : List Char) : splitAt separator cs ≠ [] := by
  cases cs with
  | nil => simp [splitAt]
  | cons c cs =>
    rw [splitAt]
    split
    · simp
    · split <;> simp

/-- The pieces of two texts with a separator between them. -/
theorem splitAt_append (separator : Char) (a b : List Char) :
    splitAt separator (a ++ separator :: b) = splitAt separator a ++ splitAt separator b := by
  induction a with
  | nil => simp [splitAt]
  | cons c a ih =>
    rw [List.cons_append, splitAt, splitAt, ih]
    split
    · rfl
    · cases h : splitAt separator a with
      | nil => exact absurd h (splitAt_ne_nil separator a)
      | cons piece pieces => rfl

/-- A text is made of its pieces and the separators between them. -/
theorem intercalate_splitAt (separator : Char) (cs : List Char) :
    [separator].intercalate (splitAt separator cs) = cs := by
  -- induction on the text, whose first piece gets each character
  induction cs with
  | nil => rfl
  | cons c cs ih =>
    rw [splitAt]
    cases h : splitAt separator cs with
    | nil => exact absurd h (splitAt_ne_nil separator cs)
    | cons piece pieces =>
      rw [h] at ih
      -- the separator starts a new piece
      split
      · rename_i hc
        rw [List.intercalate_cons_cons, ih, hc]
        rfl
      · cases pieces with
        | nil => simpa [List.intercalate] using ih
        | cons q pieces =>
          rw [List.intercalate_cons_cons] at ih ⊢
          simp [← ih]

/-- There is one part more than there are separators. -/
theorem length_splitAt (separator : Char) (cs : List Char) :
    (splitAt separator cs).length = cs.count separator + 1 := by
  -- induction on the text
  induction cs with
  | nil => rfl
  | cons c cs ih =>
    rw [splitAt]
    -- the separator starts a new piece
    split
    · rename_i hc
      rw [List.length_cons, ih, hc, List.count_cons_self]
    · rename_i hc
      cases h : splitAt separator cs with
      | nil => exact absurd h (splitAt_ne_nil separator cs)
      | cons piece pieces =>
        rw [List.count_cons_of_ne hc, ← ih, h]
        rfl

/-- The first part goes up to the first separator. -/
theorem head?_splitAt (separator : Char) (cs : List Char) :
    (splitAt separator cs).head? = some (cs.takeWhile (· != separator)) := by
  -- induction on the text, of which the first piece ends at the separator
  induction cs with
  | nil => rfl
  | cons c cs ih =>
    rw [splitAt]
    split
    · rename_i hc
      simp [hc]
    · rename_i hc
      cases h : splitAt separator cs with
      | nil => exact absurd h (splitAt_ne_nil separator cs)
      | cons piece pieces =>
        rw [h] at ih
        simpa [hc] using ih

/-- The piece that a place in a text lies in: what stands before the place since the last separator,
and behind it up to the next one. -/
theorem getElem?_splitAt (separator : Char) (a b : List Char) :
    (splitAt separator (a ++ b))[a.count separator]? =
      some ((a.reverse.takeWhile (· != separator)).reverse ++ b.takeWhile (· != separator)) := by
  -- induction on what stands in front, from its end
  induction a using List.reverseRecOn generalizing b with
  | nil => simpa [List.head?_eq_getElem?] using head?_splitAt separator b
  | append_singleton a c ih =>
    rw [List.append_assoc, List.singleton_append]
    -- at a separator the next piece starts
    by_cases hc : c = separator
    · subst hc
      have hbehind : (splitAt c a).length ≤ (a ++ [c]).count c := by simp [length_splitAt]
      have hfirst : (splitAt c b)[0]? = some (b.takeWhile (· != c)) := by
        rw [← List.head?_eq_getElem?, head?_splitAt]
      rw [splitAt_append, List.getElem?_append_right hbehind]
      simpa [length_splitAt] using hfirst
    · -- any other character is part of the piece
      rw [List.count_append, List.count_singleton, if_neg (by simpa using hc), Nat.add_zero, ih]
      simp [hc]

/-- The last piece is what stands behind the last separator. -/
theorem getLast?_splitAt (separator : Char) (cs : List Char) :
    (splitAt separator cs).getLast? = some (cs.reverse.takeWhile (· != separator)).reverse := by
  have hplace := getElem?_splitAt separator cs []
  rw [List.append_nil, List.takeWhile_nil, List.append_nil] at hplace
  rw [List.getLast?_eq_getElem?, length_splitAt, Nat.add_sub_cancel, hplace]

/-- Without a separator the text is the only part. -/
theorem splitAt_of_not_mem {separator : Char} {cs : List Char} (h : separator ∉ cs) :
    splitAt separator cs = [cs] := by
  induction cs with
  | nil => rfl
  | cons c cs ih =>
    obtain ⟨hc, hcs⟩ := not_or.1 (List.mem_cons.not.1 h)
    rw [splitAt, if_neg (Ne.symm hc), ih hcs]

/-- A text is one piece, or its first piece is what stands in front of its first separator. -/
theorem splitAt_cases (separator : Char) (cs : List Char) :
    (separator ∉ cs ∧ splitAt separator cs = [cs]) ∨
      ∃ first rest, cs = first ++ separator :: rest ∧ separator ∉ first ∧
        splitAt separator cs = first :: splitAt separator rest := by
  by_cases hmem : separator ∈ cs
  · obtain ⟨first, rest, rfl, hfirst⟩ := List.eq_append_cons_of_mem hmem
    refine .inr ⟨first, rest, rfl, hfirst, ?_⟩
    rw [splitAt_append, splitAt_of_not_mem hfirst, List.singleton_append]
  · exact .inl ⟨hmem, splitAt_of_not_mem hmem⟩

/-- What follows the last separator does not change the pieces in front of it. -/
theorem dropLast_splitAt_append {separator : Char} (cs : List Char) {back : List Char}
    (h : separator ∉ back) :
    (splitAt separator (cs ++ back)).dropLast = (splitAt separator cs).dropLast := by
  by_cases hmem : separator ∈ cs
  · -- the separator that counts is the last one
    obtain ⟨last, front, hcs, hlast⟩ := List.eq_append_cons_of_mem (List.mem_reverse.2 hmem)
    have hsplit : cs = front.reverse ++ separator :: last.reverse := by
      simpa using congrArg List.reverse hcs
    have hlast' : separator ∉ last.reverse := by simpa using hlast
    have hlastBack : separator ∉ last.reverse ++ back := by simp [hlast, h]
    rw [hsplit, List.append_assoc, List.cons_append, splitAt_append, splitAt_append,
      splitAt_of_not_mem hlastBack, splitAt_of_not_mem hlast', List.dropLast_concat,
      List.dropLast_concat]
  · rw [splitAt_of_not_mem hmem, splitAt_of_not_mem (by simp [hmem, h])]
    rfl

/-- White space between the parts of a text is not solid. -/
theorem solid_intercalate {separator : List Char} (h : solid separator = [])
    (parts : List (List Char)) : solid (separator.intercalate parts) = parts.flatMap solid := by
  induction parts with
  | nil => rfl
  | cons part parts ih =>
    cases parts with
    | nil => simp [List.intercalate]
    | cons next parts =>
      rw [List.intercalate_cons_cons, solid_append, solid_append, h, ih]
      simp

/-- The solid characters of a text are those of its lines. -/
theorem flatMap_solid_splitAt (cs : List Char) : (splitAt '\n' cs).flatMap solid = solid cs := by
  have hend : solid ['\n'] = [] := rfl
  rw [← solid_intercalate hend, intercalate_splitAt]

/-! ## Trimming -/

section Trimming

variable {cs front back : List Char}

/-- A text is cut at the white space around it. -/
theorem trimChars_split (cs : List Char) : ∃ front back,
    cs = front ++ (trimChars cs ++ back) ∧ (∀ c ∈ front, isSpace c = true) ∧
      ∀ c ∈ back, isSpace c = true := by
  refine ⟨cs.takeWhile isSpace, (cs.dropWhile isSpace).rtakeWhile isSpace, ?_,
    fun c hc => List.mem_takeWhile_imp hc, fun c hc => List.mem_rtakeWhile_imp hc⟩
  have hback : trimChars cs ++ (cs.dropWhile isSpace).rtakeWhile isSpace =
      cs.dropWhile isSpace := List.rdropWhile_append_rtakeWhile
  rw [hback, List.takeWhile_append_dropWhile]

/-- No white space stands at the ends of the text. -/
structure Tight (cs : List Char) : Prop where
  head : ∀ c ∈ cs.head?, isSpace c = false
  last : ∀ c ∈ cs.getLast?, isSpace c = false

/-- What stands between white space is found by trimming. -/
theorem Tight.trimChars_eq (h : Tight cs) (hfront : ∀ c ∈ front, isSpace c = true)
    (hback : ∀ c ∈ back, isSpace c = true) : trimChars (front ++ (cs ++ back)) = cs := by
  show ((front ++ (cs ++ back)).dropWhile isSpace).rdropWhile isSpace = cs
  -- the white space in front goes
  rw [List.dropWhile_append_of_pos hfront]
  cases cs with
  | nil =>
    have hnone : ([] ++ back).dropWhile isSpace = [] := List.dropWhile_eq_nil_iff.2 hback
    rw [hnone]
    rfl
  -- the first and the last character are not dropped
  | cons c cs =>
    have hhead : ((c :: cs) ++ back).dropWhile isSpace = (c :: cs) ++ back :=
      List.dropWhile_cons_of_neg (by simp [h.head c rfl])
    have hlast : (c :: cs).rdropWhile isSpace = c :: cs := by
      rw [List.rdropWhile_eq_self_iff]
      intro hne
      simp [h.last _ (List.getLast?_eq_some_getLast hne)]
    -- the white space behind goes
    have hreverse : ∀ c ∈ back.reverse, isSpace c = true := fun c hc =>
      hback c (List.mem_reverse.1 hc)
    rw [hhead, List.rdropWhile, List.reverse_append, List.dropWhile_append_of_pos hreverse]
    exact hlast

/-- A tight text is trimmed already. -/
theorem Tight.trimChars (h : Tight cs) : trimChars cs = cs := by
  have hnone : ∀ c ∈ [], isSpace c = true := nofun
  simpa using h.trimChars_eq hnone hnone

/-- A trimmed text is tight. -/
theorem tight_trimChars (cs : List Char) : Tight (Text.trimChars cs) := by
  constructor
  · -- the first character is what the dropping in front stopped at
    intro c hc
    have hne : cs.dropWhile isSpace ≠ [] := by
      intro hnil
      simp [Text.trimChars, trimBy, hnil, dropEndWhile] at hc
    have hprefix : Text.trimChars cs <+: cs.dropWhile isSpace := List.rdropWhile_prefix isSpace _
    have hhead := List.head_dropWhile_not isSpace hne
    obtain ⟨back, hback⟩ := hprefix
    obtain ⟨rest, hrest⟩ := List.head?_eq_some_iff.1 hc
    rw [hrest] at hback
    simp only [← hback] at hhead
    simpa using hhead
  · -- the last one is what the dropping behind stopped at
    intro c hc
    have hne : Text.trimChars cs ≠ [] := by
      rintro hnil
      rw [hnil] at hc
      cases hc
    have hlast : ¬isSpace ((Text.trimChars cs).getLast hne) = true :=
      List.rdropWhile_last_not isSpace (cs.dropWhile isSpace) hne
    have hc : (Text.trimChars cs).getLast? = some c := hc
    rw [List.getLast?_eq_some_getLast hne] at hc
    rw [← Option.some.inj hc]
    simpa using hlast

/-- White space in front of a text does not matter when it is trimmed. -/
theorem trimChars_front (hfront : ∀ c ∈ front, isSpace c = true) (cs : List Char) :
    trimChars (front ++ cs) = trimChars cs := by
  obtain ⟨front', back, hsplit, hfront', hback⟩ := trimChars_split cs
  have hall : ∀ c ∈ front ++ front', isSpace c = true := List.forall_mem_append.2 ⟨hfront, hfront'⟩
  have heq := (tight_trimChars cs).trimChars_eq hall hback
  rwa [List.append_assoc, ← hsplit] at heq

/-- A space in front is trimmed. -/
theorem trimChars_space (cs : List Char) : trimChars (' ' :: cs) = trimChars cs := by
  have hspace : ∀ c ∈ [' '], isSpace c = true := List.forall_mem_singleton.2 rfl
  exact trimChars_front hspace cs

/-- White space behind a text does not matter when it is trimmed. -/
theorem trimChars_back (hback : ∀ c ∈ back, isSpace c = true) (cs : List Char) :
    trimChars (cs ++ back) = trimChars cs := by
  obtain ⟨front, back', hsplit, hfront, hback'⟩ := trimChars_split cs
  have hall : ∀ c ∈ back' ++ back, isSpace c = true := List.forall_mem_append.2 ⟨hback', hback⟩
  have heq := (tight_trimChars cs).trimChars_eq hfront hall
  rwa [← List.append_assoc (trimChars cs), ← List.append_assoc front, ← hsplit] at heq

/-- Trimming twice is trimming once. -/
theorem trimChars_trimChars (cs : List Char) :
    Text.trimChars (Text.trimChars cs) = Text.trimChars cs := (tight_trimChars cs).trimChars

end Trimming

/-! ## Repeated texts -/

/-- What is in a repeated text is in the text. -/
theorem mem_of_mem_repeated {n : Nat} {text : String} {c : Char} (h : c ∈ (repeated n text).toList) :
    c ∈ text.toList := by
  simp only [repeated, String.toList_join, List.mem_flatMap] at h
  obtain ⟨part, hpart, hc⟩ := h
  exact List.eq_of_mem_replicate hpart ▸ hc

/-- A repeated character is a list of that character. -/
theorem toList_repeated {text : String} {c : Char} (h : text.toList = [c]) (n : Nat) :
    (repeated n text).toList = List.replicate n c := by
  rw [repeated, String.toList_join, List.flatMap_replicate, h]
  simp

end Reflow.Text
