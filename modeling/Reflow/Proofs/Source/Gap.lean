import Reflow.Source.Gap

/-!
# The search for the next character comes to rest

The loop that passes blanks, comments and line ends has a bound on its rounds.  On the text every
round moves forwards and stays on it, so the bound is never what ends the loop.

## Key results

- `settle_rests`: a step that moves forwards up to a limit settles
- `passGap_nextCharacterIndex`: another round of the search changes nothing
-/

namespace Reflow.Source

variable {s : Source} {i : Int}

/-- A step leads forwards from an index on the text to one on the text. -/
def Forwards (s : Source) (step : Index → Index) : Prop :=
  ∀ i : Int, 0 ≤ i → i ≤ s.size → ∃ j, step (some i) = some j ∧ i ≤ j ∧ j ≤ s.size

/-- One step forward after another goes forward. -/
theorem Forwards.comp {f g : Index → Index} (hf : s.Forwards f) (hg : s.Forwards g) :
    s.Forwards fun i => f (g i) := by
  intro i h0 hi
  obtain ⟨j, hj, hij, hj'⟩ := hg i h0 hi
  obtain ⟨k, hk, hjk, hk'⟩ := hf j (by omega) hj'
  exact ⟨k, by simp only [hj, hk], by omega, hk'⟩

/-- How many characters lie ahead of an index. -/
theorem length_charsFrom (s : Source) (h0 : 0 ≤ i) :
    (s.charsFrom i).length = s.size - i.toNat := by
  rw [charsFrom, offsetOf, if_pos h0, suffix_eq, List.length_drop, size_eq]

/-- Where a text starts with another, there is room for it. -/
theorem length_le_of_startsWith {text start : List Char} (h : Text.startsWith text start = true) :
    start.length ≤ text.length := by
  induction start generalizing text with
  | nil => exact Nat.zero_le _
  | cons c start ih =>
    cases text with
    | nil => simp [Text.startsWith, Text.dropLeading?] at h
    | cons d text =>
      simp only [Text.startsWith, Text.dropLeading?] at h ih
      split at h
      · simpa using ih h
      · cases h

/-- A comment ends within the text. -/
theorem blockCommentEnd?_le {text : List Char} {n : Nat} (h : blockCommentEnd? text = some n) :
    n ≤ text.length := by
  fun_induction blockCommentEnd? text generalizing n with
  | case1 => cases h
  | case2 => simp [← Option.some.inj h]
  | case3 c rest _ ih =>
    obtain ⟨m, hm, rfl⟩ := Option.map_eq_some_iff.1 h
    simpa using ih hm

/-- What is passed of the text from an index on ends on the text. -/
theorem takeWhile_charsFrom_le (s : Source) (p : Char → Bool) (h0 : 0 ≤ i) (hi : i ≤ s.size) :
    i + ((s.charsFrom i).takeWhile p).length ≤ s.size := by
  have hle := (List.takeWhile_sublist p (l := s.charsFrom i)).length_le
  rw [length_charsFrom s h0] at hle
  omega

/-- To skip spaces goes forward. -/
theorem skipSpaces_forwards (s : Source) : s.Forwards (s.skipSpaces · false) := by
  intro i h0 hi
  have hle := takeWhile_charsFrom_le s Text.isBlank h0 hi
  refine ⟨i + ((s.charsFrom i).takeWhile Text.isBlank).length, ?_, by omega, hle⟩
  have hon : ¬(i < -1 ∨ (s.size : Int) < i) := by omega
  have hneg : ¬i < 0 := by omega
  simp [skipSpaces, skipWhile, charsFrom, offsetOf, hon, hneg, h0]

/-- To skip a comment within a line goes forward. -/
theorem skipInlineComment_forwards (s : Source) : s.Forwards s.skipInlineComment := by
  intro i h0 hi
  simp only [skipInlineComment]
  -- a block comment, which is passed if it ends
  split
  · split
    next n hn =>
      have hle := blockCommentEnd?_le hn
      have hoffset : s.offsetOf (i + 2) = (i + 2).toNat := if_pos (by omega)
      have hroom := length_le_of_startsWith ‹_›
      rw [length_charsFrom s (by omega)] at hle hroom
      rw [List.length_cons, List.length_cons] at hroom
      exact ⟨_, rfl, by omega, by omega⟩
    next => exact ⟨i, rfl, Int.le_refl i, hi⟩
  · -- anything else stays where it is
    exact ⟨i, rfl, Int.le_refl i, hi⟩

/-- To skip a comment up to the end of the line goes forward. -/
theorem skipTrailingComment_forwards (s : Source) : s.Forwards s.skipTrailingComment := by
  intro i h0 hi
  simp only [skipTrailingComment]
  split
  · rw [charsAlong, if_pos h0]
    exact ⟨_, rfl, by omega, takeWhile_charsFrom_le s _ h0 hi⟩
  · exact ⟨i, rfl, Int.le_refl i, hi⟩

/-- To skip a line end goes forward. -/
theorem skipNewline_forwards (s : Source) : s.Forwards (s.skipNewline · false) := by
  intro i h0 hi
  simp only [skipNewline, Bool.false_eq_true, if_false]
  -- two characters, one, or none
  split
  · have hroom := length_le_of_startsWith ‹_›
    rw [length_charsFrom s h0, List.length_cons, List.length_cons] at hroom
    exact ⟨_, rfl, by omega, by omega⟩
  · split
    next hnewline =>
      obtain ⟨c, hc, -⟩ := (Option.any_eq_true _ _).1 hnewline
      -- the character lies in the source
      have hlt : i < s.size := by
        rw [charAt?, if_pos h0, at?, suffix_eq, List.head?_drop] at hc
        have := (List.getElem?_eq_some_iff.1 hc).1
        rw [size_eq]
        omega
      exact ⟨_, rfl, by omega, by omega⟩
    next => exact ⟨i, rfl, Int.le_refl i, hi⟩

/-- A step that moves forwards settles when it has more rounds than the text has places left. -/
theorem settle_rests {step : Index → Index} (hstep : s.Forwards step) (n : Nat) (h0 : 0 ≤ i)
    (hi : i ≤ s.size) (hn : s.size < i + n) :
    ∃ j, settle step n (some i) = some j ∧ step (some j) = some j ∧ i ≤ j ∧ j ≤ s.size := by
  induction n generalizing i with
  | zero => omega
  | succ n ih =>
    obtain ⟨j, hj, hij, hj'⟩ := hstep i h0 hi
    rw [settle]
    split
    next heq => exact ⟨i, rfl, heq, Int.le_refl i, hi⟩
    next hne =>
      -- a round that changes something moves forwards
      have hlt : i < j := by
        rcases Int.lt_or_eq_of_le hij with hlt | rfl
        · exact hlt
        · exact absurd hj hne
      rw [hj]
      obtain ⟨k, hk, hrest, hjk, hk'⟩ := ih (i := j) (by omega) hj' (by omega)
      exact ⟨k, hk, hrest, by omega, hk'⟩

/-- One round of the search for the next character: past blanks, a block comment, a line comment and
a line end. -/
def passGap (s : Source) (i : Index) : Index :=
  s.skipNewline (s.skipTrailingComment (s.skipInlineComment (s.skipSpaces i false))) false

/-- So one round over a gap goes forward. -/
theorem passGap_forwards (s : Source) : s.Forwards s.passGap :=
  s.skipNewline_forwards.comp
    (s.skipTrailingComment_forwards.comp (s.skipInlineComment_forwards.comp s.skipSpaces_forwards))

/-- The next character is found by rounds until nothing changes; the size of the source bounds how
many are needed. -/
theorem nextCharacterIndex_eq (s : Source) (i : Int) :
    s.nextCharacterIndex i = settle s.passGap (s.size + 2) (some i) := rfl

/-- The search ends because a further round changes nothing, not because its rounds are used up. -/
theorem passGap_nextCharacterIndex (s : Source) (h0 : 0 ≤ i) :
    s.passGap (s.nextCharacterIndex i) = s.nextCharacterIndex i := by
  rw [nextCharacterIndex_eq]
  by_cases hi : i ≤ s.size
  · obtain ⟨j, hj, hrest, -⟩ := settle_rests s.passGap_forwards (s.size + 2) h0 hi (by omega)
    rw [hj, hrest]
  · -- behind the text the first round gives up
    have hnone : s.passGap (some i) = none := by
      have hoff : i < -1 ∨ (s.size : Int) < i := by omega
      simp [passGap, skipSpaces, skipWhile, hoff, skipInlineComment, skipTrailingComment,
        skipNewline]
    have hsettle : settle s.passGap (s.size + 2) (some i) = none := by
      have hstay : s.passGap none = none := rfl
      simp [settle, hnone, hstay]
    rw [hsettle]
    rfl

end Reflow.Source
