import Reflow.Proofs.Source.Gap
import Reflow.Proofs.Text.Solid
import Reflow.Proofs.Token.Lossless

/-!
# The search for the next character and the scanner

Where a comment goes and where a blank line is kept depends on the character behind a part of the
source.  It is looked for without the scanner, by a search that passes blanks, line ends and comments
over and over until nothing changes.  What it passes is not quite what the scanner passes: of the white
space the search knows spaces, tabs and the four line ends, and a line comment ends for it at every one
of these, while for the scanner it ends at a line feed or a carriage return.

Between two tokens without a line comment that holds one of the other two line ends, the search finds
the second token exactly if all white space there is known to it.  Otherwise it stops at the first
character that is not.

## Key results

- `Source.nextCharacterIndex_of_clear`: the search passes all that it can pass, and nothing else
- `Scan.skipPieces_crosses`: how far the search comes over what the scanner passes over
- `Scan.nextCharacterIndex_finds`: when the search finds the next token
-/

namespace Reflow

namespace Source

variable {s : Source} {n q : Nat} {c : Char} {rest body : List Char}

/-! ### One step of the search -/

/-- The characters from a place on are what lies behind it. -/
theorem charsFrom_natCast (s : Source) (n : Nat) : s.charsFrom n = s.suffix n := by
  rw [charsFrom, offsetOf, if_pos (Int.natCast_nonneg n), Int.toNat_natCast]

/-- A place with a character behind it is not the end. -/
theorem lt_size_of_suffix (h : s.suffix n = c :: rest) : n < s.size := by
  have hlength := congrArg List.length h
  rw [suffix_eq, List.length_drop, List.length_cons, ← size_eq] at hlength
  omega

/-- What lies behind a later place is what is left without the characters between. -/
theorem suffix_add (h : s.suffix n = rest) (k : Nat) : s.suffix (n + k) = rest.drop k := by
  rw [← h, suffix_eq, suffix_eq, List.drop_drop]

/-- Blanks are passed over one by one. -/
theorem skipSpaces_natCast (hn : n ≤ s.size) :
    s.skipSpaces (some n) false =
      some ((n + ((s.suffix n).takeWhile Text.isBlank).length : Nat) : Int) := by
  have hneg : ¬(n : Int) < 0 := by omega
  simp [skipSpaces, skipWhile, hneg, hn]

/-- A blank is passed together with those behind it. -/
theorem skipSpaces_blank (h : s.suffix n = c :: rest) (hc : Text.isBlank c = true) :
    s.skipSpaces (some n) false = s.skipSpaces (some ((n + 1 : Nat) : Int)) false := by
  have hlt := lt_size_of_suffix h
  have hnext : s.suffix (n + 1) = rest := suffix_add h 1
  rw [skipSpaces_natCast (by omega), skipSpaces_natCast (by omega), h, hnext,
    List.takeWhile_cons_of_pos hc, List.length_cons]
  congr 2
  omega

/-- In front of another character the search stays. -/
theorem skipSpaces_stays (h : s.suffix n = c :: rest) (hc : Text.isBlank c = false) :
    s.skipSpaces (some n) false = some (n : Int) := by
  have hlt := lt_size_of_suffix h
  have hnone : ¬Text.isBlank c = true := by simp [hc]
  rw [skipSpaces_natCast (by omega), h, List.takeWhile_cons_of_neg hnone]
  rfl

/-- A comment is passed over as a whole. -/
theorem skipInlineComment_block {k : Nat} (h : s.suffix n = '/' :: '*' :: body)
    (hk : blockCommentEnd? body = some k) :
    s.skipInlineComment (some n) = some ((n + (2 + k) : Nat) : Int) := by
  -- the body stands behind the two characters that open the comment
  have hbody : s.charsFrom ((n : Int) + 2) = body := by
    have hcast : (n : Int) + 2 = ((n + 2 : Nat) : Int) := rfl
    rw [hcast, charsFrom_natCast, suffix_add h 2]
    rfl
  have hoffset : s.offsetOf ((n : Int) + 2) = n + 2 := by
    rw [offsetOf, if_pos (by omega)]
    omega
  -- the comment is skipped to behind its end
  simp [skipInlineComment, charsFrom_natCast, h, hbody, hk, hoffset, Text.startsWith,
    Text.dropLeading?]
  omega

/-- A text that does not start with a delimiter of comments. -/
theorem not_startsWith_delimiter {mark : Char} (hc : c = '/' → rest.head? ≠ some mark) :
    Text.startsWith (c :: rest) ['/', mark] = false := by
  cases rest with
  | nil => simp [Text.startsWith, Text.dropLeading?]
  | cons d rest =>
    by_cases hslash : c = '/'
    · have hd : d ≠ mark := by simpa using hc hslash
      simp [Text.startsWith, Text.dropLeading?, hslash, hd.symm]
    · simp [Text.startsWith, Text.dropLeading?, Ne.symm hslash]

/-- Where no comment stands the search stays. -/
theorem skipInlineComment_stays (h : s.suffix n = c :: rest)
    (hc : c = '/' → rest.head? ≠ some '*') : s.skipInlineComment (some n) = some (n : Int) := by
  simp [skipInlineComment, charsFrom_natCast, h, not_startsWith_delimiter hc]

/-- A comment is passed over up to the end of its line. -/
theorem skipTrailingComment_line (h : s.suffix n = '/' :: '/' :: body) :
    s.skipTrailingComment (some n) =
      some ((n + (2 + (body.takeWhile fun c => !isGapNewline c).length) : Nat) : Int) := by
  have hslash : isGapNewline '/' = false := by decide
  simp [skipTrailingComment, charsAlong, charsFrom_natCast, h, hslash, Text.startsWith,
    Text.dropLeading?]
  omega

/-- Where no comment stands the search stays. -/
theorem skipTrailingComment_stays (h : s.suffix n = c :: rest)
    (hc : c = '/' → rest.head? ≠ some '/') : s.skipTrailingComment (some n) = some (n : Int) := by
  simp [skipTrailingComment, charsFrom_natCast, h, not_startsWith_delimiter hc]

/-- The character at a place is the first one behind it. -/
theorem charAt?_natCast (h : s.suffix n = c :: rest) : s.charAt? n = some c := by
  rw [charAt?, if_pos (Int.natCast_nonneg n), at?, Int.toNat_natCast, h, List.head?_cons]

/-- A line end is passed; a carriage return takes the line feed behind it along. -/
theorem skipNewline_moves (h : s.suffix n = c :: rest) (hc : isGapNewline c = true) :
    s.skipNewline (some n) false = some ((n + 1 : Nat) : Int) ∨
      (∃ tail, rest = '\n' :: tail) ∧ s.skipNewline (some n) false = some ((n + 2 : Nat) : Int) := by
  by_cases hpair : Text.startsWith (c :: rest) ['\r', '\n'] = true
  · obtain ⟨tail, htail⟩ := Option.isSome_iff_exists.1 hpair
    cases eq_append_of_dropLeading? htail
    exact .inr ⟨⟨tail, rfl⟩, by
      simp [skipNewline, charsFrom_natCast, h, Text.startsWith, Text.dropLeading?]⟩
  · exact .inl (by simp [skipNewline, charsFrom_natCast, h, hpair, charAt?_natCast h, hc])

/-- Where no line ends the search stays. -/
theorem skipNewline_stays (h : s.suffix n = c :: rest) (hc : isGapNewline c = false) :
    s.skipNewline (some n) false = some (n : Int) := by
  have hreturn : c ≠ '\r' := by
    rintro rfl
    exact absurd hc (by decide)
  simp [skipNewline, charsFrom_natCast, h, charAt?_natCast h, hc, Text.startsWith,
    Text.dropLeading?, Ne.symm hreturn]

/-! ### What the search passes -/

/-- From one offset to another there is nothing but what the search passes: blanks, line ends, line
comments up to the first line end, and block comments. -/
inductive Clear (s : Source) : Nat → Nat → Prop
  | done (n : Nat) : Clear s n n
  | blank {n q : Nat} {c : Char} {rest : List Char} (hcs : s.suffix n = c :: rest)
    (hc : Text.isBlank c = true) (h : Clear s (n + 1) q) : Clear s n q
  | newline {n q : Nat} {c : Char} {rest : List Char} (hcs : s.suffix n = c :: rest)
    (hc : isGapNewline c = true) (h : Clear s (n + 1) q) : Clear s n q
  | line {n q : Nat} {body : List Char} (hcs : s.suffix n = '/' :: '/' :: body)
    (h : Clear s (n + (2 + (body.takeWhile fun c => !isGapNewline c).length)) q) : Clear s n q
  | block {n q k : Nat} {body : List Char} (hcs : s.suffix n = '/' :: '*' :: body)
    (hk : blockCommentEnd? body = some k) (h : Clear s (n + (2 + k)) q) : Clear s n q

/-- A line end is no blank. -/
theorem not_isBlank_of_isGapNewline (hc : isGapNewline c = true) : Text.isBlank c = false := by
  simp only [isGapNewline, List.contains_eq_mem, List.mem_cons, List.not_mem_nil, or_false,
    decide_eq_true_eq] at hc
  rcases hc with rfl | rfl | rfl | rfl <;> decide

/-- A blank is no line end. -/
theorem not_isGapNewline_of_isBlank (hc : Text.isBlank c = true) : isGapNewline c = false := by
  cases hnewline : isGapNewline c with
  | false => rfl
  | true => rw [not_isBlank_of_isGapNewline hnewline] at hc; cases hc

/-- A blank starts no comment. -/
theorem ne_slash_of_isBlank (hc : Text.isBlank c = true) : c ≠ '/' := by
  rintro rfl
  exact absurd hc (by decide)

/-- Nor does a line end. -/
theorem ne_slash_of_isGapNewline (hc : isGapNewline c = true) : c ≠ '/' := by
  rintro rfl
  exact absurd hc (by decide)

/-- The search knows blanks and line ends, but no other white space. -/
def KnownSpace (c : Char) : Prop := Text.isBlank c = true ∨ isGapNewline c = true

instance (c : Char) : Decidable (KnownSpace c) := inferInstanceAs (Decidable (_ ∨ _))

/-- Where a round of the search changes nothing, none of its steps does. -/
structure Rests (s : Source) (q : Nat) : Prop where
  spaces : s.skipSpaces (some q) false = some (q : Int)
  inlineComment : s.skipInlineComment (some q) = some (q : Int)
  trailingComment : s.skipTrailingComment (some q) = some (q : Int)
  newline : s.skipNewline (some q) false = some (q : Int)

/-- Where all steps together stay, each of them stays. -/
theorem rests_of_passGap (hq : q ≤ s.size) (h : s.passGap (some q) = some (q : Int)) :
    s.Rests q := by
  -- every step moves forwards, and all together they come back to where they started
  obtain ⟨i1, h1, hle1, hi1⟩ := s.skipSpaces_forwards q (by omega) (by omega)
  obtain ⟨i2, h2, hle2, hi2⟩ := s.skipInlineComment_forwards i1 (by omega) hi1
  obtain ⟨i3, h3, hle3, hi3⟩ := s.skipTrailingComment_forwards i2 (by omega) hi2
  obtain ⟨i4, h4, hle4, hi4⟩ := s.skipNewline_forwards i3 (by omega) hi3
  have hround : i4 = q := by
    have hpass : s.passGap (some q) = some i4 := by
      beta_reduce at h1 h4
      rw [Source.passGap, h1, h2, h3, h4]
    exact Option.some.inj (hpass.symm.trans h)
  obtain rfl : i1 = q := by omega
  obtain rfl : i2 = q := by omega
  obtain rfl : i3 = q := by omega
  exact ⟨h1, h2, h3, hround ▸ h4⟩

/-- The search rests at a character that it does not know and that starts no comment. -/
theorem rests_at (h : s.suffix q = c :: rest) (hc : ¬KnownSpace c)
    (hcomment : c = '/' → rest.head? ≠ some '/' ∧ rest.head? ≠ some '*') : s.Rests q where
  spaces := skipSpaces_stays h (eq_false_of_ne_true fun hblank => hc (.inl hblank))
  inlineComment := skipInlineComment_stays h fun hslash => (hcomment hslash).2
  trailingComment := skipTrailingComment_stays h fun hslash => (hcomment hslash).1
  newline := skipNewline_stays h (eq_false_of_ne_true fun hnewline => hc (.inr hnewline))

/-- The search rests at the end of the text. -/
theorem rests_at_end (s : Source) : s.Rests s.size where
  spaces := by
    rw [skipSpaces_natCast (Nat.le_refl _), suffix_eq, size_eq, List.drop_length]
    rfl
  inlineComment := by
    have hnil : s.charsFrom s.size = [] := by
      rw [charsFrom_natCast, suffix_eq, size_eq, List.drop_length]
    simp [skipInlineComment, hnil, Text.startsWith, Text.dropLeading?]
  trailingComment := by
    have hnil : s.charsFrom s.size = [] := by
      rw [charsFrom_natCast, suffix_eq, size_eq, List.drop_length]
    simp [skipTrailingComment, hnil, Text.startsWith, Text.dropLeading?]
  newline := by
    have hnil : s.suffix s.size = [] := by
      rw [suffix_eq, size_eq, List.drop_length]
    simp [skipNewline, charsFrom_natCast, charAt?, at?, hnil, Text.startsWith, Text.dropLeading?]

namespace Clear

/-- The way leads forwards. -/
theorem le (h : s.Clear n q) : n ≤ q := by
  induction h with
  | done => exact Nat.le_refl _
  | blank _ _ _ ih => omega
  | newline _ _ _ ih => omega
  | line _ _ ih => omega
  | block _ _ _ ih => omega

/-- The steps of a round lead to a place from where the way is still clear. -/
theorem skipSpaces (h : s.Clear n q) (hq : s.Rests q) :
    ∃ m : Nat, s.skipSpaces (some n) false = some (m : Int) ∧ s.Clear m q := by
  induction h with
  | done => exact ⟨_, hq.spaces, .done _⟩
  | blank hcs hc _ ih =>
    obtain ⟨m, hm, hclear⟩ := ih hq
    exact ⟨m, (skipSpaces_blank hcs hc).trans hm, hclear⟩
  | newline hcs hc h _ =>
    exact ⟨_, skipSpaces_stays hcs (not_isBlank_of_isGapNewline hc), .newline hcs hc h⟩
  | line hcs h _ => exact ⟨_, skipSpaces_stays hcs (by decide), .line hcs h⟩
  | block hcs hk h _ => exact ⟨_, skipSpaces_stays hcs (by decide), .block hcs hk h⟩

/-- A comment on the way does not lead past its end. -/
theorem skipInlineComment (h : s.Clear n q) (hq : s.Rests q) :
    ∃ m : Nat, s.skipInlineComment (some n) = some (m : Int) ∧ s.Clear m q := by
  cases h with
  | done => exact ⟨_, hq.inlineComment, .done _⟩
  | blank hcs hc h =>
    have hslash := ne_slash_of_isBlank hc
    exact ⟨_, skipInlineComment_stays hcs fun he => absurd he hslash, .blank hcs hc h⟩
  | newline hcs hc h =>
    have hslash := ne_slash_of_isGapNewline hc
    exact ⟨_, skipInlineComment_stays hcs fun he => absurd he hslash, .newline hcs hc h⟩
  | line hcs h => exact ⟨_, skipInlineComment_stays hcs (by simp), .line hcs h⟩
  | block hcs hk h => exact ⟨_, skipInlineComment_block hcs hk, h⟩

/-- Nor does one that goes to the end of a line. -/
theorem skipTrailingComment (h : s.Clear n q) (hq : s.Rests q) :
    ∃ m : Nat, s.skipTrailingComment (some n) = some (m : Int) ∧ s.Clear m q := by
  cases h with
  | done => exact ⟨_, hq.trailingComment, .done _⟩
  | blank hcs hc h =>
    have hslash := ne_slash_of_isBlank hc
    exact ⟨_, skipTrailingComment_stays hcs fun he => absurd he hslash, .blank hcs hc h⟩
  | newline hcs hc h =>
    have hslash := ne_slash_of_isGapNewline hc
    exact ⟨_, skipTrailingComment_stays hcs fun he => absurd he hslash, .newline hcs hc h⟩
  | line hcs h => exact ⟨_, skipTrailingComment_line hcs, h⟩
  | block hcs hk h => exact ⟨_, skipTrailingComment_stays hcs (by simp), .block hcs hk h⟩

/-- Nor does a line end. -/
theorem skipNewline (h : s.Clear n q) (hq : s.Rests q) :
    ∃ m : Nat, s.skipNewline (some n) false = some (m : Int) ∧ s.Clear m q := by
  cases h with
  | done => exact ⟨_, hq.newline, .done _⟩
  | blank hcs hc h =>
    exact ⟨_, skipNewline_stays hcs (not_isGapNewline_of_isBlank hc), .blank hcs hc h⟩
  | line hcs h => exact ⟨_, skipNewline_stays hcs (by decide), .line hcs h⟩
  | block hcs hk h => exact ⟨_, skipNewline_stays hcs (by decide), .block hcs hk h⟩
  | newline hcs hc h =>
    obtain hone | ⟨⟨tail, rfl⟩, htwo⟩ := skipNewline_moves hcs hc
    · exact ⟨_, hone, h⟩
    · -- the line feed is passed as well, so it must not be where the way ends
      have hnext : s.suffix (n + 1) = '\n' :: tail := suffix_add hcs 1
      refine ⟨_, htwo, ?_⟩
      cases h with
      | done =>
        have hstays := hq.newline
        obtain hmoves | ⟨-, hmoves⟩ := skipNewline_moves hnext (by decide)
        all_goals
          have := Option.some.inj (hmoves.symm.trans hstays)
          omega
      | newline _ _ h => exact h
      | blank hcs' hc' _ =>
        cases hnext.symm.trans hcs'
        exact absurd hc' (by decide)
      | line hcs' _ => cases hnext.symm.trans hcs'
      | block hcs' _ _ => cases hnext.symm.trans hcs'

/-- So all steps together keep to the way. -/
theorem passGap (h : s.Clear n q) (hq : s.Rests q) :
    ∃ m : Nat, s.passGap (some n) = some (m : Int) ∧ s.Clear m q := by
  obtain ⟨m1, h1, hclear1⟩ := h.skipSpaces hq
  obtain ⟨m2, h2, hclear2⟩ := hclear1.skipInlineComment hq
  obtain ⟨m3, h3, hclear3⟩ := hclear2.skipTrailingComment hq
  obtain ⟨m4, h4, hclear4⟩ := hclear3.skipNewline hq
  exact ⟨m4, by rw [Source.passGap, h1, h2, h3, h4], hclear4⟩

/-- Where the search rests and the way is clear, the way is at its end. -/
theorem eq_of_rests (h : s.Clear n q) (hn : s.Rests n) : n = q := by
  -- by what stands at the place: nothing is passed, or something moves the place on
  cases h with
  | done => rfl
  | @blank _ _ c rest hcs hc _ =>
    have hmoves := hn.spaces
    have hlt := lt_size_of_suffix hcs
    rw [skipSpaces_natCast (by omega), hcs, List.takeWhile_cons_of_pos hc, List.length_cons] at hmoves
    have := Option.some.inj hmoves
    omega
  | newline hcs hc _ =>
    have hstays := hn.newline
    -- the line break is passed in either of two ways
    obtain hmoves | ⟨-, hmoves⟩ := skipNewline_moves hcs hc
    all_goals
      have := Option.some.inj (hmoves.symm.trans hstays)
      omega
  -- a line comment does not rest
  | line hcs _ =>
    have hmoves := hn.trailingComment
    rw [skipTrailingComment_line hcs] at hmoves
    have := Option.some.inj hmoves
    omega
  -- a block comment does not rest
  | block hcs hk _ =>
    have hmoves := hn.inlineComment
    rw [skipInlineComment_block hcs hk] at hmoves
    have := Option.some.inj hmoves
    omega

end Clear

/-- What holds of an index and is kept by a step holds where the step settles. -/
theorem settle_keeps {step : Index → Index} {P : Index → Prop} (hstep : ∀ i, P i → P (step i))
    (k : Nat) {i : Index} (hi : P i) : P (settle step k i) := by
  induction k generalizing i with
  | zero => exact hi
  | succ k ih =>
    rw [settle]
    split
    · exact hi
    · exact ih (hstep i hi)

/-- The search passes all that it can pass, and ends where it rests. -/
theorem nextCharacterIndex_of_clear (h : s.Clear n q) (hq : s.Rests q) (hsize : q ≤ s.size) :
    s.nextCharacterIndex n = some (q : Int) := by
  have hn := h.le
  -- the search keeps to the clear way, as far as it goes
  obtain ⟨m, hm, hclear⟩ : ∃ m : Nat, s.nextCharacterIndex n = some (m : Int) ∧ s.Clear m q := by
    rw [nextCharacterIndex_eq]
    apply settle_keeps (P := fun i => ∃ m : Nat, i = some (m : Int) ∧ s.Clear m q)
    · rintro _ ⟨m, rfl, hclear⟩
      exact hclear.passGap hq
    · exact ⟨n, rfl, h⟩
  -- where it stops it rests, and the end of the way is the only such place
  have hrest := s.passGap_nextCharacterIndex (i := n) (by omega)
  rw [hm] at hrest
  have hmq := hclear.le
  rw [hm, hclear.eq_of_rests (rests_of_passGap (by omega) hrest)]

end Source

namespace Scan

open Source (KnownSpace)

variable {s s' : Scanner}

/-! ### What the scanner passes over, as the search sees it -/

/-- Two classes of which one is part of the other take the same characters if all those that the wider
one takes are in the narrower one. -/
theorem takeWhile_eq_of_forall {p r : Char → Bool} (hr : ∀ c, r c = true → p c = true)
    {cs : List Char} (h : ∀ c ∈ cs.takeWhile p, r c = true) : cs.takeWhile r = cs.takeWhile p := by
  induction cs with
  | nil => rfl
  | cons c cs ih =>
    by_cases hp : p c = true
    · rw [List.takeWhile_cons_of_pos hp] at h ⊢
      obtain ⟨hc, hcs⟩ := List.forall_mem_cons.1 h
      rw [List.takeWhile_cons_of_pos hc, ih hcs]
    · rw [List.takeWhile_cons_of_neg hp, List.takeWhile_cons_of_neg fun hc => hp (hr c hc)]

/-- The search and the scanner agree on where a block comment ends. -/
theorem blockCommentEnd?_eq (cs : List Char) :
    Source.blockCommentEnd? cs = (indexOf? ['*', '/'] cs).map (· + 2) := by
  -- induction on the text, in which the end of the comment is looked for
  fun_induction Source.blockCommentEnd? cs with
  | case1 => rfl
  | case2 => simp [indexOf?, Text.startsWith, Text.dropLeading?]
  | case3 c rest hend ih =>
    -- the two characters do not stand here
    have hstart : Text.startsWith (c :: rest) ['*', '/'] = false := by
      rw [Bool.eq_false_iff, ne_eq, Text.startsWith_iff]
      rintro ⟨tail, htail⟩
      cases htail
      exact hend tail rfl rfl
    rw [indexOf?, hstart, ih]
    cases indexOf? ['*', '/'] rest <;> rfl

/-- Where the search comes to on its way over pieces from one offset to another: over all of them if it
knows all white space there, and else no farther than to the first that it does not know. -/
def Crosses (source : Source) (pieces : List Trivia) (p q : Nat) : Prop :=
  p ≤ q ∧
  ((∀ c, .space c ∈ pieces → KnownSpace c) ∧ source.Clear p q ∨
    ∃ c r, .space c ∈ pieces ∧ ¬KnownSpace c ∧ r < q ∧ source.Rests r ∧ source.Clear p r)

namespace Crosses

variable {source : Source} {piece : Trivia} {pieces : List Trivia} {p m q : Nat}

/-- No white space, and nothing to pass. -/
theorem here (hpieces : ∀ c, .space c ∉ pieces) : Crosses source pieces p p :=
  ⟨Nat.le_refl p, .inl ⟨fun c hc => absurd hc (hpieces c), .done p⟩⟩

/-- A piece that the search passes. -/
theorem passed (hpiece : ∀ c, piece = .space c → KnownSpace c) (hle : p ≤ m)
    (hclear : ∀ r, source.Clear m r → source.Clear p r) (h : Crosses source pieces m q) :
    Crosses source (piece :: pieces) p q := by
  obtain ⟨hmq, h⟩ := h
  constructor
  · omega
  -- known white space all the way, or a piece that is not known on it
  obtain ⟨hknown, hway⟩ | ⟨c, r, hc, hunknown, hr, hrests, hway⟩ := h
  · left
    constructor
    · intro c hc
      obtain heq | hc := List.mem_cons.1 hc
      · exact hpiece c heq.symm
      · exact hknown c hc
    · exact hclear q hway
  · right
    exact ⟨c, r, List.mem_cons_of_mem _ hc, hunknown, hr, hrests, hclear r hway⟩

/-- White space that the search does not know: here it stops. -/
theorem stopped {c : Char} {rest : List Char} (hspace : isTokenSpace c = true)
    (hc : ¬KnownSpace c) (hat : source.suffix p = c :: rest) (hlt : p < q) :
    Crosses source (.space c :: pieces) p q := by
  have hrests : source.Rests p := by
    apply Source.rests_at hat hc
    rintro rfl
    exact absurd hspace (by decide)
  exact ⟨Nat.le_of_lt hlt, .inr ⟨c, p, List.mem_cons_self, hc, hlt, hrests, .done p⟩⟩

end Crosses

/-- A line comment without another line end than those of the scanner ends where the search thinks. -/
theorem lineComment_eq {body : List Char}
    (h : ∀ c ∈ body.takeWhile (fun c => c != '\n' && c != '\r'), Source.isGapNewline c = false) :
    body.takeWhile (fun c => !Source.isGapNewline c) =
      body.takeWhile fun c => c != '\n' && c != '\r' := by
  apply takeWhile_eq_of_forall
  · intro c hc
    -- the line ends of the scanner are among those of the search
    simp only [Source.isGapNewline, List.contains_eq_mem] at hc
    by_cases hfeed : c = '\n'
    · simp [hfeed] at hc
    · by_cases hreturn : c = '\r'
      · simp [hreturn] at hc
      · simp [hfeed, hreturn]
  · intro c hc
    rw [h c hc]
    rfl

/-- The way of the search over what the scanner passes over. -/
theorem skipPieces_crosses {cs : List Char} (hcs : s.rest = cs)
    (hlines : ∀ value, .lineComment value ∈ triviaOf cs →
      ∀ c ∈ value, Source.isGapNewline c = false) (newline : Bool) :
    (Course.free Scanner).Leads (skipPieces newline (triviaOf cs)) s fun _ s' =>
      Crosses s.source (triviaOf cs) s.position.offset s'.position.offset := by
  -- induction on the trivia, each piece of which is one step of the way or stops it
  fun_induction triviaOf cs generalizing s newline with
  | case1 => exact .pure trivial (.here (by simp))
  | case2 c rest hspace ih =>
    have hrest : (s.advance 1).rest = rest := by
      rw [Scanner.rest_advance, hcs]
      rfl
    have hoffset : (s.advance 1).position.offset = s.position.offset + 1 := by
      rw [Scanner.offset_advance, hcs, List.length_cons]
      omega
    have hmore := ih hrest (fun value hv => hlines value (List.mem_cons_of_mem _ hv))
      (newline || isLineTerminator c)
    refine .jump _ rfl trivial (hmore.mono fun _ s' _ hcrosses => ?_)
    rw [hoffset] at hcrosses
    -- white space the search knows is passed as a blank or as a line break
    by_cases hc : KnownSpace c
    · apply hcrosses.passed
      · rintro d ⟨⟩
        exact hc
      · omega
      · intro r hr
        obtain hblank | hnewline := hc
        · exact .blank hcs hblank hr
        · exact .newline hcs hnewline hr
    · -- at other white space the search stops
      exact .stopped hspace hc hcs hcrosses.1
  | case3 body value _ =>
    rename_i ih
    -- the comment ends where the line does
    have hend := lineComment_eq (hlines value List.mem_cons_self)
    have hoffset : ((s.advance (2 + value.length)).record .line value s.position).position.offset =
        s.position.offset + (2 + value.length) := by
      have hlength := (List.takeWhile_sublist (fun c => c != '\n' && c != '\r') (l := body)).length_le
      rw [Scanner.position_record, Scanner.offset_advance, hcs]
      simp only [List.length_cons, value]
      omega
    have hmore := ih (Scanner.rest_lineComment hcs value)
      (fun v hv => hlines v (List.mem_cons_of_mem _ hv)) newline
    refine .jump _ rfl trivial (hmore.mono fun _ s' _ hcrosses => ?_)
    rw [source_record, Scanner.source_advance, hoffset] at hcrosses
    apply hcrosses.passed
    · exact fun _ hc => absurd hc (by simp)
    · omega
    · intro r hr
      apply Source.Clear.line hcs
      rwa [hend]
  | case4 body n hn _ ih =>
    have hoffset : ((s.advance ((body.take n).length + 4)).record .block (body.take n)
        s.position).position.offset = s.position.offset + (2 + (n + 2)) := by
      -- the comment ends where the search finds its end
      have hend : Source.blockCommentEnd? body = some (n + 2) := by
        rw [blockCommentEnd?_eq, hn]
        rfl
      have hroom := Source.blockCommentEnd?_le hend
      rw [Scanner.position_record, Scanner.offset_advance, hcs]
      simp only [List.length_cons, List.length_take]
      omega
    have hmore := ih (Scanner.rest_blockComment hcs hn)
      (fun v hv => hlines v (List.mem_cons_of_mem _ hv)) (newline || (body.take n).contains '\n')
    refine .jump _ rfl trivial (hmore.mono fun _ s' _ hcrosses => ?_)
    rw [source_record, Scanner.source_advance, hoffset] at hcrosses
    apply hcrosses.passed
    · exact fun _ hc => absurd hc (by simp)
    · omega
    · intro r hr
      apply Source.Clear.block hcs _ hr
      rw [blockCommentEnd?_eq, hn]
      rfl
  | case5 => exact .of_error rfl trivial
  | case6 => exact .pure trivial (.here (by simp))
  | case7 => exact .pure trivial (.here (by simp))

/-! ### From one token to the next -/

/-- All white space that the search knows is white space to the scanner. -/
theorem isTokenSpace_of_knownSpace {c : Char} (hc : KnownSpace c) : isTokenSpace c = true := by
  obtain hblank | hnewline := hc
  · simp only [Text.isBlank, Bool.or_eq_true, beq_iff_eq] at hblank
    rcases hblank with rfl | rfl <;> decide
  · simp only [Source.isGapNewline, List.contains_eq_mem, List.mem_cons, List.not_mem_nil, or_false,
      decide_eq_true_eq] at hnewline
    rcases hnewline with rfl | rfl | rfl | rfl <;> decide

/-- The search rests where the scanner has nothing to pass over. -/
theorem rests_of_triviaOf {source : Source} {q : Nat} (hq : q ≤ source.size)
    (h : triviaOf (source.suffix q) = []) : source.Rests q := by
  cases hat : source.suffix q with
  | nil =>
    have hover := List.drop_eq_nil_iff.1 ((source.suffix_eq q).symm.trans hat)
    rw [← Source.size_eq] at hover
    obtain rfl : q = source.size := Nat.le_antisymm hq hover
    exact source.rests_at_end
  | cons c rest =>
    rw [hat, triviaOf.eq_def] at h
    have hspace : ¬isTokenSpace c = true := by
      intro hspace
      simp [hspace] at h
    apply Source.rests_at hat
    · exact fun hc => hspace (isTokenSpace_of_knownSpace hc)
    · rintro rfl
      -- a comment would be passed over, or told to have no end
      constructor
      · intro hline
        obtain ⟨body, rfl⟩ := List.head?_eq_some_iff.1 hline
        simp [hspace] at h
      · intro hblock
        obtain ⟨body, rfl⟩ := List.head?_eq_some_iff.1 hblock
        cases hend : indexOf? ['*', '/'] body <;> simp [hspace, hend] at h

/-- The way of the search up to the next token. -/
theorem nextScript_crosses {u : Token} (hs : s.Tidy) (hp : s.Placed)
    (hlines : ∀ value, .lineComment value ∈ triviaOf s.rest →
      ∀ c ∈ value, Source.isGapNewline c = false) (h : nextScript s = (.ok u, s')) :
    Crosses s.source (triviaOf s.rest) s.position.offset u.span.start.offset ∧
      s.source.Rests u.span.start.offset ∧ u.span.start.offset ≤ s.source.size := by
  -- the token starts where the skipping ended
  have hbind : nextScript s = _ := Course.bind_apply skipTrivia scriptToken s
  cases hrun : skipTrivia s with
  | mk r mid =>
    rw [hrun] at hbind
    cases r with
    | error fault => cases hbind.symm.trans h
    | ok newline =>
      obtain ⟨gap, hgap, -⟩ := (skipTrivia_passes hs hp).ok hrun
      have hcrosses := ((skipPieces_crosses rfl hlines false).ok hrun).2
      obtain ⟨-, hdone⟩ := ((skipPieces_done rfl false).ok hrun).2
      have hstart := ((scriptToken_taken newline).ok (hbind.symm.trans h)).2.start
      -- what is left there is no trivia, so that the search rests
      have hle := hgap.placed.le_size
      rw [Scanner.rest, hgap.source] at hdone
      rw [hgap.source] at hle
      rw [hstart]
      exact ⟨hcrosses, rests_of_triviaOf hle hdone, hle⟩

/-- The search finds the next token if it knows all white space before it, and only then. -/
theorem nextCharacterIndex_of_crosses {source : Source} {pieces : List Trivia} {p q : Nat}
    (h : Crosses source pieces p q) (hrests : source.Rests q) (hq : q ≤ source.size) :
    source.nextCharacterIndex p = some (q : Int) ↔ ∀ c, .space c ∈ pieces → KnownSpace c := by
  obtain ⟨-, ⟨hknown, hclear⟩ | ⟨c, r, hc, hunknown, hr, hstop, hclear⟩⟩ := h
  · exact ⟨fun _ => hknown, fun _ => source.nextCharacterIndex_of_clear hclear hrests hq⟩
  · constructor
    · intro hfound
      have hmoved := source.nextCharacterIndex_of_clear hclear hstop (by omega)
      have := Option.some.inj (hmoved.symm.trans hfound)
      omega
    · exact fun hknown => absurd (hknown c hc) hunknown

/-- A token that was read was found behind the token before it, or from where reading began. -/
theorem readFrom_reads {before after : List Token} {u : Token} (hs : s.Tidy) (hp : s.Placed)
    (h : (readFrom s).tokens = before ++ u :: after) :
    ∃ mid s', mid.Tidy ∧ mid.Placed ∧ mid.source = s.source ∧ nextScript mid = (.ok u, s') ∧
      mid.position.offset = (before.getLast?.map (·.span.stop.offset)).getD s.position.offset := by
  -- induction on the tokens that are read
  fun_induction readFrom s generalizing before with
  -- the fault is no token
  | case1 => simp at h
  -- the end is the only token left
  | case2 s t s' hrun _ =>
    obtain ⟨rfl, ht, rfl⟩ : before = [] ∧ u = t ∧ after = [] := by
      cases before <;> simp_all
    exact ⟨s, s', hs, hp, rfl, ht ▸ hrun, rfl⟩
  | case3 s t s' hrun _ more =>
    rename_i ih
    cases before with
    -- the token is the first one
    | nil =>
      obtain ⟨rfl, -⟩ := List.cons.inj h
      exact ⟨s, s', hs, hp, rfl, hrun, rfl⟩
    -- the token is one of those behind the first
    | cons first before =>
      obtain ⟨rfl, hmore⟩ := List.cons.inj h
      obtain ⟨gap, last, n, hgap, rfl, htakes⟩ := (nextScript_takes hs hp).ok hrun
      obtain ⟨mid, s'', htidy, hplaced, hsource, hnext, hoffset⟩ :=
        ih (Scanner.kept_advance hgap.tidy n).1 (Scanner.placed_advance hgap.placed n) hmore
      refine ⟨mid, s'', htidy, hplaced, hsource.trans hgap.source, hnext, ?_⟩
      rw [hoffset, List.getLast?_cons]
      -- behind no further token the scanner stands where the first one ended
      cases before.getLast? with
      | none => simp [htakes.span]
      | some t => rfl

/-- From the end of a token the search finds the start of the next token exactly if it knows all white
space between them.  A line comment may not hold one of the line ends that the scanner does not end
it at. -/
theorem nextCharacterIndex_finds (source : Source) {before after : List Token} {t u : Token}
    (htokens : (readScript source).tokens = before ++ t :: u :: after)
    (hlines : ∀ value, .lineComment value ∈ triviaOf (source.suffix t.span.stop.offset) →
      ∀ c ∈ value, Source.isGapNewline c = false) :
    source.nextCharacterIndex t.span.stop.offset = some (u.span.start.offset : Int) ↔
      ∀ c, .space c ∈ triviaOf (source.suffix t.span.stop.offset) → KnownSpace c := by
  -- the source, split in front of the second token
  have hsplit : (readFrom (.start source)).tokens = (before ++ [t]) ++ u :: after := by
    rw [List.append_assoc]
    exact htokens
  obtain ⟨mid, s', hs, hp, hsource, hnext, hoffset⟩ :=
    readFrom_reads (s := .start source) trivial (Scanner.start_placed source) hsplit
  -- the second token is read from where the first one ends
  have hstart : mid.position.offset = t.span.stop.offset := by
    rw [hoffset, List.getLast?_concat]
    rfl
  have hrest : mid.rest = source.suffix t.span.stop.offset := by
    rw [Scanner.rest, hsource, hstart]
    rfl
  -- what the search has before it is what the scanner has
  rw [← hrest] at hlines ⊢
  obtain ⟨hcrosses, hrests, hle⟩ := nextScript_crosses hs hp hlines hnext
  rw [hsource, hstart] at hcrosses
  rw [hsource] at hrests hle
  exact nextCharacterIndex_of_crosses hcrosses hrests hle

/-- Two names with two comments between them, and a line end of two characters. -/
def commentedNames : Source := .ofString "a /* b */ // c\r\n\td"

/-- The first of them. -/
def firstName : Token := ⟨.name, "a", ⟨⟨1, 1, 0⟩, ⟨1, 2, 1⟩⟩, false⟩

/-- The second one, on the next line. -/
def secondName : Token := ⟨.name, "d", ⟨⟨2, 2, 17⟩, ⟨2, 3, 18⟩⟩, true⟩

/-- Behind a name the next one is found, past a comment and a line end. -/
theorem nextCharacterIndex_finds_names :
    (readScript commentedNames).tokens.take 2 = [firstName, secondName] ∧
      commentedNames.nextCharacterIndex 1 = some 17 := by
  -- the tokens of the source, and the trivia between the two of them
  have htokens : (readScript commentedNames).tokens = [] ++ firstName :: secondName ::
      [⟨.endOfInput, "", ⟨⟨2, 3, 18⟩, ⟨2, 3, 18⟩⟩, false⟩] := by
    decide +kernel
  have htrivia : triviaOf (commentedNames.suffix firstName.span.stop.offset) =
      [.space ' ', .blockComment " b ".toList, .space ' ', .lineComment " c".toList, .space '\r',
        .space '\n', .space '\t'] := by
    decide +kernel
  -- the line comment holds no white space that ends a gap
  have hlines : ∀ value,
      .lineComment value ∈ triviaOf (commentedNames.suffix firstName.span.stop.offset) →
      ∀ c ∈ value, Source.isGapNewline c = false := by
    intro value hvalue c hc
    rw [htrivia] at hvalue
    obtain rfl : value = " c".toList := by simpa using hvalue
    have hc : c = ' ' ∨ c = 'c' := by simpa using hc
    rcases hc with rfl | rfl <;> rfl
  -- all the white space is known
  have hknown : ∀ c, .space c ∈ triviaOf (commentedNames.suffix firstName.span.stop.offset) →
      KnownSpace c := by
    intro c hc
    rw [htrivia] at hc
    have hc : c = ' ' ∨ c = '\r' ∨ c = '\n' ∨ c = '\t' := by simpa using hc
    rcases hc with rfl | rfl | rfl | rfl <;> decide
  constructor
  · rw [htokens]
    rfl
  · exact (nextCharacterIndex_finds commentedNames htokens hlines).2 hknown

/-- The search does not find the name behind a no-break space. -/
theorem nextCharacterIndex_stops :
    ¬∀ (source : Source) (before after : List Token) (t u : Token),
      (readScript source).fault = none →
      (readScript source).tokens = before ++ t :: u :: after →
        source.nextCharacterIndex t.span.stop.offset = some (u.span.start.offset : Int) := by
  intro h
  have hfound := h (.ofString "a\u00a0b") [] [⟨.endOfInput, "", ⟨⟨1, 4, 3⟩, ⟨1, 4, 3⟩⟩, false⟩]
    ⟨.name, "a", ⟨⟨1, 1, 0⟩, ⟨1, 2, 1⟩⟩, false⟩ ⟨.name, "b", ⟨⟨1, 3, 2⟩, ⟨1, 4, 3⟩⟩, false⟩
    (by decide +kernel) (by decide +kernel)
  revert hfound
  decide +kernel

end Scan

end Reflow
