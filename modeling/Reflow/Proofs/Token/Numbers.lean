import Mathlib.Data.List.TakeWhile
import Reflow.Proofs.Text.Solid
import Reflow.Proofs.Token.Alone

/-!
# The extent of numbers

A number in base ten has digits before and behind a point, and an exponent.  There can be
underscores between the digits, and an `n` at the end.  All other numbers have a mark behind a
leading zero and reach as far as a word does.

## Key results

- `Numeral`: the parts of a number in base ten
- `numberReach_numeral`, `numeral_of_numberReach`: a number is measured as far as its parts reach
- `readsAlone_numeral`, `readsAlone_based`: such a text is one number for the scanner
- `Scan.next_number`: every number of the scanner is such a text
-/

namespace Reflow

/-- An exponent: its mark, its sign and its digits. -/
structure Exponent where
  mark : Char
  sign : Option Char
  digits : List Char

/-- An exponent as it is written. -/
def Exponent.chars (e : Exponent) : List Char := e.mark :: (e.sign.toList ++ e.digits)

/-- A number in base ten: the digits before its point, those behind it if there is a point, and its
exponent. -/
structure Numeral where
  whole : List Char
  fraction : Option (List Char)
  exponent : Option Exponent

/-- A fraction as it is written. -/
def pointed : Option (List Char) → List Char
  | none => []
  | some digits => '.' :: digits

/-- An exponent, if there is one, as it is written. -/
def powered : Option Exponent → List Char
  | none => []
  | some e => e.chars

/-- A number as it is written. -/
def Numeral.chars (n : Numeral) : List Char := n.whole ++ (pointed n.fraction ++ powered n.exponent)

/-- Digits with underscores between them. -/
def DigitRun (digit : Char → Bool) (cs : List Char) : Prop := ∀ c ∈ cs, digit c = true ∨ c = '_'

/-- There is a first digit. -/
def LeadsWithDigit (digit : Char → Bool) (cs : List Char) : Prop :=
  ∃ d rest, cs = d :: rest ∧ digit d = true

/-- The exponent is written with its marks and digits. -/
structure Exponent.Valid (digit : Char → Bool) (e : Exponent) : Prop where
  mark : e.mark = 'e' ∨ e.mark = 'E'
  sign : ∀ c ∈ e.sign, c = '+' ∨ c = '-'
  digits : DigitRun digit e.digits
  start : LeadsWithDigit digit e.digits

/-- The number is written with digits, and starts with one or with a point before one. -/
structure Numeral.Valid (digit : Char → Bool) (n : Numeral) : Prop where
  whole : DigitRun digit n.whole
  fraction : ∀ ds ∈ n.fraction, DigitRun digit ds
  exponent : ∀ e ∈ n.exponent, e.Valid digit
  start : LeadsWithDigit digit n.whole ∨
    n.whole = [] ∧ ∃ ds ∈ n.fraction, LeadsWithDigit digit ds

/-- A number in base sixteen, eight or two: a zero, the mark of the base and a word. -/
inductive Based : List Char → Prop
  | mk {mark : Char} {word : List Char}
    (hmark : ['x', 'X', 'o', 'O', 'b', 'B'].contains mark = true)
    (hword : ∀ c ∈ word, Text.isWordChar c = true) : Based ('0' :: mark :: word)

section

variable {digit digit' : Char → Bool}

/-- A run of digits is one for every wider class of digits. -/
theorem DigitRun.mono {cs : List Char} (h : DigitRun digit cs)
    (hdigit : ∀ c ∈ cs, digit c = true → digit' c = true) : DigitRun digit' cs :=
  fun c hc => (h c hc).imp_left (hdigit c hc)

/-- So is what leads with a digit. -/
theorem LeadsWithDigit.mono {cs : List Char} (h : LeadsWithDigit digit cs)
    (hdigit : ∀ c ∈ cs, digit c = true → digit' c = true) : LeadsWithDigit digit' cs := by
  obtain ⟨d, rest, rfl, hd⟩ := h
  exact ⟨d, rest, rfl, hdigit d List.mem_cons_self hd⟩

/-- The whole part is in the numeral. -/
theorem Numeral.mem_chars_of_mem_whole {n : Numeral} {c : Char} (hc : c ∈ n.whole) :
    c ∈ n.chars := List.mem_append_left _ hc

/-- So is the fraction. -/
theorem Numeral.mem_chars_of_mem_fraction {n : Numeral} {ds : List Char} (hds : ds ∈ n.fraction)
    {c : Char} (hc : c ∈ ds) : c ∈ n.chars := by
  rw [Numeral.chars, Option.mem_def.1 hds]
  exact List.mem_append_right _ (List.mem_append_left _ (List.mem_cons_of_mem _ hc))

/-- So is the exponent. -/
theorem Numeral.mem_chars_of_mem_exponent {n : Numeral} {e : Exponent} (he : e ∈ n.exponent)
    {c : Char} (hc : c ∈ e.digits) : c ∈ n.chars := by
  rw [Numeral.chars, Option.mem_def.1 he]
  exact List.mem_append_right _ (List.mem_append_right _ (List.mem_cons_of_mem _
    (List.mem_append_right _ hc)))

/-- Which characters are digits matters for those of the number only. -/
theorem Numeral.Valid.mono {n : Numeral} (h : n.Valid digit)
    (hdigit : ∀ c ∈ n.chars, digit c = true → digit' c = true) : n.Valid digit' where
  whole := h.whole.mono fun c hc => hdigit c (n.mem_chars_of_mem_whole hc)
  fraction ds hds := (h.fraction ds hds).mono fun c hc =>
    hdigit c (n.mem_chars_of_mem_fraction hds hc)
  exponent e he :=
    -- the digits of the exponent are characters of the numeral
    have hmem : ∀ c ∈ e.digits, digit c = true → digit' c = true := fun c hc =>
      hdigit c (n.mem_chars_of_mem_exponent he hc)
    ⟨(h.exponent e he).mark, (h.exponent e he).sign, (h.exponent e he).digits.mono hmem,
      (h.exponent e he).start.mono hmem⟩
  start := h.start.imp (·.mono fun c hc => hdigit c (n.mem_chars_of_mem_whole hc))
    fun ⟨hnil, ds, hds, hlead⟩ => ⟨hnil, ds, hds, hlead.mono fun c hc =>
      hdigit c (n.mem_chars_of_mem_fraction hds hc)⟩

end

/-! ## Runs of digits -/

variable {cs rest run : List Char} {n : Nat}

/-- No digit and no underscore is next. -/
def EndsDigits (cs : List Char) : Prop := ∀ c ∈ cs.head?, Text.isDigit c = false ∧ c ≠ '_'

/-- Digits end at the end. -/
theorem endsDigits_nil : EndsDigits [] := nofun

/-- They end at a character that is neither a digit nor the separator. -/
theorem endsDigits_cons {c : Char} (hdigit : Text.isDigit c = false) (hc : c ≠ '_')
    (cs : List Char) : EndsDigits (c :: cs) := by
  rintro d ⟨⟩
  exact ⟨hdigit, hc⟩

/-- A run of digits is measured up to what ends it. -/
theorem digitsLength_append (hrun : DigitRun Text.isDigit run) (hrest : EndsDigits rest) :
    digitsLength (run ++ rest) = run.length := by
  rw [digitsLength, Text.takeWhile_append_eq_left]
  · exact fun c hc => by simpa using hrun c hc
  · exact fun c hc => by simpa using hrest c hc

/-- The run of digits at the start of a text. -/
def digitsOf (cs : List Char) : List Char := cs.takeWhile fun c => Text.isDigit c || c == '_'

/-- What follows the run of digits at the start of a text. -/
def behindDigits (cs : List Char) : List Char := cs.dropWhile fun c => Text.isDigit c || c == '_'

/-- The digits and what stands behind them are the whole. -/
theorem digitsOf_append_behindDigits (cs : List Char) : digitsOf cs ++ behindDigits cs = cs :=
  List.takeWhile_append_dropWhile

/-- Digits are as many as they are long. -/
theorem length_digitsOf (cs : List Char) : (digitsOf cs).length = digitsLength cs := rfl

/-- What is left without the digits is what stands behind them. -/
theorem drop_digitsLength (cs : List Char) : cs.drop (digitsLength cs) = behindDigits cs := by
  have hsplit : (digitsOf cs ++ behindDigits cs).drop (digitsOf cs).length = behindDigits cs :=
    List.drop_left
  rwa [digitsOf_append_behindDigits, length_digitsOf] at hsplit

/-- The digits at the start are a run. -/
theorem digitRun_digitsOf (cs : List Char) : DigitRun Text.isDigit (digitsOf cs) := by
  intro c hc
  simpa using List.mem_takeWhile_imp hc

/-- It leads with a digit where the text does. -/
theorem LeadsWithDigit.digitsOf (h : LeadsWithDigit Text.isDigit cs) :
    LeadsWithDigit Text.isDigit (digitsOf cs) := by
  obtain ⟨d, rest, rfl, hd⟩ := h
  have hfirst : (Text.isDigit d || d == '_') = true := by rw [hd, Bool.true_or]
  exact ⟨d, _, List.takeWhile_cons_of_pos hfirst, hd⟩

/-- To take as many characters as pass a test is to take those. -/
theorem take_takeWhile_length (p : Char → Bool) (cs : List Char) :
    cs.take (cs.takeWhile p).length = cs.takeWhile p :=
  (List.prefix_iff_eq_take.1 (List.takeWhile_prefix p)).symm

/-- A text starts with a digit where it leads with one. -/
theorem startsWithDigit_iff : startsWithDigit cs = true ↔ LeadsWithDigit Text.isDigit cs := by
  cases cs with
  | nil => simp [startsWithDigit, LeadsWithDigit]
  | cons c cs => simp [startsWithDigit, LeadsWithDigit]

/-! ## From the parts to the measure -/

section

variable {x : Option Exponent} {f : Option (List Char)}

/-- The mark of an exponent is no digit, no separator and no point. -/
theorem Exponent.Valid.isDigit_mark {e : Exponent} (he : e.Valid Text.isDigit) :
    Text.isDigit e.mark = false ∧ e.mark ≠ '_' ∧ e.mark ≠ '.' := by
  rcases he.mark with h | h <;> rw [h] <;> decide

/-- Digits end in front of an exponent, or of what follows if there is none. -/
theorem endsDigits_powered (hx : ∀ e ∈ x, e.Valid Text.isDigit) (hrest : EndsDigits rest) :
    EndsDigits (powered x ++ rest) := by
  cases x with
  | none => exact hrest
  | some e =>
    obtain ⟨hdigit, hunderscore, -⟩ := (hx e rfl).isDigit_mark
    exact endsDigits_cons hdigit hunderscore _

/-- They end in front of a fraction, too. -/
theorem endsDigits_pointed (f : Option (List Char)) (hrest : EndsDigits rest) :
    EndsDigits (pointed f ++ rest) := by
  cases f with
  | none => exact hrest
  | some ds => exact endsDigits_cons (by decide) (by decide) _

/-- A fraction is as long as it is written, if no digits follow it. -/
theorem fractionLength_append (hf : ∀ ds ∈ f, DigitRun Text.isDigit ds) (hrest : EndsDigits rest)
    (hpoint : rest.head? ≠ some '.') : fractionLength (pointed f ++ rest) = (pointed f).length := by
  cases f with
  | none =>
    rw [pointed, List.nil_append]
    unfold fractionLength
    split
    · exact absurd rfl hpoint
    · rfl
  | some ds =>
    rw [pointed, List.cons_append, fractionLength, digitsLength_append (hf ds rfl) hrest,
      List.length_cons, Nat.add_comm]

/-- So is an exponent. -/
theorem exponentLength_append (hx : ∀ e ∈ x, e.Valid Text.isDigit) (hrest : EndsDigits rest)
    (hnone : exponentLength rest = 0) :
    exponentLength (powered x ++ rest) = (powered x).length := by
  -- the digits of the exponent stop where the rest begins
  cases x with
  | none => exact hnone
  | some e =>
    obtain ⟨d, ds, hds, hd⟩ := (hx e rfl).start
    have hrun : DigitRun Text.isDigit (d :: ds) := hds ▸ (hx e rfl).digits
    have htail : DigitRun Text.isDigit ds := fun c hc => hrun c (List.mem_cons_of_mem _ hc)
    -- without a sign the first digit stands behind the mark, with one behind the sign
    cases hsign : e.sign with
    | none =>
      simp only [powered, Exponent.chars, hsign, hds, Option.toList_none, List.nil_append,
        List.cons_append, exponentLength]
      rw [if_pos (by simpa using (hx e rfl).mark), if_pos (by simp [hd]),
        digitsLength_append htail hrest,
        List.length_cons, List.length_cons, Nat.add_comm]
    | some sign =>
      have hsigned := (hx e rfl).sign sign hsign
      simp only [powered, Exponent.chars, hsign, hds, Option.toList_some, List.cons_append,
        List.nil_append, exponentLength]
      rw [if_pos (by simpa using (hx e rfl).mark), if_pos (by simp [hsigned, startsWithDigit, hd]),
        ← List.cons_append, digitsLength_append hrun hrest, List.length_cons, List.length_cons,
        List.length_cons, Nat.add_comm]
      rfl

end

/-- The characters of a number in base ten. -/
theorem Numeral.Valid.mem_chars {m : Numeral} {digit : Char → Bool} (h : m.Valid digit) {c : Char}
    (hc : c ∈ m.chars) : digit c = true ∨ c ∈ ['_', '.', 'e', 'E', '+', '-'] := by
  -- a run of digits has digits and underscores
  have hrun : ∀ {ds : List Char}, DigitRun digit ds → c ∈ ds →
      digit c = true ∨ c ∈ ['_', '.', 'e', 'E', '+', '-'] := fun hds hmem =>
    (hds c hmem).imp_right fun heq => List.mem_cons.2 (.inl heq)
  rw [Numeral.chars, List.mem_append, List.mem_append] at hc
  -- the character is one of the whole part, of the fraction or of the exponent
  rcases hc with hc | hc | hc
  · exact hrun h.whole hc
  · cases hf : m.fraction with
    | none => exact absurd (hf ▸ hc) List.not_mem_nil
    | some ds =>
      rw [hf] at hc
      rcases List.mem_cons.1 hc with rfl | hc
      · exact .inr (by decide)
      · exact hrun (h.fraction ds hf) hc
  · cases hx : m.exponent with
    | none => exact absurd (hx ▸ hc) List.not_mem_nil
    | some e =>
      have he := h.exponent e hx
      rw [hx] at hc
      rcases List.mem_cons.1 hc with rfl | hc
      · -- the mark is a letter of the list
        rcases he.mark with hmark | hmark <;> rw [hmark] <;> exact .inr (by decide)
      · rcases List.mem_append.1 hc with hc | hc
        · -- the sign is one of two
          rcases he.sign c (by simpa using hc) with rfl | rfl <;> exact .inr (by decide)
        · exact hrun he.digits hc

/-- Numbers in base ten have no mark of another base. -/
theorem prefixedLength?_numeral {m : Numeral} (h : m.Valid Text.isDigit)
    (hrest : rest = [] ∨ rest = ['n']) : prefixedLength? (m.chars ++ rest) = none := by
  unfold prefixedLength?
  split
  · rename_i mark after heq
    -- the mark would be a character of the number, or the `n` behind it
    have hmem : mark ∈ m.chars ++ rest := by rw [heq]; simp
    refine if_neg fun hmark => ?_
    have hnone : ∀ c ∈ ['x', 'X', 'o', 'O', 'b', 'B'],
        Text.isDigit c = false ∧ c ∉ ['_', '.', 'e', 'E', '+', '-'] ∧ c ≠ 'n' :=
      Text.forall_mem_of_all (by decide)
    obtain ⟨hdigit, hother, hn⟩ := hnone mark (List.elem_iff.1 hmark)
    rcases List.mem_append.1 hmem with hmem | hmem
    · rcases h.mem_chars hmem with hmem | hmem
      · exact Bool.false_ne_true (hdigit.symm.trans hmem)
      · exact hother hmem
    · rcases hrest with rfl | rfl
      · cases hmem
      · exact hn (List.mem_singleton.1 hmem)
  · rfl

/-- A number in base ten, with or without an `n` behind it, is measured up to its end. -/
theorem numberReach_numeral {m : Numeral} (h : m.Valid Text.isDigit)
    (hrest : rest = [] ∨ rest = ['n']) :
    numberReach (m.chars ++ rest) = .closed (m.chars ++ rest).length := by
  -- neither an end nor an `n` goes on with a number
  have hends : EndsDigits rest := by
    rcases hrest with rfl | rfl
    · exact endsDigits_nil
    · exact endsDigits_cons (by decide) (by decide) _
  have hnone : exponentLength rest = 0 := by rcases hrest with rfl | rfl <;> rfl
  -- no second point follows the fraction
  have hpoint : (powered m.exponent ++ rest).head? ≠ some '.' := by
    cases hx : m.exponent with
    | none => rcases hrest with rfl | rfl <;> decide
    | some e => exact fun heq => (h.exponent e hx).isDigit_mark.2.2 (Option.some.inj heq)
  -- each part is measured up to where the next one starts
  have hpower := endsDigits_powered h.exponent hends
  have hwhole : digitsLength (m.chars ++ rest) = m.whole.length := by
    rw [Numeral.chars, List.append_assoc, List.append_assoc]
    exact digitsLength_append h.whole (endsDigits_pointed _ hpower)
  have hfraction : fractionLength ((m.chars ++ rest).drop m.whole.length) =
      (pointed m.fraction).length := by
    rw [Numeral.chars, List.append_assoc, List.append_assoc, List.drop_left]
    exact fractionLength_append h.fraction hpower hpoint
  have hexponent : exponentLength ((m.chars ++ rest).drop
      (m.whole.length + (pointed m.fraction).length)) = (powered m.exponent).length := by
    rw [Numeral.chars, List.append_assoc, List.append_assoc, ← List.drop_drop, List.drop_left,
      List.drop_left]
    exact exponentLength_append h.exponent hends hnone
  have hlength : m.whole.length + (pointed m.fraction).length + (powered m.exponent).length =
      m.chars.length := by
    rw [Numeral.chars, List.length_append, List.length_append, Nat.add_assoc]
  -- no prefix is read, and the lengths add up to the whole
  unfold numberReach
  rw [prefixedLength?_numeral h hrest]
  simp only [hwhole, hfraction, hexponent, hlength, List.drop_left]
  rcases hrest with rfl | rfl
  · simp
  · simp

/-- A number with a base reaches to its end. -/
theorem numberReach_based (h : Based cs) : numberReach cs = .closed cs.length := by
  obtain ⟨hmark, hword⟩ := h
  have htake := List.takeWhile_eq_self_iff.2 hword
  rw [numberReach, prefixedLength?, if_pos hmark, htake, List.length_cons, List.length_cons,
    Nat.add_comm]

/-! ## From the measure to the parts -/

/-- What was measured as a fraction. -/
theorem fraction_of_length (cs : List Char) : ∃ f rest, cs = pointed f ++ rest ∧
    (∀ ds ∈ f, DigitRun Text.isDigit ds) ∧ fractionLength cs = (pointed f).length ∧
    ∀ ahead, cs = '.' :: ahead → LeadsWithDigit Text.isDigit ahead →
      ∃ ds ∈ f, LeadsWithDigit Text.isDigit ds := by
  -- case by case through what the text starts with
  unfold fractionLength
  split
  · -- a point: the fraction is all the digits behind it
    rename_i ahead
    refine ⟨some (digitsOf ahead), behindDigits ahead, ?_, ?_, ?_, ?_⟩
    · rw [pointed, List.cons_append, digitsOf_append_behindDigits]
    · rintro ds ⟨⟩
      exact digitRun_digitsOf ahead
    · rw [pointed, List.length_cons, length_digitsOf, Nat.add_comm]
    · rintro _ ⟨⟩ hlead
      exact ⟨_, rfl, hlead.digitsOf⟩
  · -- no point: there is no fraction
    rename_i hother
    exact ⟨none, cs, rfl, by simp, rfl, fun ahead heq => absurd heq (hother ahead)⟩

/-- What was measured as an exponent. -/
theorem exponent_of_length (cs : List Char) : ∃ x rest, cs = powered x ++ rest ∧
    (∀ e ∈ x, e.Valid Text.isDigit) ∧ exponentLength cs = (powered x).length := by
  -- case by case through what the text starts with
  unfold exponentLength
  split
  · rename_i mark sign ahead
    by_cases hmark : mark = 'e' ∨ mark = 'E'
    · rw [if_pos (by simpa using hmark)]
      -- a digit behind the mark, which has no sign then
      by_cases hdigit : Text.isDigit sign = true
      · refine ⟨some ⟨mark, none, sign :: digitsOf ahead⟩, behindDigits ahead, ?_, ?_, ?_⟩
        · simp [powered, Exponent.chars, digitsOf_append_behindDigits]
        · rintro e ⟨⟩
          refine ⟨hmark, nofun, fun c hc => ?_, ⟨sign, _, rfl, hdigit⟩⟩
          rcases List.mem_cons.1 hc with rfl | hc
          · exact .inl hdigit
          · exact digitRun_digitsOf ahead c hc
        · rw [if_pos (by simp [hdigit]), ← length_digitsOf]
          simp [powered, Exponent.chars]
          omega
      · -- a sign behind the mark, and a digit behind the sign
        by_cases hsigned : (sign = '+' ∨ sign = '-') ∧ startsWithDigit ahead = true
        · refine ⟨some ⟨mark, some sign, digitsOf ahead⟩, behindDigits ahead, ?_, ?_, ?_⟩
          · simp [powered, Exponent.chars, digitsOf_append_behindDigits]
          · rintro e ⟨⟩
            refine ⟨hmark, ?_, digitRun_digitsOf _, (startsWithDigit_iff.1 hsigned.2).digitsOf⟩
            rintro c ⟨⟩
            exact hsigned.1
          · rw [if_pos (by simp [hsigned]), ← length_digitsOf]
            simp [powered, Exponent.chars]
            omega
        · -- neither, so that the mark belongs to what follows
          refine ⟨none, mark :: sign :: ahead, rfl, nofun, ?_⟩
          rw [if_neg (by simpa [hdigit] using hsigned)]
          rfl
    · -- no mark
      refine ⟨none, mark :: sign :: ahead, rfl, nofun, ?_⟩
      rw [if_neg (by simpa using hmark)]
      rfl
  · -- too short for a mark and a digit
    exact ⟨none, cs, rfl, nofun, rfl⟩

/-- What was measured as a number is a number in another base, or one in base ten with or without an
`n` behind it. -/
theorem numeral_of_numberReach {c : Char} {ahead : List Char}
    (hstart : Text.isDigit c = true ∨ c = '.' ∧ startsWithDigit ahead = true)
    (h : numberReach (c :: ahead) = .closed n) :
    Based ((c :: ahead).take n) ∨ ∃ m : Numeral, m.Valid Text.isDigit ∧
      ((c :: ahead).take n = m.chars ∨ (c :: ahead).take n = m.chars ++ ['n']) := by
  unfold numberReach at h
  split at h
  · rename_i k hprefixed
    cases h
    unfold prefixedLength? at hprefixed
    split at hprefixed
    · rename_i mark more heq
      split at hprefixed
      · rename_i hmark
        cases hprefixed
        rw [heq, Nat.add_comm, List.take_succ_cons, List.take_succ_cons, take_takeWhile_length]
        exact .inl (.mk hmark fun c hc => List.mem_takeWhile_imp hc)
      · cases hprefixed
    · cases hprefixed
  · -- without a prefix the three lengths that are added up are those of the parts of a number
    right
    obtain ⟨f, afterFraction, hpoint, hf, hflength, hfstart⟩ :=
      fraction_of_length (behindDigits (c :: ahead))
    obtain ⟨x, rest, hpower, hx, hxlength⟩ := exponent_of_length afterFraction
    let m : Numeral := ⟨digitsOf (c :: ahead), f, x⟩
    have hchars : c :: ahead = m.chars ++ rest := by
      rw [Numeral.chars, List.append_assoc, List.append_assoc, ← hpower, ← hpoint]
      exact (digitsOf_append_behindDigits _).symm
    have hstarts : LeadsWithDigit Text.isDigit m.whole ∨
        m.whole = [] ∧ ∃ ds ∈ m.fraction, LeadsWithDigit Text.isDigit ds := by
      rcases hstart with hdigit | ⟨rfl, hahead⟩
      · exact .inl (LeadsWithDigit.digitsOf ⟨c, ahead, rfl, hdigit⟩)
      · exact .inr ⟨rfl, hfstart ahead rfl (startsWithDigit_iff.1 hahead)⟩
    have hfraction : (c :: ahead).drop (digitsLength (c :: ahead) + (pointed f).length) =
        afterFraction := by
      rw [← List.drop_drop, drop_digitsLength, hpoint, List.drop_left]
    have hlength : digitsLength (c :: ahead) + (pointed f).length + (powered x).length =
        m.chars.length := by
      rw [Numeral.chars, List.length_append, List.length_append, Nat.add_assoc]
      rfl
    have hn : n = m.chars.length + if rest.head? = some 'n' then 1 else 0 := by
      have hrest : (c :: ahead).drop m.chars.length = rest := by rw [hchars, List.drop_left]
      simp only [drop_digitsLength, hflength, hfraction, hxlength, hlength, hrest] at h
      split at h
      · split at h <;> cases h
        rfl
      · cases h
        rfl
    refine ⟨m, ⟨digitRun_digitsOf _, hf, hx, hstarts⟩, ?_⟩
    rw [hchars, hn]
    -- the `n` is measured with the number but is none of its parts
    by_cases hbig : rest.head? = some 'n'
    · obtain ⟨more, rfl⟩ := List.head?_eq_some_iff.1 hbig
      refine .inr ?_
      rw [if_pos hbig, List.take_length_add_append, List.take_succ_cons, List.take_zero]
    · refine .inl ?_
      rw [if_neg hbig, Nat.add_zero, List.take_left]

/-! ## Numbers of the scanner -/

/-- What starts a number starts nothing else. -/
theorem number_first {c : Char} {ahead : List Char}
    (h : Text.isDigit c = true ∨ c = '.' ∧ startsWithDigit ahead = true) :
    c.toNat ≠ 0 ∧ isNameStart c = false ∧ isTokenSpace c = false ∧ c ≠ '/' := by
  -- a digit is no letter, no white space and no slash, and a point is none of them either
  rcases h with hdigit | ⟨rfl, -⟩
  · have hname : isNameStart c = false := by
      rw [Bool.eq_false_iff]
      intro hname
      rw [not_isDigit_of_isNameStart hname] at hdigit
      cases hdigit
    have hspace : ∀ d ∈ [' ', '\t', '\n', '\r', '\x0b', '\x0c', '\u00a0', '\ufeff', '\u2028',
        '\u2029'], Text.isDigit d = false := Text.forall_mem_of_all (by decide)
    refine ⟨?_, hname, ?_, ?_⟩
    · intro hzero
      have hnul : c = '\x00' := Char.toNat_inj.1 hzero
      rw [hnul] at hdigit
      exact absurd hdigit (by decide)
    · rw [isTokenSpace, Bool.eq_false_iff]
      intro hc
      rw [hspace c (by simpa using hc)] at hdigit
      cases hdigit
    · rintro rfl
      exact absurd hdigit (by decide)
  · decide

/-- A text that is measured as a number up to its end is one number. -/
theorem readsAlone_number {c : Char} {ahead : List Char}
    (hstart : Text.isDigit c = true ∨ c = '.' ∧ startsWithDigit ahead = true)
    (hreach : numberReach (c :: ahead) = .closed (c :: ahead).length) :
    ReadsAlone .script .number (String.ofList (c :: ahead)) := by
  refine Scan.readsAlone_of_take nofun ?_
  have hrest := Scanner.rest_start (String.ofList (c :: ahead))
  rw [String.toList_ofList] at hrest ⊢
  -- the scanner stands for any that has the number before it
  generalize Scanner.start (.ofString (String.ofList (c :: ahead))) = s at hrest ⊢
  obtain ⟨hnul, hname, hspace, hslash⟩ := number_first hstart
  -- nothing is skipped in front of the number
  have htrivia : triviaOf s.rest = [] := by
    rw [hrest]
    exact triviaOf_eq_nil hspace fun hc => absurd hc hslash
  have hfirst : (Text.isDigit c || (decide (c = '.') && startsWithDigit ahead)) = true := by
    simpa using hstart
  show Scan.nextScript s = _
  rw [Scan.nextScript_of_trivia htrivia, Scan.scriptToken, Scan.get_bind_apply, hrest]
  dsimp only
  rw [if_neg hnul, hname, if_neg Bool.false_ne_true, if_pos hfirst, hreach, Scan.takeReach]

/-- How a number in base ten starts. -/
theorem Numeral.Valid.first {m : Numeral} (h : m.Valid Text.isDigit) (rest : List Char) :
    ∃ c ahead, m.chars ++ rest = c :: ahead ∧
      (Text.isDigit c = true ∨ c = '.' ∧ startsWithDigit ahead = true) := by
  obtain ⟨d, ds, hwhole, hd⟩ | ⟨hwhole, ds, hfraction, d, more, rfl, hd⟩ := h.start
  · refine ⟨d, ds ++ (pointed m.fraction ++ powered m.exponent) ++ rest, ?_, .inl hd⟩
    rw [Numeral.chars, hwhole]
    rfl
  · refine ⟨'.', d :: more ++ powered m.exponent ++ rest, ?_, .inr ⟨rfl, hd⟩⟩
    rw [Numeral.chars, hwhole, Option.mem_def.1 hfraction]
    rfl

/-- A number in base ten is one number, with and without an `n` behind it. -/
theorem readsAlone_numeral {m : Numeral} (h : m.Valid Text.isDigit)
    (hrest : rest = [] ∨ rest = ['n']) :
    ReadsAlone .script .number (String.ofList (m.chars ++ rest)) := by
  obtain ⟨c, ahead, heq, hstart⟩ := h.first rest
  have hreach := numberReach_numeral h hrest
  rw [heq] at hreach ⊢
  exact readsAlone_number hstart hreach

/-- A number in another base is one number. -/
theorem readsAlone_based (h : Based cs) : ReadsAlone .script .number (String.ofList cs) := by
  have hreach := numberReach_based h
  cases h
  exact readsAlone_number (.inl (by decide)) hreach

/-- In every mode a number is one in another base, or one in base ten with or without an `n`. -/
theorem Scan.next_number {mode : ScanMode} {s s' : Scanner} {t : Token}
    (h : Scan.next mode s = (.ok t, s')) (ht : t.kind = .number) :
    Based t.text.toList ∨ ∃ m : Numeral, m.Valid Text.isDigit ∧
      (t.text.toList = m.chars ∨ t.text.toList = m.chars ++ ['n']) := by
  obtain ⟨c, ahead, n, hstart, hreach, htext⟩ := (Scan.next_measured h).number ht
  rw [htext]
  exact numeral_of_numberReach hstart hreach

end Reflow
