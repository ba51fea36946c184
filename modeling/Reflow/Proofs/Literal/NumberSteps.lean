import Mathlib.Data.List.DropRight
import Reflow.Literal.Number
import Reflow.Proofs.Literal.NumberValue

/-!
# The steps of printing a number

A number in base ten is rewritten in five steps.  Each of them changes one part of the number and
keeps its value: the sign and the zeros of the exponent, an exponent of zero, the digits before the
point, the zeros at the end of the fraction, and a point without a fraction.

## Key results

- `Numeral.tidied`, `Numeral.powerless`, `Numeral.led`, `Numeral.trimmed`, `Numeral.unpointed`: what
  the steps do to the parts
- `Rewrites`: a step does this to the text, and the value stays
- `Numeral.Lower.printed`: all steps together
- `Numeral.Normal`, `Numeral.Lower.normal_printed`: the numbers that are left as they are
-/

namespace Reflow

open Literal

/-! ## Zeros -/

variable {cs ds zeros : List Char} {n : Numeral} {e : Exponent}

/-- The zeros that are taken are zeros. -/
theorem eq_zero_of_mem_takeWhile {c : Char} (h : c ∈ cs.takeWhile (· == '0')) : c = '0' := by
  simpa using List.mem_takeWhile_imp h

/-- Zeros hold no separator. -/
theorem bare_zeros (h : ∀ c ∈ zeros, c = '0') : bare zeros = zeros :=
  List.filter_eq_self.2 fun c hc => by rw [h c hc]; rfl

/-- Zeros that stand in front of a zero can as well stand behind it. -/
theorem zeros_cons (h : ∀ c ∈ zeros, c = '0') : '0' :: zeros = zeros ++ ['0'] := by
  rw [List.eq_replicate_iff.2 ⟨rfl, h⟩, ← List.replicate_succ, List.replicate_succ']

/-! ## The exponent -/

/-- Dropping zeros in front of digits: what stays starts with a digit, and nothing more can be
dropped. -/
theorem dropZeros?_of_digits (hrun : DigitRun Char.isDigit ds)
    (hlead : LeadsWithDigit Char.isDigit ds) :
    ∃ zeros kept, dropZeros? ds = some kept ∧ ds = zeros ++ kept ∧ (∀ c ∈ zeros, c = '0') ∧
      LeadsWithDigit Char.isDigit kept ∧ dropZeros? kept = some kept := by
  obtain ⟨d, more, rfl, hd⟩ := hlead
  -- the digits, cut behind the leading zeros
  have hsplit : (d :: more).takeWhile (· == '0') ++ (d :: more).dropWhile (· == '0') = d :: more :=
    List.takeWhile_append_dropWhile
  have hstop := List.dropWhile_idempotent (p := fun c : Char => c == '0') (l := d :: more)
  have hzeros : ∀ c ∈ (d :: more).takeWhile (· == '0'), c = '0' := fun c hc =>
    eq_zero_of_mem_takeWhile hc
  unfold dropZeros?
  generalize hkept : (d :: more).dropWhile (· == '0') = kept at hsplit hstop
  -- a digit is left behind the zeros, or none is
  by_cases hdecimal : kept.head?.any Text.isDecimal = true
  · obtain ⟨k, kept, rfl⟩ : ∃ k more, kept = k :: more := by
      cases kept with
      | nil => cases hdecimal
      | cons k more => exact ⟨k, more, rfl⟩
    -- what is left starts with a digit, and no further zero is dropped
    have hk : k.isDigit = true := by
      have hmem : k ∈ d :: more := hsplit ▸ List.mem_append_right _ List.mem_cons_self
      rcases hrun k hmem with hk | rfl
      · exact hk
      · exact absurd (show Text.isDecimal '_' = true from hdecimal) (by decide)
    refine ⟨_, k :: kept, if_pos hdecimal, hsplit.symm, hzeros, ⟨k, kept, rfl, hk⟩, ?_⟩
    simp only [hstop]
    exact if_pos hdecimal
  · -- all digits up to an underscore or the end are zeros, and one of them stays
    have hd0 : d = '0' := by
      by_contra hne
      rw [List.dropWhile_cons_of_neg (by simpa using hne)] at hkept
      subst hkept
      exact hdecimal (Text.digit_char hd).2.1
    subst hd0
    have hmore : ∀ c ∈ more.takeWhile (· == '0'), c = '0' := fun c hc =>
      eq_zero_of_mem_takeWhile hc
    refine ⟨more.takeWhile (· == '0'), '0' :: kept, ?_, ?_, hmore, ⟨'0', kept, rfl, by decide⟩, ?_⟩
    · rw [if_neg hdecimal]
      rfl
    · rw [← hsplit, List.takeWhile_cons_of_pos (by rfl), zeros_cons hmore, List.append_assoc]
      rfl
    · rw [List.dropWhile_cons_of_pos (by rfl), hstop, if_neg hdecimal]
      rfl

/-- The exponent without a plus and without zeros before its digits. -/
def Exponent.tidy (e : Exponent) : Exponent :=
  { e with
    sign := e.sign.filter (· == '-')
    digits := (dropZeros? e.digits).getD e.digits }

/-- The exponent is zero. -/
def Exponent.isZero (e : Exponent) : Bool := e.digits.all (· == '0')

/-- A tidied exponent is an exponent. -/
theorem Exponent.Valid.tidy (h : e.Valid Char.isDigit) : e.tidy.Valid Char.isDigit := by
  obtain ⟨zeros, kept, hkept, hsplit, -, hlead, -⟩ := dropZeros?_of_digits h.digits h.start
  have hdigits : e.tidy.digits = kept := by simp only [Exponent.tidy, hkept, Option.getD_some]
  refine ⟨h.mark, fun c hc => ?_, ?_, hdigits ▸ hlead⟩
  · exact h.sign c (Option.mem_def.2 (Option.filter_eq_some_iff.1 hc).1)
  · rw [hdigits]
    exact fun c hc => h.digits c (hsplit ▸ List.mem_append_right _ hc)

/-- It has the same value. -/
theorem Exponent.Valid.tidy_value (h : e.Valid Char.isDigit) : e.tidy.value = e.value := by
  obtain ⟨zeros, kept, hkept, hsplit, hzeros, -, -⟩ := dropZeros?_of_digits h.digits h.start
  have hdigits : Text.decimalNumber (bare e.tidy.digits) = Text.decimalNumber (bare e.digits) := by
    rw [hsplit, bare_append, bare_zeros hzeros, Text.decimalNumber_zeros_append hzeros]
    simp only [Exponent.tidy, hkept, Option.getD_some]
  have hsign : e.tidy.sign = some '-' ↔ e.sign = some '-' := by
    simp [Exponent.tidy, Option.filter_eq_some_iff]
  simp only [Exponent.value, hdigits, hsign]

/-- It is tidied to itself. -/
theorem Exponent.Valid.tidy_tidy (h : e.Valid Char.isDigit) : e.tidy.tidy = e.tidy := by
  obtain ⟨zeros, kept, hkept, -, -, -, hagain⟩ := dropZeros?_of_digits h.digits h.start
  simp only [Exponent.tidy, hkept, Option.getD_some, hagain, Option.filter_filter, Bool.and_self]

/-- Where there are no line feeds, the end is where nothing follows. -/
theorem isAtEnd_eq_isEmpty (h : '\n' ∉ cs) : isAtEnd cs = cs.isEmpty := by
  have hne : (cs == ['\n']) = false := by
    rw [beq_eq_false_iff_ne]
    rintro rfl
    exact h List.mem_cons_self
  rw [isAtEnd, hne, Bool.or_false]
  cases cs <;> rfl

/-- No line feed stands among digits. -/
theorem DigitRun.newline_not_mem (h : DigitRun Char.isDigit cs) : '\n' ∉ cs :=
  fun hmem => absurd (h _ hmem) (by decide)

/-- No point stands among digits. -/
theorem DigitRun.point_not_mem (h : DigitRun Char.isDigit cs) : '.' ∉ cs :=
  fun hmem => absurd (h _ hmem) (by decide)

/-- How an exponent of zero is found. -/
theorem Exponent.Valid.isZero_eq (h : e.Valid Char.isDigit) :
    (e.digits.head? = some '0' && isAtEnd (e.digits.dropWhile (· == '0'))) = e.isZero := by
  have hnewline : '\n' ∉ e.digits.dropWhile (· == '0') := fun hmem =>
    h.digits.newline_not_mem ((List.dropWhile_suffix _).subset hmem)
  obtain ⟨d, more, hds, -⟩ := h.start
  rw [isAtEnd_eq_isEmpty hnewline, Exponent.isZero, hds]
  by_cases hd : d = '0'
  · rw [hd, List.dropWhile_cons_of_pos (by rfl), Bool.eq_iff_iff]
    simp [List.isEmpty_iff, List.dropWhile_eq_nil_iff]
  · simp [hd]

/-- An exponent of zeros has the value zero. -/
theorem Exponent.value_of_isZero (h : e.isZero = true) : e.value = 0 := by
  have hzeros : ∀ c ∈ e.digits, c = '0' := by simpa [Exponent.isZero] using h
  rw [Exponent.value, bare_zeros hzeros, Text.decimalNumber_zeros hzeros]
  simp

/-! ## The parts of a number -/

/-- What stands before the exponent. -/
def Numeral.mantissa (n : Numeral) : List Char := n.whole ++ pointed n.fraction

/-- A numeral is its mantissa and the exponent behind it. -/
theorem Numeral.chars_eq (n : Numeral) : n.chars = n.mantissa ++ powered n.exponent :=
  (List.append_assoc ..).symm

/-- A number in lower case. -/
structure Numeral.Lower (n : Numeral) : Prop where
  valid : n.Valid Char.isDigit
  mark : ∀ e ∈ n.exponent, e.mark = 'e'

/-- A step does this to a number in lower case, and the value stays. -/
structure Rewrites (step : List Char → List Char) (n m : Numeral) : Prop where
  chars : step n.chars = m.chars
  lower : m.Lower
  value : m.value = n.value

/-- The number with a tidy exponent.  It is found behind digits and points only. -/
def Numeral.tidied (n : Numeral) : Numeral :=
  if '_' ∈ n.mantissa then n else { n with exponent := n.exponent.map Exponent.tidy }

/-- The number without an exponent of zero. -/
def Numeral.powerless (n : Numeral) : Numeral :=
  if '_' ∈ n.mantissa then n else { n with exponent := n.exponent.filter fun e => !e.isZero }

/-- The number with a digit before the point. -/
def Numeral.led (n : Numeral) : Numeral :=
  { n with whole := if n.whole = [] then ['0'] else n.whole }

/-- The number without zeros at the end of its fraction. -/
def Numeral.trimmed (n : Numeral) : Numeral :=
  { n with fraction := n.fraction.map fun ds => if '_' ∈ ds then ds else trimFraction ds }

/-- The number without a bare point. -/
def Numeral.unpointed (n : Numeral) : Numeral :=
  { n with fraction := n.fraction.filter fun ds => !ds.isEmpty }

/-- The mantissa is made of digits, separators and the point. -/
theorem Numeral.Valid.mem_mantissa (h : n.Valid Char.isDigit) {c : Char} (hc : c ∈ n.mantissa) :
    c.isDigit = true ∨ c = '_' ∨ c = '.' := by
  rcases List.mem_append.1 hc with hc | hc
  · exact (h.whole c hc).imp_right .inl
  · cases hf : n.fraction with
    | none => simp [hf, pointed] at hc
    | some ds =>
      rw [hf] at hc
      rcases List.mem_cons.1 hc with rfl | hc
      · exact .inr (.inr rfl)
      · exact (h.fraction ds hf c hc).imp_right .inl

/-- It starts with a digit or with the point. -/
theorem Numeral.Valid.mantissa_start (h : n.Valid Char.isDigit) :
    ∃ c rest, n.mantissa = c :: rest ∧ (c.isDigit = true ∨ c = '.') := by
  obtain ⟨d, ds, hwhole, hd⟩ | ⟨hwhole, ds, hf, -⟩ := h.start
  · exact ⟨d, ds ++ pointed n.fraction, by rw [Numeral.mantissa, hwhole]; rfl, .inl hd⟩
  · refine ⟨'.', ds, ?_, .inr rfl⟩
    rw [Numeral.mantissa, hwhole, Option.mem_def.1 hf]
    rfl

/-- Digits and points, and where they end. -/
theorem splitMantissa?_append {rest : List Char} (hne : ds ≠ [])
    (hds : ∀ c ∈ ds, (Text.isDecimal c || c == '.') = true)
    (hrest : ∀ c ∈ rest.head?, (Text.isDecimal c || c == '.') = false) :
    splitMantissa? (ds ++ rest) = some (ds, rest) := by
  obtain ⟨d, more, rfl⟩ := List.exists_cons_of_ne_nil hne
  -- the digits have no sign in front
  have hsign : ((d :: more) ++ rest).takeWhile (fun c => c == '+' || c == '-') = [] := by
    have hd := hds d List.mem_cons_self
    refine List.takeWhile_cons_of_neg fun hsign => ?_
    simp only [Bool.or_eq_true, beq_iff_eq] at hsign
    rcases hsign with rfl | rfl <;> exact absurd hd (by decide)
  -- the mantissa ends where the digits do
  simp only [splitMantissa?, hsign, List.take_nil, List.length_nil, List.drop_zero,
    Text.takeWhile_append_eq_left hds hrest, List.nil_append, Nat.zero_add, List.drop_left]
  rfl

/-- In lower case the exponent starts with the letter e. -/
theorem Numeral.Lower.head_powered (h : n.Lower) :
    ∀ c ∈ (powered n.exponent).head?, c = 'e' := by
  cases hx : n.exponent with
  | none => nofun
  | some e =>
    rintro c ⟨⟩
    exact h.mark e hx

/-- Without underscores, the exponent is what is found behind the digits. -/
theorem Numeral.Lower.splitMantissa? (h : n.Lower) (hplain : '_' ∉ n.mantissa) :
    splitMantissa? n.chars = some (n.mantissa, powered n.exponent) := by
  rw [n.chars_eq]
  -- the mantissa has a digit, whatever else it has
  have hne : n.mantissa ≠ [] := by
    obtain ⟨c, rest, hstart, -⟩ := h.valid.mantissa_start
    exact hstart ▸ List.cons_ne_nil c rest
  refine splitMantissa?_append hne (fun c hc => ?_) fun c hc => ?_
  · -- a digit or a point goes on, an underscore is excluded
    rcases h.valid.mem_mantissa hc with hc | rfl | rfl
    · rw [(Text.digit_char hc).2.1, Bool.true_or]
    · exact absurd ‹_› hplain
    · rfl
  · -- the exponent starts with its letter
    rw [h.head_powered c hc]
    decide

/-- Otherwise an underscore is found. -/
theorem Numeral.Lower.splitMantissa?_of_mem (h : n.Lower) (hmem : '_' ∈ n.mantissa) :
    ∃ before behind, Literal.splitMantissa? n.chars = some (before, '_' :: behind) := by
  obtain ⟨before, behind, hsplit, hbefore⟩ := List.eq_append_cons_of_mem hmem
  -- no number starts with an underscore, and so there is something in front of the first one
  have hne : before ≠ [] := by
    rintro rfl
    obtain ⟨c, rest, hstart, hc⟩ := h.valid.mantissa_start
    have hunderscore : c = '_' := (List.cons.inj (hstart.symm.trans hsplit)).1
    rw [hunderscore] at hc
    exact absurd hc (by decide)
  refine ⟨before, behind ++ powered n.exponent, ?_⟩
  rw [n.chars_eq, hsplit, List.append_assoc]
  refine splitMantissa?_append hne (fun c hc => ?_) ?_
  · rcases h.valid.mem_mantissa (hsplit ▸ List.mem_append_left _ hc) with hdigit | rfl | rfl
    · rw [(Text.digit_char hdigit).2.1, Bool.true_or]
    · exact absurd hc hbefore
    · rfl
  · rintro c ⟨⟩
    decide

/-! ## The steps -/

/-- A sign in front of digits, as it is found there. -/
theorem Exponent.Valid.sign_cases (h : e.Valid Char.isDigit) :
    e.sign = some '+' ∨ e.sign = some '-' ∨
      e.sign = none ∧ ∃ d more, e.digits = d :: more ∧ d ≠ '+' ∧ d ≠ '-' := by
  cases hs : e.sign with
  | none =>
    obtain ⟨d, more, hds, hd⟩ := h.start
    have hother := (Text.digit_char hd).2.2.2
    simp only [List.mem_cons, not_or] at hother
    exact .inr (.inr ⟨rfl, d, more, hds, hother.2.2.2.2.1, hother.2.2.2.2.2.1⟩)
  | some sign => rcases h.sign sign hs with rfl | rfl <;> simp

/-- The step finds the exponent behind the mantissa and tidies it. -/
theorem tidyExponent_exponent {mantissa : List Char} (h : e.Valid Char.isDigit)
    (hmark : e.mark = 'e') (hsplit : splitMantissa? cs = some (mantissa, e.chars)) :
    tidyExponent cs = mantissa ++ e.tidy.chars := by
  obtain ⟨zeros, kept, hkept, -⟩ := dropZeros?_of_digits h.digits h.start
  have htidy : e.tidy.chars = 'e' :: ((e.sign.filter (· == '-')).toList ++ kept) := by
    simp only [Exponent.tidy, Exponent.chars, hmark, hkept, Option.getD_some]
  rw [htidy, tidyExponent, hsplit, Exponent.chars, hmark]
  obtain hsign | hsign | ⟨hsign, d, more, hds, hplus, hminus⟩ := h.sign_cases
  · simp [hsign, hkept]
  · simp [hsign, hkept, Option.filter]
  · rw [hds] at hkept ⊢
    simp [hsign, hkept, hplus, hminus]

/-- The step drops an exponent of zeros and keeps any other. -/
theorem dropZeroExponent_exponent {mantissa : List Char} (h : e.Valid Char.isDigit)
    (hmark : e.mark = 'e') (hsplit : splitMantissa? cs = some (mantissa, e.chars)) :
    dropZeroExponent cs = if e.isZero then mantissa else cs := by
  -- the exponent is zero if nothing is left behind its zeros
  have hfound : (if (e.digits.head? = some '0' && isAtEnd (e.digits.dropWhile (· == '0'))) = true
      then mantissa ++ e.digits.dropWhile (· == '0') else cs) =
      if e.isZero then mantissa else cs := by
    rw [h.isZero_eq]
    by_cases hzero : e.isZero = true
    · have hnone : e.digits.dropWhile (· == '0') = [] := by
        simpa [Exponent.isZero, List.dropWhile_eq_nil_iff] using hzero
      rw [if_pos hzero, if_pos hzero, hnone, List.append_nil]
    · rw [if_neg hzero, if_neg hzero]
  rw [dropZeroExponent, hsplit, Exponent.chars, hmark, ← hfound]
  -- a sign in front, or a digit
  obtain hsign | hsign | ⟨hsign, d, more, hds, hplus, hminus⟩ := h.sign_cases
  · simp [hsign]
  · simp [hsign]
  · rw [hds]
    simp [hsign, hplus, hminus]

/-- A step that finds another exponent with the same value behind digits and points, and leaves the
number alone if an underscore is found there. -/
theorem Numeral.Lower.rewrites_exponent (h : n.Lower) {step : List Char → List Char}
    {x : Option Exponent}
    (hstop : ∀ {before behind : List Char},
      Literal.splitMantissa? n.chars = some (before, '_' :: behind) → step n.chars = n.chars)
    (hchars : Literal.splitMantissa? n.chars = some (n.mantissa, powered n.exponent) →
      step n.chars = n.mantissa ++ powered x)
    (hx : ∀ e ∈ x, e.Valid Char.isDigit ∧ e.mark = 'e') (hvalue : powerOf x = powerOf n.exponent) :
    Rewrites step n (if '_' ∈ n.mantissa then n else { n with exponent := x }) := by
  -- an underscore stops the step, and the numeral stays
  split
  · rename_i hmem
    obtain ⟨before, behind, hsplit⟩ := h.splitMantissa?_of_mem hmem
    exact ⟨hstop hsplit, h, rfl⟩
  · -- without one the step works on the exponent alone
    rename_i hplain
    refine ⟨?_, ⟨⟨h.valid.whole, h.valid.fraction, fun e he => (hx e he).1, h.valid.start⟩,
      fun e he => (hx e he).2⟩, ?_⟩
    · rw [hchars (h.splitMantissa? hplain), Numeral.chars_eq]
      rfl
    · -- the value is that of the mantissa and of the power
      rw [Numeral.value, Numeral.value, hvalue]
      rfl

/-- To tidy the exponent rewrites the numeral to its tidied form. -/
theorem Numeral.Lower.tidied (h : n.Lower) : Rewrites tidyExponent n n.tidied := by
  -- at an underscore the step stops, and without an exponent nothing is there to do
  refine h.rewrites_exponent (fun hsplit => by rw [tidyExponent, hsplit]; rfl) (fun hsplit => ?_)
    (fun e he => ?_) ?_
  · -- the two forms of an exponent
    cases hx : n.exponent with
    | none =>
      rw [hx] at hsplit
      rw [tidyExponent, hsplit, n.chars_eq, hx]
      rfl
    | some e =>
      rw [hx] at hsplit
      exact tidyExponent_exponent (h.valid.exponent e hx) (h.mark e hx) hsplit
  · obtain ⟨e', he', rfl⟩ := Option.map_eq_some_iff.1 he
    exact ⟨(h.valid.exponent e' he').tidy, h.mark e' he'⟩
  · -- the sign and the zeros do not change the value
    cases hx : n.exponent with
    | none => rfl
    | some e => exact (h.valid.exponent e hx).tidy_value

/-- To drop an exponent of zeros rewrites it to the numeral without. -/
theorem Numeral.Lower.powerless (h : n.Lower) : Rewrites dropZeroExponent n n.powerless := by
  refine h.rewrites_exponent (fun hsplit => by rw [dropZeroExponent, hsplit]; rfl)
    (fun hsplit => ?_) (fun e he => ?_) ?_
  · -- the two forms of an exponent
    cases hx : n.exponent with
    | none =>
      rw [hx] at hsplit
      rw [dropZeroExponent, hsplit, n.chars_eq, hx]
      rfl
    | some e =>
      rw [hx] at hsplit
      rw [dropZeroExponent_exponent (h.valid.exponent e hx) (h.mark e hx) hsplit, n.chars_eq, hx]
      cases hzero : e.isZero <;> simp [Option.filter, hzero, powered]
  · have hmem := (Option.filter_eq_some_iff.1 he).1
    exact ⟨h.valid.exponent e hmem, h.mark e hmem⟩
  · -- a power of zero is a factor of one
    cases hx : n.exponent with
    | none => rfl
    | some e =>
      cases hzero : e.isZero with
      | false => simp [Option.filter, hzero]
      | true => simp [Option.filter, hzero, powerOf, Exponent.value_of_isZero hzero]

/-- The point is followed by its digits, and the rest of the number holds no other point. -/
theorem Numeral.Lower.point_not_mem (h : n.Lower) :
    '.' ∉ n.whole ∧ (∀ ds ∈ n.fraction, '.' ∉ ds) ∧ '.' ∉ powered n.exponent := by
  refine ⟨h.valid.whole.point_not_mem, fun ds hds => (h.valid.fraction ds hds).point_not_mem, ?_⟩
  -- the mark, the sign and the digits are no points
  cases hx : n.exponent with
  | none => exact List.not_mem_nil
  | some e =>
    intro hmem
    rcases List.mem_cons.1 hmem with hmark | hmem
    · rw [h.mark e hx] at hmark
      exact absurd hmark (by decide)
    rcases List.mem_append.1 hmem with hmem | hmem
    · exact absurd ((h.valid.exponent e hx).sign '.' (by simpa using hmem)) (by decide)
    · exact (h.valid.exponent e hx).digits.point_not_mem hmem

/-- A zero in front of the point is added where the whole part is empty. -/
theorem Numeral.Lower.led (h : n.Lower) : Rewrites addLeadingZero n n.led := by
  obtain ⟨d, more, hwhole, hd⟩ | ⟨hwhole, ds, hf, hlead⟩ := h.valid.start
  · have hled : n.led = n := by
      rw [Numeral.led, if_neg (hwhole ▸ List.cons_ne_nil d more)]
    have hother := (Text.digit_char hd).2.2.2
    simp only [List.mem_cons, not_or] at hother
    rw [hled]
    refine ⟨?_, h, rfl⟩
    rw [Numeral.chars, hwhole, List.cons_append]
    simp [addLeadingZero, hother.2.1, hother.2.2.2.2.1, hother.2.2.2.2.2.1]
  · -- the number starts with its point, and a zero in front of that has no value
    have hled : n.led = { n with whole := ['0'] } := by rw [Numeral.led, if_pos hwhole]
    rw [hled]
    refine ⟨?_, ⟨⟨?_, h.valid.fraction, h.valid.exponent, .inl ⟨'0', [], rfl, by decide⟩⟩,
      h.mark⟩, ?_⟩
    · rw [Numeral.chars, Numeral.chars, hwhole, Option.mem_def.1 hf]
      rfl
    · intro c hc
      rw [List.mem_singleton.1 hc]
      exact .inl (by decide)
    · have hdigits : Text.decimalNumber (['0'] ++ n.places) = Text.decimalNumber n.places :=
        Text.decimalNumber_zeros_append (Text.forall_mem_of_all (by decide)) n.places
      rw [Numeral.value, Numeral.value, hwhole]
      show (Text.decimalNumber (['0'] ++ n.places) : ℚ) * _ = Text.decimalNumber n.places * _
      rw [hdigits]
      rfl

/-! ## The fraction -/

/-- Dropping the zeros at the end of a fraction leaves a digit, and nothing more can be dropped. -/
theorem trimFraction_split (ds : List Char) : ∃ zeros, ds = trimFraction ds ++ zeros ∧
    (∀ c ∈ zeros, c = '0') ∧ trimFraction (trimFraction ds) = trimFraction ds ∧
    (trimFraction ds = [] → ds = []) := by
  have hkept : ∀ cs, Text.dropEndWhile (· == '0') cs = cs.rdropWhile (· == '0') := fun _ => rfl
  by_cases hnone : ds.rdropWhile (· == '0') = []
  · -- a fraction of zeros only keeps the first of them
    have hzeros : ∀ c ∈ ds, c = '0' := by simpa using List.rdropWhile_eq_nil_iff.1 hnone
    have hfirst : (ds.take 1).rdropWhile (· == '0') = [] :=
      List.rdropWhile_eq_nil_iff.2 fun c hc => by simp [hzeros c (List.mem_of_mem_take hc)]
    have htrim : trimFraction ds = ds.take 1 := by
      simp only [trimFraction, hkept, hnone, List.isEmpty_nil, if_true]
    rw [htrim]
    refine ⟨ds.drop 1, (List.take_append_drop 1 ds).symm,
      fun c hc => hzeros c (List.mem_of_mem_drop hc), ?_, by simp⟩
    simp only [trimFraction, hkept, hfirst, List.isEmpty_nil, if_true, List.take_take, Nat.min_self]
  · have htrim : trimFraction ds = ds.rdropWhile (· == '0') := by
      simp only [trimFraction, hkept, List.isEmpty_iff, if_neg hnone]
    rw [htrim]
    refine ⟨ds.rtakeWhile (· == '0'), List.rdropWhile_append_rtakeWhile.symm,
      fun c hc => by simpa using List.mem_rtakeWhile_imp hc, ?_, fun h => absurd h hnone⟩
    simp only [trimFraction, hkept, List.rdropWhile_idempotent, List.isEmpty_iff, if_neg hnone]

/-- Characters that are passed over are dropped. -/
theorem trimFractions_skip (k : Nat) (cs : List Char) :
    trimFractions k cs = trimFractions 0 (cs.drop k) := by
  induction k generalizing cs with
  | zero => rfl
  | succ k ih =>
    cases cs with
    | nil => rfl
    | cons c cs => exact ih cs

/-- There are no fractions without a point. -/
theorem trimFractions_append (h : '.' ∉ ds) (cs : List Char) :
    trimFractions 0 (ds ++ cs) = ds ++ trimFractions 0 cs := by
  induction ds with
  | nil => rfl
  | cons c ds ih =>
    rw [List.mem_cons, not_or] at h
    rw [List.cons_append, trimFractions]
    simp [Ne.symm h.1, ih h.2]

/-- Only at a point does the step look at what follows. -/
theorem dropBarePoints_append (h : '.' ∉ ds) (cs : List Char) :
    dropBarePoints (ds ++ cs) = ds ++ dropBarePoints cs := by
  induction ds with
  | nil => rfl
  | cons c ds ih =>
    rw [List.mem_cons, not_or] at h
    rw [List.cons_append, dropBarePoints]
    simp [Ne.symm h.1, ih h.2]

/-- Without a point nothing is trimmed. -/
theorem trimFractions_eq_self (h : '.' ∉ cs) : trimFractions 0 cs = cs := by
  simpa [trimFractions] using trimFractions_append h []

/-- Without a point none is dropped. -/
theorem dropBarePoints_eq_self (h : '.' ∉ cs) : dropBarePoints cs = cs := by
  simpa [dropBarePoints] using dropBarePoints_append h []

/-- Where the exponent starts, or the text ends, the digits are at their end. -/
theorem Numeral.Lower.isAtDigitsEnd (h : n.Lower) : isAtDigitsEnd (powered n.exponent) = true := by
  cases hx : n.exponent with
  | none => rfl
  | some e => simp [Literal.isAtDigitsEnd, powered, Exponent.chars, h.mark e hx]

/-- They are not at a digit or a separator. -/
theorem isAtDigitsEnd_cons {d : Char} (hd : d.isDigit = true ∨ d = '_') (cs : List Char) :
    Literal.isAtDigitsEnd (d :: cs) = false := by
  have hother : d ≠ 'e' ∧ d ≠ '\n' := by
    rcases hd with hd | rfl
    · have hother := (Text.digit_char hd).2.2.2
      simp only [List.mem_cons, not_or] at hother
      exact ⟨hother.2.2.1, hother.2.2.2.2.2.2.2.1⟩
    · decide
  simp [Literal.isAtDigitsEnd, isAtEnd, hother]

/-- A step that finds another fraction. -/
theorem Numeral.Lower.rewrites_fraction (h : n.Lower) (hwhole : n.whole ≠ [])
    {step : List Char → List Char} {f : Option (List Char)}
    (hchars : step n.chars = n.whole ++ (pointed f ++ powered n.exponent))
    (hf : ∀ ds ∈ f, DigitRun Char.isDigit ds)
    (hvalue : Numeral.value { n with fraction := f } = n.value) :
    Rewrites step n { n with fraction := f } where
  chars := hchars
  lower := ⟨⟨h.valid.whole, hf, h.valid.exponent,
    .inl (h.valid.start.resolve_right fun hstart => hwhole hstart.1)⟩, h.mark⟩
  value := hvalue

/-- Zeros at the end of the fraction have no value. -/
theorem Numeral.value_zeros (h : ∀ c ∈ zeros, c = '0') (n : Numeral) (ds : List Char) :
    Numeral.value { n with fraction := some (ds ++ zeros) } =
      Numeral.value { n with fraction := some ds } := by
  have hplaces : bare (ds ++ zeros) = bare ds ++ zeros := by rw [bare_append, bare_zeros h]
  show (Text.decimalNumber (bare n.whole ++ bare (ds ++ zeros)) : ℚ) *
      10 ^ (powerOf n.exponent - (bare (ds ++ zeros)).length) =
    Text.decimalNumber (bare n.whole ++ bare ds) * 10 ^ (powerOf n.exponent - (bare ds).length)
  rw [hplaces, ← List.append_assoc, Text.decimalNumber_append _ zeros,
    Text.decimalNumber_zeros h, Nat.add_zero, List.length_append, Nat.cast_mul, Nat.cast_pow,
    mul_assoc, ← zpow_natCast, Nat.cast_ofNat, ← zpow_add₀ (by norm_num)]
  congr 2
  omega

/-- The digits of a fraction reach up to its first underscore. -/
theorem DigitRun.takeWhile_decimal (h : DigitRun Char.isDigit ds) {rest : List Char}
    (hrest : ∀ c ∈ rest.head?, c = 'e') :
    ('_' ∉ ds → (ds ++ rest).takeWhile Text.isDecimal = ds) ∧
      ('_' ∈ ds → ∃ before behind, (ds ++ rest).takeWhile Text.isDecimal = before ∧
        ds = before ++ '_' :: behind) := by
  -- without an underscore the digits are decimals
  have hdecimal : ∀ cs : List Char, '_' ∉ cs → (∀ c ∈ cs, c ∈ ds) →
      ∀ c ∈ cs, Text.isDecimal c = true := by
    intro cs hcs hsub c hc
    have hdigit := (h c (hsub c hc)).resolve_right fun heq => hcs (heq ▸ hc)
    exact (Text.digit_char hdigit).2.1
  constructor
  · -- all of the digits are taken, because the exponent starts with a letter
    intro hnone
    refine Text.takeWhile_append_eq_left (hdecimal ds hnone fun _ hc => hc) fun c hc => ?_
    rw [hrest c hc]
    decide
  · -- the digits are taken up to the first underscore
    intro hmem
    obtain ⟨before, behind, hsplit, hbefore⟩ := List.eq_append_cons_of_mem hmem
    refine ⟨before, behind, ?_, hsplit⟩
    have hsub : ∀ c ∈ before, c ∈ ds := fun c hc => hsplit ▸ List.mem_append_left _ hc
    rw [hsplit, List.append_assoc]
    refine Text.takeWhile_append_eq_left (hdecimal before hbefore hsub) fun c hc => ?_
    cases hc
    decide

/-- Zeros at the end of the fraction are taken off where there is a whole part. -/
theorem Numeral.Lower.trimmed (h : n.Lower) (hwhole : n.whole ≠ []) :
    Rewrites (trimFractions 0) n n.trimmed := by
  obtain ⟨hnone, hfraction, hpower⟩ := h.point_not_mem
  -- the fraction, as the step leaves it
  refine h.rewrites_fraction hwhole ?_ (fun ds hds => ?_) ?_
  · rw [Numeral.chars, trimFractions_append hnone]
    -- without a fraction the step has no point to start at
    cases hf : n.fraction with
    | none => exact congrArg _ (trimFractions_eq_self hpower)
    | some ds =>
      have hpoint : '.' ∉ ds ++ powered n.exponent := fun hmem =>
        (List.mem_append.1 hmem).elim (hfraction ds hf) hpower
      obtain ⟨hplain, hunderscore⟩ :=
        (h.valid.fraction ds hf).takeWhile_decimal h.head_powered
      rw [pointed, List.cons_append, trimFractions]
      by_cases hmem : '_' ∈ ds
      · -- the decimals stop at the underscore, where the digits go on, and nothing is trimmed
        obtain ⟨before, behind, htake, hsplit⟩ := hunderscore hmem
        have hstop : Literal.isAtDigitsEnd ((ds ++ powered n.exponent).drop before.length) =
            false := by
          rw [hsplit, List.append_assoc, List.drop_left]
          rfl
        simp only [htake, hstop, Bool.and_false, Bool.false_eq_true, if_false,
          trimFractions_eq_self hpoint, Option.map_some, if_pos hmem]
        rfl
      · simp only [hplain hmem, List.drop_left, h.isAtDigitsEnd, trimFractions_skip ds.length,
          trimFractions_eq_self hpower, Option.map_some, if_neg hmem]
        rfl
  · -- the digits of the fraction are those that were there, or fewer
    obtain ⟨ds', hds', rfl⟩ := Option.map_eq_some_iff.1 hds
    split
    · exact h.valid.fraction ds' hds'
    · obtain ⟨zeros, hsplit, -⟩ := trimFraction_split ds'
      exact fun c hc => h.valid.fraction ds' hds' c (hsplit ▸ List.mem_append_left _ hc)
  · -- zeros at the end of the fraction do not change the value
    cases hf : n.fraction with
    | none => rw [Option.map_none, ← hf]
    | some ds =>
      by_cases hmem : '_' ∈ ds
      · rw [Option.map_some, if_pos hmem, ← hf]
      · obtain ⟨zeros, hsplit, hzeros, -⟩ := trimFraction_split ds
        have hvalue := n.value_zeros hzeros (trimFraction ds)
        rw [← hsplit, ← hf] at hvalue
        rw [Option.map_some, if_neg hmem, ← hvalue]

/-- So is a point without a fraction. -/
theorem Numeral.Lower.unpointed (h : n.Lower) (hwhole : n.whole ≠ []) :
    Rewrites dropBarePoints n n.unpointed := by
  obtain ⟨hnone, hfraction, hpower⟩ := h.point_not_mem
  refine h.rewrites_fraction hwhole ?_ (fun ds hds => ?_) ?_
  · -- the fraction, as the step leaves it
    rw [Numeral.chars, dropBarePoints_append hnone]
    cases hf : n.fraction with
    | none => exact congrArg _ (dropBarePoints_eq_self hpower)
    | some ds =>
      have hpoint : '.' ∉ ds ++ powered n.exponent := fun hmem =>
        (List.mem_append.1 hmem).elim (hfraction ds hf) hpower
      rw [pointed, List.cons_append, dropBarePoints, dropBarePoints_eq_self hpoint]
      -- a fraction without digits goes with its point
      cases ds with
      | nil => simp [h.isAtDigitsEnd, Option.filter, pointed]
      | cons d ds =>
        have hstop := isAtDigitsEnd_cons (h.valid.fraction _ hf d List.mem_cons_self)
          (ds ++ powered n.exponent)
        simp [hstop, Option.filter, pointed]
  · exact h.valid.fraction ds (Option.filter_eq_some_iff.1 hds).1
  · -- a fraction without digits has no value
    cases hf : n.fraction with
    | none => rw [Option.filter_none, ← hf]
    | some ds =>
      cases ds with
      | nil =>
        rw [Numeral.value, Numeral.value, Numeral.places, Numeral.places, hf]
        rfl
      | cons d ds =>
        rw [Option.filter_some, if_pos (by rfl), ← hf]

/-! ## All steps -/

/-- Two steps rewrite a numeral one after the other. -/
theorem Rewrites.trans {f g : List Char → List Char} {m k : Numeral} (h : Rewrites f n m)
    (h' : Rewrites g m k) : Rewrites (fun cs => g (f cs)) n k where
  chars := by rw [h.chars, h'.chars]
  lower := h'.lower
  value := h'.value.trans h.value

/-- What the five steps make of a number in lower case. -/
def Numeral.printed (n : Numeral) : Numeral := n.tidied.powerless.led.trimmed.unpointed

/-- Behind the third step the numeral has a whole part, which the last two rely on. -/
theorem Numeral.led_whole_ne_nil (n : Numeral) : n.led.whole ≠ [] := by
  rw [Numeral.led]
  split
  · exact List.cons_ne_nil _ _
  · assumption

/-- The five steps one after the other. -/
theorem Numeral.Lower.printed (h : n.Lower) :
    Rewrites (fun cs => dropBarePoints
      (trimFractions 0 (addLeadingZero (dropZeroExponent (tidyExponent cs))))) n n.printed := by
  have htidied := h.tidied
  have hpowerless := htidied.lower.powerless
  have hled := hpowerless.lower.led
  have htrimmed := hled.lower.trimmed (Numeral.led_whole_ne_nil _)
  exact htidied.trans (hpowerless.trans (hled.trans (htrimmed.trans
    (htrimmed.lower.unpointed (Numeral.led_whole_ne_nil _)))))

/-- A number that is left as it is: it starts with a digit, its fraction ends with no needless zero,
and its exponent, if it is looked at, is tidy and not zero. -/
structure Numeral.Normal (n : Numeral) : Prop where
  whole : n.whole ≠ []
  fraction : ∀ ds ∈ n.fraction, ds ≠ [] ∧ ('_' ∉ ds → trimFraction ds = ds)
  exponent : '_' ∉ n.mantissa → ∀ e ∈ n.exponent, e.tidy = e ∧ e.isZero = false

/-- A numeral in normal form is printed as it is. -/
theorem Numeral.Normal.printed_eq (h : n.Normal) : n.printed = n := by
  -- step by step: nothing is left to do
  have htidied : n.tidied = n := by
    rw [Numeral.tidied]
    split
    · rfl
    · rename_i hplain
      cases hx : n.exponent with
      | none => rw [Option.map_none, ← hx]
      | some e => rw [Option.map_some, (h.exponent hplain e hx).1, ← hx]
  have hpowerless : n.powerless = n := by
    rw [Numeral.powerless]
    split
    · rfl
    · rename_i hplain
      cases hx : n.exponent with
      | none => rw [Option.filter_none, ← hx]
      | some e =>
        have hzero : (!e.isZero) = true := by rw [(h.exponent hplain e hx).2]; rfl
        rw [Option.filter_some, if_pos hzero, ← hx]
  have hled : n.led = n := by rw [Numeral.led, if_neg h.whole]
  have htrimmed : n.trimmed = n := by
    rw [Numeral.trimmed]
    cases hf : n.fraction with
    | none => rw [Option.map_none, ← hf]
    | some ds =>
      by_cases hmem : '_' ∈ ds
      · rw [Option.map_some, if_pos hmem, ← hf]
      · rw [Option.map_some, if_neg hmem, (h.fraction ds hf).2 hmem, ← hf]
  have hunpointed : n.unpointed = n := by
    rw [Numeral.unpointed]
    cases hf : n.fraction with
    | none => rw [Option.filter_none, ← hf]
    | some ds =>
      have hne : (!ds.isEmpty) = true := by simpa using (h.fraction ds hf).1
      rw [Option.filter_some, if_pos hne, ← hf]
  rw [Numeral.printed, htidied, hpowerless, hled, htrimmed, hunpointed]

/-- A separator in the mantissa is in the whole part or in the fraction. -/
theorem Numeral.underscore_mem_mantissa : '_' ∈ n.mantissa ↔
    '_' ∈ n.whole ∨ ∃ ds ∈ n.fraction, '_' ∈ ds := by
  rw [Numeral.mantissa, List.mem_append]
  cases n.fraction <;> simp [pointed]

/-- The first two steps leave the mantissa alone. -/
theorem Numeral.powerless_tidied (n : Numeral) : n.tidied.powerless.whole = n.whole ∧
    n.tidied.powerless.fraction = n.fraction := by
  have htidied : n.tidied.whole = n.whole ∧ n.tidied.fraction = n.fraction := by
    rw [Numeral.tidied]
    split <;> exact ⟨rfl, rfl⟩
  have hpowerless : ∀ m : Numeral, m.powerless.whole = m.whole ∧
      m.powerless.fraction = m.fraction := by
    intro m
    rw [Numeral.powerless]
    split <;> exact ⟨rfl, rfl⟩
  exact ⟨(hpowerless _).1.trans htidied.1, (hpowerless _).2.trans htidied.2⟩

/-- The whole part is printed as it is, or as a zero where there is none. -/
theorem Numeral.printed_whole (n : Numeral) :
    n.printed.whole = if n.whole = [] then ['0'] else n.whole := by
  show n.tidied.powerless.led.whole = _
  rw [Numeral.led, n.powerless_tidied.1]

/-- The fraction is printed without zeros at its end, and not at all when nothing is left; one with
a separator is printed as it is. -/
theorem Numeral.printed_fraction (n : Numeral) : n.printed.fraction =
    (n.fraction.map fun ds => if '_' ∈ ds then ds else trimFraction ds).filter
      fun ds => !ds.isEmpty := by
  rw [← n.powerless_tidied.2]
  rfl

/-- An exponent that is printed was made tidy, and is not zero. -/
theorem Numeral.mem_printed_exponent (hplain : '_' ∉ n.mantissa) (he : e ∈ n.printed.exponent) :
    ∃ e' ∈ n.exponent, e = e'.tidy ∧ e.isZero = false := by
  have htidied : n.tidied = { n with exponent := n.exponent.map Exponent.tidy } := by
    rw [Numeral.tidied, if_neg hplain]
  have hpowerless : n.tidied.powerless.exponent =
      (n.exponent.map Exponent.tidy).filter fun e => !e.isZero := by
    rw [htidied, Numeral.powerless]
    exact congrArg Numeral.exponent (if_neg hplain)
  obtain ⟨hmem, hzero⟩ := Option.filter_eq_some_iff.1 (hpowerless ▸ he)
  obtain ⟨e', he', rfl⟩ := Option.map_eq_some_iff.1 hmem
  exact ⟨e', he', rfl, by simpa using hzero⟩

/-- What is printed keeps its underscores before the exponent. -/
theorem Numeral.underscore_printed (h : '_' ∈ n.mantissa) : '_' ∈ n.printed.mantissa := by
  rw [Numeral.underscore_mem_mantissa] at h ⊢
  refine h.imp (fun hwhole => ?_) fun ⟨ds, hds, hmem⟩ => ⟨ds, ?_, hmem⟩
  · rw [n.printed_whole, if_neg (List.ne_nil_of_mem hwhole)]
    exact hwhole
  · rw [n.printed_fraction, Option.mem_def.1 hds, Option.map_some, if_pos hmem]
    have hne : (!ds.isEmpty) = true := by simpa using List.ne_nil_of_mem hmem
    exact Option.filter_eq_some_iff.2 ⟨rfl, hne⟩

/-- What is printed is left as it is. -/
theorem Numeral.Lower.normal_printed (h : n.Lower) : n.printed.Normal := by
  -- the whole part has a digit, the fraction no zero at its end, the exponent no sign and a value
  refine ⟨Numeral.led_whole_ne_nil _, fun ds hds => ?_, fun hplain e he => ?_⟩
  · rw [n.printed_fraction] at hds
    obtain ⟨hmap, hne⟩ := Option.filter_eq_some_iff.1 hds
    obtain ⟨ds', -, rfl⟩ := Option.map_eq_some_iff.1 hmap
    refine ⟨by simpa using hne, fun hnone => ?_⟩
    -- to trim twice is to trim once
    obtain ⟨-, -, -, hagain, -⟩ := trimFraction_split ds'
    by_cases hmem : '_' ∈ ds'
    · rw [if_pos hmem] at hnone
      exact absurd hmem hnone
    · rw [if_neg hmem, hagain]
  · -- the exponent was tidied, and tidying again changes nothing
    obtain ⟨e', he', rfl, hzero⟩ :=
      mem_printed_exponent (fun hmem => hplain (underscore_printed hmem)) he
    exact ⟨(h.valid.exponent e' he').tidy_tidy, hzero⟩

end Reflow
