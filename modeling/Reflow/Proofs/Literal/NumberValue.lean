import Mathlib.Algebra.Field.Rat
import Mathlib.Algebra.GroupWithZero.Basic
import Mathlib.Tactic.NormNum
import Reflow.Proofs.Text.Ranges
import Reflow.Proofs.Token.Numbers

/-!
# The value of a number

The digits of a number in base ten, with its point left out, write a whole number; the exponent and
the length of the fraction say by which power of ten it is multiplied.  Underscores have no part in
it.

## Key results

- `Text.decimalNumber_append`: the number that digits write, part by part
- `Literal.numberValue`: the value that a text writes
- `Numeral.value`: the value of a number by its parts
- `Literal.numberValue_chars`: both agree
-/

namespace Reflow

namespace Text

/-- The digits of a number count for the more the more digits follow. -/
theorem decimalNumber_foldl (m : Nat) (b : List Char) :
    b.foldl (fun n c => 10 * n + decimalValue c) m = m * 10 ^ b.length + decimalNumber b := by
  induction b generalizing m with
  | nil => simp [decimalNumber]
  | cons c b ih =>
    rw [decimalNumber, List.foldl_cons, List.foldl_cons, ih, ih (10 * 0 + decimalValue c),
      List.length_cons, Nat.pow_succ]
    grind

/-- More digits behind a number. -/
theorem decimalNumber_append (a b : List Char) :
    decimalNumber (a ++ b) = decimalNumber a * 10 ^ b.length + decimalNumber b := by
  rw [decimalNumber, List.foldl_append, decimalNumber_foldl]
  rfl

end Text

/-- The digits without the underscores. -/
def bare (cs : List Char) : List Char := cs.filter (· != '_')

/-- The value of an exponent by its parts. -/
def Exponent.value (e : Exponent) : ℤ :=
  if e.sign = some '-' then -(Text.decimalNumber (bare e.digits) : ℤ)
  else Text.decimalNumber (bare e.digits)

/-- The value of an exponent that may be missing. -/
def powerOf : Option Exponent → ℤ
  | none => 0
  | some e => e.value

/-- The digits behind the point. -/
def Numeral.places (n : Numeral) : List Char := bare (n.fraction.getD [])

/-- The value of a number by its parts. -/
def Numeral.value (n : Numeral) : ℚ :=
  (Text.decimalNumber (bare n.whole ++ n.places) : ℚ) * 10 ^ (powerOf n.exponent - n.places.length)

namespace Literal

/-- The number that an exponent writes. -/
def exponentValue : List Char → ℤ
  | '-' :: digits => -(Text.decimalNumber digits : ℤ)
  | '+' :: digits => Text.decimalNumber digits
  | digits => Text.decimalNumber digits

/-- The exact value that a number in base ten writes: its digits before and behind the point are
read as one number, which is multiplied by the power of ten that the exponent and the length of the
fraction give. -/
def numberValue (text : List Char) : ℚ :=
  let text := text.filter (· != '_')
  let mantissa := text.takeWhile fun c => c != 'e' && c != 'E'
  let exponent := (text.drop mantissa.length).drop 1
  let whole := mantissa.takeWhile (· != '.')
  let fraction := (mantissa.drop whole.length).drop 1
  (Text.decimalNumber (whole ++ fraction) : ℚ) * 10 ^ (exponentValue exponent - fraction.length)

example : numberValue "1_0.50e-1".toList = 105 / 100 := by
  have hdigits : Text.decimalNumber ['1', '0', '5', '0'] = 1050 := by decide
  have hpower : exponentValue ['-', '1'] = -1 := by decide
  show (Text.decimalNumber ['1', '0', '5', '0'] : ℚ) * 10 ^ (exponentValue ['-', '1'] - 2) = _
  rw [hdigits, hpower]
  norm_num

end Literal

variable {n : Numeral} {cs : List Char}

/-- Without its underscores a run of digits holds digits only. -/
theorem DigitRun.isDigit_bare (h : DigitRun Char.isDigit cs) {c : Char} (hc : c ∈ bare cs) :
    c.isDigit = true := by
  obtain ⟨hmem, hne⟩ := List.mem_filter.1 hc
  exact (h c hmem).resolve_right (by simpa using hne)

/-- Separators are taken out of either part. -/
theorem bare_append (a b : List Char) : bare (a ++ b) = bare a ++ bare b := List.filter_append ..

/-- Any other character is kept. -/
theorem bare_cons {c : Char} (hc : c ≠ '_') (cs : List Char) : bare (c :: cs) = c :: bare cs :=
  List.filter_cons_of_pos (by simpa using hc)

/-- Underscores stand between digits only. -/
theorem bare_chars (h : n.Valid Char.isDigit) : bare n.chars =
    bare n.whole ++ (pointed (n.fraction.map bare) ++
      powered (n.exponent.map fun e => { e with digits := bare e.digits })) := by
  -- the point and the mark are no underscores, and no sign is one
  have hpointed : bare (pointed n.fraction) = pointed (n.fraction.map bare) := by
    cases n.fraction <;> rfl
  have hpowered : bare (powered n.exponent) =
      powered (n.exponent.map fun e => { e with digits := bare e.digits }) := by
    cases hx : n.exponent with
    | none => rfl
    | some e =>
      have hmark : e.mark ≠ '_' := by
        rcases (h.exponent e hx).mark with hmark | hmark <;> rw [hmark] <;> decide
      have hsign : bare e.sign.toList = e.sign.toList := by
        cases hs : e.sign with
        | none => rfl
        | some sign => rcases (h.exponent e hx).sign sign hs with rfl | rfl <;> rfl
      show bare (e.mark :: (e.sign.toList ++ e.digits)) = e.mark :: (e.sign.toList ++ bare e.digits)
      rw [bare_cons hmark, bare_append, hsign]
  rw [Numeral.chars, bare_append, bare_append, hpointed, hpowered]

namespace Literal

/-- An exponent is read as its parts say. -/
theorem exponentValue_drop (h : ∀ e ∈ n.exponent, e.Valid Char.isDigit) :
    exponentValue ((powered (n.exponent.map fun e => { e with digits := bare e.digits })).drop 1) =
      powerOf n.exponent := by
  cases hx : n.exponent with
  | none => rfl
  | some e =>
    show exponentValue (e.sign.toList ++ bare e.digits) = e.value
    rw [Exponent.value]
    cases hs : e.sign with
    | none =>
      rw [if_neg nofun, Option.toList_none, List.nil_append]
      -- the first digit is no sign
      obtain ⟨d, ds, hds, hd⟩ := (h e hx).start
      have hplus : d ≠ '+' := by rintro rfl; exact absurd hd (by decide)
      have hminus : d ≠ '-' := by rintro rfl; exact absurd hd (by decide)
      have hunderscore : d ≠ '_' := by rintro rfl; exact absurd hd (by decide)
      rw [hds, bare_cons hunderscore]
      unfold exponentValue
      split
      · exact absurd (List.cons.inj ‹_›).1 hminus
      · exact absurd (List.cons.inj ‹_›).1 hplus
      · rfl
    | some sign =>
      rcases (h e hx).sign sign hs with rfl | rfl
      · rfl
      · rfl

/-- The value that is read is the value of the parts. -/
theorem numberValue_chars (h : n.Valid Char.isDigit) : numberValue n.chars = n.value := by
  -- the text is cut at the first `e` and then at the first point, neither of which is a digit
  let whole := bare n.whole
  let fraction := pointed (n.fraction.map bare)
  let exponent := powered (n.exponent.map fun e => { e with digits := bare e.digits })
  have hdigit : ∀ {cs : List Char}, DigitRun Char.isDigit cs → ∀ c ∈ bare cs,
      c ≠ '.' ∧ c ≠ 'e' ∧ c ≠ 'E' := by
    intro cs hrun c hc
    have hother := (Text.digit_char (hrun.isDigit_bare hc)).2.2.2
    simp only [List.mem_cons, not_or] at hother
    exact ⟨hother.2.1, hother.2.2.1, hother.2.2.2.1⟩
  -- neither the digits nor the point are the mark of an exponent
  have hmantissa : ∀ c ∈ whole ++ fraction, (c != 'e' && c != 'E') = true := by
    intro c hc
    rcases List.mem_append.1 hc with hc | hc
    · simpa using (hdigit h.whole c hc).2
    · cases hf : n.fraction with
      | none => simp [fraction, hf, pointed] at hc
      | some ds =>
        rw [show fraction = '.' :: bare ds by simp only [fraction, hf]; rfl] at hc
        rcases List.mem_cons.1 hc with rfl | hc
        · rfl
        · simpa using (hdigit (h.fraction ds hf) c hc).2
  -- the exponent starts with its mark
  have hmark : ∀ c ∈ exponent.head?, (c != 'e' && c != 'E') = false := by
    cases hx : n.exponent with
    | none => simp [exponent, hx, powered]
    | some e =>
      have hhead : exponent.head? = some e.mark := by simp only [exponent, hx]; rfl
      rw [hhead]
      rintro c ⟨⟩
      rcases (h.exponent e hx).mark with hmark | hmark <;> rw [hmark] <;> rfl
  -- the fraction starts with its point
  have hpoint : ∀ c ∈ fraction.head?, (c != '.') = false := by
    cases hf : n.fraction with
    | none => simp [fraction, hf, pointed]
    | some ds =>
      have hhead : fraction.head? = some '.' := by simp only [fraction, hf]; rfl
      rw [hhead]
      rintro c ⟨⟩
      rfl
  -- the places are the digits behind the point
  have hplaces : fraction.drop 1 = n.places := by
    cases hf : n.fraction <;> simp only [fraction, Numeral.places, hf] <;> rfl
  have hwhole : ∀ c ∈ whole, (c != '.') = true := fun c hc => by
    simpa using (hdigit h.whole c hc).1
  -- the underscores are taken out of each part
  have htext : n.chars.filter (· != '_') = (whole ++ fraction) ++ exponent := by
    rw [List.append_assoc]
    exact bare_chars h
  -- the parts are found again in the text
  simp only [numberValue, htext, Text.takeWhile_append_eq_left hmantissa hmark, List.drop_left,
    Text.takeWhile_append_eq_left hwhole hpoint, hplaces]
  rw [exponentValue_drop h.exponent]
  rfl

end Literal

end Reflow
