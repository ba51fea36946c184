import Reflow.Proofs.Literal.NumberSteps

/-!
# What printing keeps of a number

A number is put into lower case.  Numbers in another base and those with an `n` behind them are left
at that; in numbers in base ten only the mark of the exponent has an upper case, and they are
rewritten.

## Key results

- `printNumberChars_numeral`, `printNumberChars_other`: what is printed for the two kinds of numbers
- `printNumber_keeps`: what is printed for a number of the scanner
-/

namespace Reflow

open Literal

variable {cs ds : List Char} {n : Numeral}

/-! ## Lower case -/

/-- The number with the mark of its exponent in lower case. -/
def Numeral.lowered (n : Numeral) : Numeral :=
  { n with exponent := n.exponent.map fun e => { e with mark := 'e' } }

/-- Digits have no case. -/
theorem DigitRun.map_toLower (h : DigitRun Char.isDigit ds) : ds.map Char.toLower = ds := by
  have hsame : ∀ c ∈ ds, c.toLower = c := by
    intro c hc
    rcases h c hc with hdigit | rfl
    · exact (Text.digit_char hdigit).2.2.1
    · rfl
  exact (List.map_congr_left hsame).trans (List.map_id' ds)

/-- A numeral is of ASCII characters, so that lower case maps each on its own. -/
theorem Numeral.Valid.ascii (h : n.Valid Char.isDigit) : Text.Ascii n.chars := by
  have hother : ∀ c ∈ ['_', '.', 'e', 'E', '+', '-'], c.toNat < 128 :=
    Text.forall_mem_of_all (by decide)
  exact fun c hc => (h.mem_chars hc).elim Text.ascii_of_isDigit (hother c)

/-- In lower case a numeral is a numeral in lower case. -/
theorem Numeral.Valid.lower_lowered (h : n.Valid Char.isDigit) : n.lowered.Lower := by
  refine ⟨⟨h.whole, h.fraction, fun e he => ?_, h.start⟩, fun e he => ?_⟩
  · obtain ⟨e', he', rfl⟩ := Option.map_eq_some_iff.1 he
    have hvalid := h.exponent e' he'
    exact ⟨.inl rfl, hvalid.sign, hvalid.digits, hvalid.start⟩
  · obtain ⟨e', -, rfl⟩ := Option.map_eq_some_iff.1 he
    rfl

/-- Only the mark of the exponent has an upper case. -/
theorem Numeral.Valid.lowerChars_chars (h : n.Valid Char.isDigit) :
    n.chars.map Char.toLower = n.lowered.chars := by
  -- digits and the point stay, and so does the sign
  have hpointed : (pointed n.fraction).map Char.toLower = pointed n.fraction := by
    cases hf : n.fraction with
    | none => rfl
    | some ds =>
      rw [pointed, List.map_cons, (h.fraction ds hf).map_toLower]
      rfl
  have hpowered : (powered n.exponent).map Char.toLower = powered n.lowered.exponent := by
    rw [Numeral.lowered]
    cases hx : n.exponent with
    | none => rfl
    | some e =>
      have hvalid := h.exponent e hx
      -- the mark becomes the small letter
      have hmark : e.mark.toLower = 'e' := by
        rcases hvalid.mark with hmark | hmark <;> rw [hmark] <;> rfl
      have hsign : e.sign.toList.map Char.toLower = e.sign.toList := by
        cases hs : e.sign with
        | none => rfl
        | some sign => rcases hvalid.sign sign hs with rfl | rfl <;> rfl
      rw [powered, Exponent.chars, List.map_cons, List.map_append, hmark, hsign,
        hvalid.digits.map_toLower]
      rfl
  rw [Numeral.chars, List.map_append, List.map_append, h.whole.map_toLower, hpointed, hpowered]
  rfl

/-- Lower case does not change the value. -/
theorem Numeral.value_lowered (n : Numeral) : n.lowered.value = n.value := by
  have hpower : powerOf n.lowered.exponent = powerOf n.exponent := by
    rw [Numeral.lowered]
    cases n.exponent <;> rfl
  rw [Numeral.value, Numeral.value, hpower]
  rfl

/-- A number in lower case is lowered already. -/
theorem Numeral.Lower.lowered_eq (h : n.Lower) : n.lowered = n := by
  rw [Numeral.lowered]
  cases hx : n.exponent with
  | none => rw [Option.map_none, ← hx]
  | some e =>
    have hmark := h.mark e hx
    rw [Option.map_some, ← hmark, ← hx]

/-- A number in base ten holds no mark of another kind of number. -/
theorem Numeral.Valid.not_mem_marks (h : n.Valid Char.isDigit) {c : Char} (hc : c ∈ n.chars) :
    c ∉ ['x', 'o', 'b', 'n'] := by
  have hdigits : ∀ d ∈ ['x', 'o', 'b', 'n'], d.isDigit = false :=
    Text.forall_mem_of_all (by decide)
  have hothers : ∀ d ∈ ['_', '.', 'e', 'E', '+', '-'], d ∉ ['x', 'o', 'b', 'n'] :=
    Text.forall_mem_of_all (by decide)
  intro hmem
  rcases h.mem_chars hc with hdigit | hother
  · exact Bool.false_ne_true ((hdigits c hmem).symm.trans hdigit)
  · exact hothers c hother hmem

/-- A numeral that is no integer literal has no suffix. -/
theorem Numeral.Valid.getLast?_ne (h : n.Valid Char.isDigit) : n.chars.getLast? ≠ some 'n' :=
  fun hlast => h.not_mem_marks (List.mem_of_getLast? hlast) (by decide)

/-- A number in base ten is rewritten in five steps. -/
theorem printNumberChars_numeral (h : n.Valid Char.isDigit) :
    printNumberChars n.chars = n.lowered.printed.chars := by
  -- the number is in small letters, which is what the steps are proved for
  have hlower := h.lower_lowered
  have hvalue : Text.lowerChars n.chars = n.lowered.chars := by
    rw [Text.lowerChars_of_ascii h.ascii, h.lowerChars_chars]
  rw [printNumberChars]
  simp only [hvalue]
  rw [if_neg]
  · exact hlower.printed.chars
  · -- the number has no prefix, and is no big integer
    rw [Bool.or_eq_true]
    rintro (hbased | hbig)
    · split at hbased
      · rename_i mark rest heq
        have hmem : mark ∈ n.lowered.chars := by rw [heq]; simp
        refine hlower.valid.not_mem_marks hmem ?_
        simp only [Bool.or_eq_true, beq_iff_eq] at hbased
        rcases hbased with (rfl | rfl) | rfl <;> decide
      · cases hbased
    · exact hlower.valid.getLast?_ne (by simpa using hbig)

/-- Numbers in another base and those with an `n` behind them are put into lower case only. -/
theorem printNumberChars_other (hascii : Text.Ascii cs)
    (h : Based cs ∨ cs.getLast? = some 'n') : printNumberChars cs = cs.map Char.toLower := by
  -- what has a prefix or is a big integer is only put in small letters
  rw [printNumberChars]
  simp only [Text.lowerChars_of_ascii hascii]
  refine if_pos ?_
  rcases h with ⟨hmark, -⟩ | hlast
  · -- the letters of a prefix are those that are looked for
    have hmarks : ∀ mark ∈ ['x', 'X', 'o', 'O', 'b', 'B'], (mark.toLower == 'x' ||
        mark.toLower == 'o' || mark.toLower == 'b') = true := Text.forall_mem_of_all (by decide)
    simp only [List.map_cons]
    show ((_ == 'x' || _ == 'o' || _ == 'b') || _) = true
    rw [hmarks _ (List.elem_iff.1 hmark), Bool.true_or]
  · rw [List.getLast?_map, hlast]
    simp

/-- The scanner reads a literal with a base as one. -/
theorem Based.isSome_prefixedLength? (h : Based cs) : (prefixedLength? cs).isSome = true := by
  obtain ⟨hmark, -⟩ := h
  rw [prefixedLength?, if_pos hmark]
  rfl

/-- It does so in lower case. -/
theorem Based.map_toLower (hascii : Text.Ascii cs) (h : Based cs) :
    Based (cs.map Char.toLower) := by
  obtain ⟨hmark, hword⟩ := h
  have hmarks : ∀ mark ∈ ['x', 'X', 'o', 'O', 'b', 'B'],
      ['x', 'X', 'o', 'O', 'b', 'B'].contains mark.toLower = true :=
    Text.forall_mem_of_all (by decide)
  refine .mk (hmarks _ (List.elem_iff.1 hmark)) fun c hc => ?_
  obtain ⟨d, hd, rfl⟩ := List.mem_map.1 hc
  exact Text.isWordChar_toLower (hascii d (by simp [hd])) (hword d hd)

namespace Literal

variable {text : String}

theorem toList_printNumber (text : String) :
    (printNumber text).toList = printNumberChars text.toList := String.toList_ofList

/-- A text is printed as it is if its characters are. -/
theorem printNumber_eq_self (h : printNumberChars text.toList = text.toList) :
    printNumber text = text := by
  rw [printNumber, h, String.ofList_toList]

/-- What is printed for a number that is only put into lower case. -/
theorem printNumber_other (hascii : Text.Ascii text.toList)
    (h : Based text.toList ∨ text.toList.getLast? = some 'n') :
    (printNumber text).toList = text.toList.map Char.toLower ∧
      printNumber (printNumber text) = printNumber text := by
  have hprinted : (printNumber text).toList = text.toList.map Char.toLower := by
    rw [toList_printNumber, printNumberChars_other hascii h]
  -- in small letters the number is of the same kind
  have hagain : Based (text.toList.map Char.toLower) ∨
      (text.toList.map Char.toLower).getLast? = some 'n' := by
    refine h.imp (·.map_toLower hascii) fun hlast => ?_
    rw [List.getLast?_map, hlast]
    rfl
  refine ⟨hprinted, printNumber_eq_self ?_⟩
  rw [hprinted, printNumberChars_other hascii.map_toLower hagain, hascii.map_toLower_map_toLower]

/-- What is printed for a number in base ten. -/
theorem printNumber_numeral (h : n.Valid Char.isDigit) (htext : text.toList = n.chars) :
    ∃ m : Numeral, m.Lower ∧ (printNumber text).toList = m.chars ∧ m.value = n.value ∧
      printNumber (printNumber text) = printNumber text := by
  have hsteps := h.lower_lowered.printed
  have hprinted : (printNumber text).toList = n.lowered.printed.chars := by
    rw [toList_printNumber, htext, printNumberChars_numeral h]
  refine ⟨n.lowered.printed, hsteps.lower, hprinted, hsteps.value.trans n.value_lowered,
    printNumber_eq_self ?_⟩
  rw [hprinted, printNumberChars_numeral hsteps.lower.valid, hsteps.lower.lowered_eq,
    h.lower_lowered.normal_printed.printed_eq]

/-- That a text is read alone depends on its characters only. -/
theorem readsAlone_of_toList {mode : ScanMode} {kind : TokenKind} (htext : text.toList = cs)
    (h : ReadsAlone mode kind (String.ofList cs)) : ReadsAlone mode kind text := by
  rwa [← htext, String.ofList_toList] at h

/-- A number of the scanner is printed as a number: the printed text is read as one number again and
is printed in the same way.  Numbers in another base and those with an `n` behind them are put into
lower case, and all others keep their exact value. -/
theorem printNumber_keeps {mode : ScanMode} {s s' : Scanner} {t : Token}
    (h : Scan.next mode s = (.ok t, s')) (ht : t.kind = .number)
    (hascii : Text.Ascii t.text.toList) :
    let raw := t.text.toList
    let printed := printNumber t.text
    let other := (prefixedLength? raw).isSome = true ∨ raw.getLast? = some 'n'
    ReadsAlone .script .number printed ∧
      printNumber printed = printed ∧
      (other → printed.toList = raw.map Char.toLower) ∧
      (¬other → numberValue printed.toList = numberValue raw) := by
  intro raw printed other
  -- the digits whose values are read are digits to the scanner
  have htoUnicode : ∀ {m : Numeral}, m.Valid Char.isDigit → m.Valid Text.isDigit := fun hm =>
    hm.mono fun c _ hc => (Text.digit_char hc).1
  -- the token has a prefix, or is a numeral with or without the mark of a big integer
  rcases Scan.next_number h ht with hbased | ⟨m, hm, htext⟩
  · obtain ⟨hprinted, hagain⟩ := printNumber_other hascii (.inl hbased)
    have hother : other := .inl hbased.isSome_prefixedLength?
    exact ⟨readsAlone_of_toList hprinted (readsAlone_based (hbased.map_toLower hascii)), hagain,
      fun _ => hprinted, fun hnot => absurd hother hnot⟩
  -- in ASCII text the digits of the scanner are those whose values are read
  have hmem : ∀ c ∈ m.chars, c ∈ t.text.toList := by
    intro c hc
    rcases htext with htext | htext <;> rw [htext]
    · exact hc
    · exact List.mem_append_left _ hc
  have hdigits : m.Valid Char.isDigit := hm.mono fun c hc hdigit =>
    Text.isDigit_iff_of_ascii (hascii c (hmem c hc)) ▸ hdigit
  -- a numeral goes through the steps, and keeps its value
  rcases htext with htext | htext
  · obtain ⟨k, hk, hprinted, hvalue, hagain⟩ := printNumber_numeral hdigits htext
    have hreads := readsAlone_numeral (htoUnicode hk.valid) (.inl rfl)
    rw [List.append_nil] at hreads
    have hraw : raw = m.chars := htext
    -- it is not of the other kind
    have hother : ¬other := by
      have hnone := prefixedLength?_numeral hm (.inl rfl)
      rw [List.append_nil] at hnone
      simp only [other, hraw, hnone]
      exact fun hyes => hyes.elim nofun hdigits.getLast?_ne
    refine ⟨readsAlone_of_toList hprinted hreads, hagain, fun hyes => absurd hyes hother,
      fun _ => ?_⟩
    rw [hprinted, hraw, numberValue_chars hk.valid, numberValue_chars hdigits, hvalue]
  · -- a big integer is put in small letters
    have hraw : raw = m.chars ++ ['n'] := htext
    have hlast : raw.getLast? = some 'n' := by rw [hraw, List.getLast?_concat]
    obtain ⟨hprinted, hagain⟩ := printNumber_other hascii (.inr hlast)
    have hlower : raw.map Char.toLower = m.lowered.chars ++ ['n'] := by
      rw [hraw, List.map_append, hdigits.lowerChars_chars]
      rfl
    have hreads := readsAlone_numeral (htoUnicode hdigits.lower_lowered.valid) (.inr rfl)
    exact ⟨readsAlone_of_toList (hprinted.trans hlower) hreads, hagain, fun _ => hprinted,
      fun hnot => absurd (.inr hlast) hnot⟩

/-- A number with a point, an exponent with a sign and a digit separator is printed as the same
number. -/
theorem printNumber_keeps_exponent :
    Scan.next .script (.start (.ofString ".50E+0_10")) =
        (.ok ⟨.number, ".50E+0_10", ⟨{}, (Scanner.behind ".50E+0_10").position⟩, false⟩,
          .behind ".50E+0_10") ∧
      printNumber ".50E+0_10" = "0.5e0_10" ∧
      ReadsAlone .script .number "0.5e0_10" ∧ printNumber "0.5e0_10" = "0.5e0_10" ∧
      numberValue "0.5e0_10".toList = numberValue ".50E+0_10".toList := by
  -- the parts of the numeral
  have hvalid : Numeral.Valid Text.isDigit
      ⟨[], some ['5', '0'], some ⟨'E', some '+', ['0', '_', '1', '0']⟩⟩ := by
    refine ⟨nofun, ?_, ?_, .inr ⟨rfl, _, rfl, '5', ['0'], rfl, by decide⟩⟩
    · rintro _ ⟨⟩
      exact Text.forall_mem_of_all (by decide)
    · rintro _ ⟨⟩
      exact ⟨.inr rfl, fun _ hsign => .inl (Option.some.inj hsign).symm,
        Text.forall_mem_of_all (by decide), '0', ['_', '1', '0'], rfl, by decide⟩
  have htoken := (readsAlone_numeral hvalid (.inl rfl)).token
  have hascii : Text.Ascii ".50E+0_10".toList := Text.forall_mem_of_all (by decide)
  have hprinted : printNumber ".50E+0_10" = "0.5e0_10" := by decide
  -- the theorem, for the token that the scanner gives
  have hkeeps := printNumber_keeps htoken rfl hascii
  exact ⟨htoken, hprinted, hprinted ▸ hkeeps.1, hprinted ▸ hkeeps.2.1,
    hprinted ▸ hkeeps.2.2.2 (by decide)⟩

end Literal

end Reflow
