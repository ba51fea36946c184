import Reflow.Text.Letters

/-!
# Facts about classes of characters

What holds of all characters of a list is checked on the list.  Two classes of characters have no
character in common if no two ranges of their tables meet, which is checked on the tables of code
points once.  On ASCII characters the classes and mappings of Unicode are the simple ones: the decimal
digits are those from zero to nine, and lower case is found letter by letter.

## Key results

- `Ranges.not_contains_of_apart`: a character of one class is in no class apart from it
- `mapCase_of_isDecimal`: decimal digits have no case
- `lowerFrom_cons`: what a character becomes in lower case
- `lowerChars_lowerChars`: a text in lower case stays as it is
- `Lowers`: what lower case makes of each character
- `isDigit_iff_of_ascii`, `isDecimal_iff_of_ascii`: the digits
- `decimalNumber_zeros_append`: zeros in front of a number do not count
- `lowerChars_of_ascii`: lower case, letter by letter
-/

namespace Reflow.Text

/-- What holds of all characters of a list is checked one character after the other. -/
theorem forall_mem_of_all {p : Char → Prop} [DecidablePred p] {cs : List Char}
    (h : cs.all (fun c => decide (p c)) = true) : ∀ c ∈ cs, p c :=
  fun c hc => of_decide_eq_true (List.all_eq_true.1 h c hc)

/-- No two ranges of the tables meet, where the ranges of both tables ascend: behind each range of
the one, the other goes on with a range further up. -/
def Ranges.apart : Ranges → Ranges → Bool
  | [], _ => true
  | r :: a, b =>
    let ahead := b.dropWhile fun q => q.2 < r.1
    ahead.head?.all (fun q => r.2 < q.1) && apart a ahead

/-- A number that is contained is in one of the ranges. -/
theorem Ranges.exists_of_contains {ranges : Ranges} {n : Nat} (h : ranges.contains n = true) :
    ∃ r ∈ ranges, r.1 ≤ n ∧ n ≤ r.2 := by
  -- induction on the ranges, which are searched in their order
  induction ranges with
  | nil => simp [Ranges.contains] at h
  | cons r ranges ih =>
    obtain ⟨lo, hi⟩ := r
    rw [Ranges.contains] at h
    split at h
    · -- the number lies before the range
      simp at h
    split at h
    · -- it lies in the range
      exact ⟨(lo, hi), List.mem_cons_self, by simpa using ‹¬n < lo›, ‹n ≤ hi›⟩
    · obtain ⟨r, hr, hn⟩ := ih h
      exact ⟨r, List.mem_cons_of_mem _ hr, hn⟩

/-- A code point is not looked for among the ranges below it. -/
theorem Ranges.contains_dropWhile {ranges : Ranges} {lo n : Nat} (hlo : lo ≤ n)
    (h : ranges.contains n = true) : Ranges.contains (ranges.dropWhile fun q => q.2 < lo) n = true := by
  -- the ranges that are dropped end before the number
  induction ranges with
  | nil => exact h
  | cons q ranges ih =>
    by_cases hq : q.2 < lo
    · rw [List.dropWhile_cons_of_pos (by simpa using hq)]
      rw [Ranges.contains] at h
      split at h
      · cases h
      split at h
      · omega
      · exact ih h
    · rwa [List.dropWhile_cons_of_neg (by simpa using hq)]

/-- Ranges that are apart share no number. -/
theorem Ranges.not_contains_of_apart {a b : Ranges} (hab : a.apart b = true) {n : Nat}
    (h : a.contains n = true) : b.contains n = false := by
  -- induction on the first ranges, each of which is compared with those of the second that are
  -- ahead
  induction a generalizing b with
  | nil => cases h
  | cons r a ih =>
    obtain ⟨lo, hi⟩ := r
    rw [Ranges.apart, Bool.and_eq_true] at hab
    rw [Ranges.contains] at h
    rw [Bool.eq_false_iff]
    intro hb
    split at h
    · cases h
    · have hahead := contains_dropWhile (Nat.le_of_not_lt ‹¬n < lo›) hb
      split at h
      · -- the number lies in a range of the first list, and the next range of the second starts
        -- behind it
        cases hrest : b.dropWhile fun q => q.2 < lo with
        | nil => simp [hrest, Ranges.contains] at hahead
        | cons q rest =>
          have hq : hi < q.1 := by simpa [hrest] using hab.1
          rw [hrest, Ranges.contains, if_pos (by omega)] at hahead
          cases hahead
      · -- the number lies in a later range
        rw [ih hab.2 h] at hahead
        cases hahead

/-- White space has no digits. -/
theorem isDecimal_of_isSpace {c : Char} (h : isSpace c = true) : isDecimal c = false :=
  Ranges.not_contains_of_apart (a := spaceRanges) (by decide) h

/-- White space is in no word. -/
theorem isWordChar_of_isSpace {c : Char} (h : isSpace c = true) : isWordChar c = false := by
  have hletter := Ranges.not_contains_of_apart (b := Tables.letter) (by decide +kernel) h
  have hnumeric := Ranges.not_contains_of_apart (b := Tables.numeric) (by decide +kernel) h
  have hline : (c == '_') = false := by
    rw [beq_eq_false_iff_ne]
    rintro rfl
    cases h
  rw [isWordChar, isAlphanumeric, hletter, hnumeric, hline]
  rfl

/-! ## Case -/

/-- What is in no run is not mapped. -/
theorem CaseRun.map?_eq_none {runs : List CaseRun} {n : Nat}
    (h : ∀ r ∈ runs, n < r.first ∨ r.last < n) : CaseRun.map? runs n = none := by
  induction runs with
  | nil => rfl
  | cons r runs ih =>
    have hr := h r List.mem_cons_self
    rw [CaseRun.map?]
    split
    · rfl
    split
    · omega
    · exact ih fun q hq => h q (List.mem_cons_of_mem _ hq)

/-- No range of the table meets a run of code points that have another case. -/
def Ranges.caseless (ranges : Ranges) (runs : List CaseRun) : Bool :=
  ranges.all fun q => runs.all fun r => q.2 < r.first || r.last < q.1

/-- Decimal digits have no lower case. -/
theorem mapCase_of_isDecimal {c : Char} (h : isDecimal c = true) :
    mapCase Tables.toLowerMany Tables.toLower c = [c] := by
  obtain ⟨q, hq, hlo, hhi⟩ := Ranges.exists_of_contains h
  -- no run of the table meets the decimals
  have hruns : Ranges.caseless Tables.decimal Tables.toLower = true := by decide +kernel
  have hone : CaseRun.map? Tables.toLower c.toNat = none := by
    refine CaseRun.map?_eq_none fun r hr => ?_
    have := List.all_eq_true.1 (List.all_eq_true.1 hruns q hq) r hr
    simp only [Bool.or_eq_true, decide_eq_true_eq] at this
    omega
  -- nor do the characters with several images
  have hmany : Tables.toLowerMany.lookup c.toNat = none := by
    have hcapital : Tables.decimal.contains 0x130 = false := by decide
    have hne : (c.toNat == 0x130) = false := by
      rw [beq_eq_false_iff_ne]
      intro hc
      rw [isDecimal, hc, hcapital] at h
      cases h
    simp [Tables.toLowerMany, List.lookup_cons, hne]
  simp [mapCase, hone, hmany]

/-! ## Lower case -/

/-- The first and the last code point that a run maps to. -/
def CaseRun.image (r : CaseRun) : Nat × Nat :=
  (((r.first : Int) + r.offset).toNat, ((r.last : Int) + r.offset).toNat)

/-- Are the code points between two, or every `stride`-th of them, in no run?  Two runs of every
second code point may go past each other. -/
def CaseRun.misses (lo hi stride : Nat) : List CaseRun → Bool
  | [] => true
  | q :: rest =>
    Nat.blt hi q.first ||
      ((Nat.blt q.last lo || (q.stride == 2 && (stride == 2 || lo == hi) &&
        (lo + q.first) % 2 == 1)) && misses lo hi stride rest)

/-- Does a run map to letters from `a` to `z` or to characters that are not ASCII, and to none that is
white space or has a lower case of its own? -/
def CaseRun.isFinal (runs : List CaseRun) (r : CaseRun) : Bool :=
  let (lo, hi) := r.image
  Nat.ble 97 lo && (Nat.ble hi 122 || Nat.ble 128 lo) && (Nat.blt hi 0x130 || Nat.blt 0x130 lo) &&
    (Nat.blt hi 0x3a3 || Nat.blt 0x3a3 lo) && (Nat.blt hi 0xd800 || Nat.blt 0xdfff lo) &&
    Nat.blt hi 0x110000 && spaceRanges.all (fun q => Nat.blt hi q.1 || Nat.blt q.2 lo) &&
    misses lo hi r.stride runs

/-- No letter that is made by lowering is lowered again: seen run by run. -/
theorem isFinal_toLower : Tables.toLower.all (CaseRun.isFinal Tables.toLower) = true := by
  decide +kernel

/-- What is mapped is in one of the runs, and moved by its offset. -/
theorem CaseRun.exists_of_map? {runs : List CaseRun} {n m : Nat} (h : map? runs n = some m) :
    ∃ r ∈ runs, r.first ≤ n ∧ n ≤ r.last ∧ (n - r.first) % r.stride = 0 ∧
      m = ((n : Int) + r.offset).toNat := by
  -- induction on the runs, which are searched in their order
  induction runs with
  | nil => cases h
  | cons r runs ih =>
    rw [map?] at h
    split at h
    · cases h
    -- the number is one of the run
    split at h
    · rename_i hfirst hlast
      exact ⟨r, List.mem_cons_self, by omega, hlast.1, hlast.2, (Option.some.inj h).symm⟩
    · obtain ⟨q, hq, hn⟩ := ih h
      exact ⟨q, List.mem_cons_of_mem _ hq, hn⟩

/-- What all runs miss is not mapped. -/
theorem CaseRun.map?_of_misses {runs : List CaseRun} {lo hi stride n : Nat}
    (h : misses lo hi stride runs = true) (hlo : lo ≤ n) (hhi : n ≤ hi)
    (hstride : (n - lo) % stride = 0) : map? runs n = none := by
  induction runs with
  | nil => rfl
  | cons q runs ih =>
    simp only [misses, Bool.or_eq_true, Bool.and_eq_true, Nat.blt_eq, beq_iff_eq] at h
    rw [map?]
    split
    · rfl
    · rename_i hfirst
      rcases h with hbefore | ⟨hapart, hrest⟩
      · omega
      rw [if_neg, ih hrest]
      rintro ⟨hlast, hmod⟩
      rcases hapart with hbehind | ⟨⟨htwo, hevery⟩, hodd⟩
      · omega
      · -- of two code points at an odd distance only one is in the run
        rw [htwo] at hmod
        have heven : (n - lo) % 2 = 0 := by
          rcases hevery with rfl | rfl
          · exact hstride
          · have : n = lo := Nat.le_antisymm hhi hlo
            omega
        omega

/-- What a character becomes in lower case: itself, or letters and characters that are not ASCII.  None of
these is white space, and none has a lower case of its own. -/
structure Lowers (c : Char) (ds : List Char) : Prop where
  ne_nil : ds ≠ []
  final : ∀ d ∈ ds, d ≠ 'Σ' ∧ mapCase Tables.toLowerMany Tables.toLower d = [d]
  same : ∀ d ∈ ds, d = c ∨ 97 ≤ d.toNat ∧ (d.toNat ≤ 122 ∨ 128 ≤ d.toNat)
  solid : ∀ d ∈ ds, d = c ∨ isSpace d = false

/-- A letter is lowered by its run, or stays. -/
theorem mapCase_of_map? {c : Char} (hc : c.toNat ≠ 0x130) :
    mapCase Tables.toLowerMany Tables.toLower c =
      [((CaseRun.map? Tables.toLower c.toNat).map Char.ofNat).getD c] := by
  have hmany : Tables.toLowerMany.lookup c.toNat = none := by
    have hne : (c.toNat == 0x130) = false := beq_eq_false_iff_ne.2 hc
    simp [Tables.toLowerMany, List.lookup_cons, hne]
  rw [mapCase, hmany]

/-- A number that may be a character is the number of that character. -/
theorem toNat_ofNat_of_lt {n : Nat} (h : n < 0xd800 ∨ 0xdfff < n ∧ n < 0x110000) :
    (Char.ofNat n).toNat = n := by
  have hvalid : n.isValidChar := by
    simp only [Nat.isValidChar]
    omega
  have hchar : Char.ofNat n = Char.ofNatAux n hvalid := dif_pos hvalid
  rw [hchar]
  rfl

/-- Lowering gives a letter that is lowered already. -/
theorem lowers_mapCase {c : Char} (hsigma : c ≠ 'Σ') :
    Lowers c (mapCase Tables.toLowerMany Tables.toLower c) := by
  -- one character has two images in the table
  by_cases hc : c.toNat = 0x130
  · have himage : mapCase Tables.toLowerMany Tables.toLower c = ['i', '\u0307'] := by
      rw [mapCase, hc]
      rfl
    rw [himage]
    have hother : ∀ d ∈ ['i', '\u0307'], 97 ≤ d.toNat ∧ (d.toNat ≤ 122 ∨ 128 ≤ d.toNat) :=
      forall_mem_of_all (by decide)
    have hsolid : ∀ d ∈ ['i', '\u0307'], isSpace d = false := forall_mem_of_all (by decide)
    exact ⟨by simp, forall_mem_of_all (by decide), fun d hd => .inr (hother d hd),
      fun d hd => .inr (hsolid d hd)⟩
  rw [mapCase_of_map? hc]
  -- any other has one image, or none
  cases hmap : CaseRun.map? Tables.toLower c.toNat with
  | none =>
    refine ⟨by simp, ?_, by simp, by simp⟩
    simpa [mapCase_of_map? hc, hmap] using hsigma
  | some m =>
    obtain ⟨r, hr, hfirst, hlast, hmod, rfl⟩ := CaseRun.exists_of_map? hmap
    have hfinal := List.all_eq_true.1 isFinal_toLower r hr
    -- what the table was checked for
    simp only [CaseRun.isFinal, CaseRun.image, Bool.and_eq_true, Bool.or_eq_true, Nat.ble_eq,
      Nat.blt_eq] at hfinal
    obtain ⟨⟨⟨⟨⟨⟨⟨hlo, hascii⟩, hdotted⟩, hcapital⟩, hvalid⟩, hmax⟩, hsolid⟩, hmisses⟩ := hfinal
    generalize hm : ((c.toNat : Int) + r.offset).toNat = m
    -- the image has no image of its own
    have hnone : CaseRun.map? Tables.toLower m = none := by
      refine CaseRun.map?_of_misses hmisses (by omega) (by omega) ?_
      have hdistance : m - ((r.first : Int) + r.offset).toNat = c.toNat - r.first := by omega
      rw [hdistance, hmod]
    have htoNat : (Char.ofNat m).toNat = m := toNat_ofNat_of_lt (by omega)
    have hne : (Char.ofNat m).toNat ≠ 0x130 := by omega
    have hsigma' : Char.ofNat m ≠ 'Σ' := by
      intro heq
      have : m = 0x3a3 := by rw [← htoNat, heq]; rfl
      omega
    refine ⟨by simp, ?_, ?_, ?_⟩
    · simpa [mapCase_of_map? hne, htoNat, hnone] using hsigma'
    · simp only [Option.map_some, Option.getD_some, List.mem_singleton, forall_eq]
      exact .inr (by omega)
    · -- the image is no white space
      simp only [Option.map_some, Option.getD_some, List.mem_singleton, forall_eq]
      refine .inr (Bool.eq_false_iff.2 fun hspace => ?_)
      rw [isSpace, htoNat] at hspace
      obtain ⟨q, hq, hin⟩ := Ranges.exists_of_contains hspace
      have hout := List.all_eq_true.1 hsolid q hq
      simp only [Bool.or_eq_true, Nat.blt_eq] at hout
      omega

/-- A text in lower case starts with what its first character becomes. -/
theorem lowerFrom_cons (before : List Char) (c : Char) (rest : List Char) : ∃ ds, Lowers c ds ∧
    lowerFrom before (c :: rest) = ds ++ lowerFrom (c :: before) rest := by
  -- the small letters that a sigma may become
  have hsmall : ∀ d ∈ ['ς', 'σ'], Lowers c [d] := by
    intro d hd
    have hfinal : ∀ d ∈ ['ς', 'σ'], d ≠ 'Σ' ∧ mapCase Tables.toLowerMany Tables.toLower d = [d] :=
      forall_mem_of_all (by decide)
    have hother : ∀ d ∈ ['ς', 'σ'], 128 ≤ d.toNat := forall_mem_of_all (by decide)
    have hsolid : ∀ d ∈ ['ς', 'σ'], isSpace d = false := forall_mem_of_all (by decide)
    refine ⟨by simp, by simpa using hfinal d hd, fun e he => ?_, fun e he => ?_⟩
    · have hcode := hother d hd
      rw [List.mem_singleton.1 he]
      exact .inr ⟨by omega, .inr hcode⟩
    · rw [List.mem_singleton.1 he]
      exact .inr (hsolid d hd)
  rw [lowerFrom]
  refine ⟨_, ?_, rfl⟩
  -- a sigma looks at what stands around it, any other character at the table
  split
  · split
    · exact hsmall 'ς' (by decide)
    · exact hsmall 'σ' (by decide)
  · exact lowers_mapCase ‹_›

/-- What is lowered is a letter that stays, of the text or in the lower range. -/
theorem mem_lowerFrom {before cs : List Char} {d : Char} (hd : d ∈ lowerFrom before cs) :
    (d ≠ 'Σ' ∧ mapCase Tables.toLowerMany Tables.toLower d = [d]) ∧
      (d ∈ cs ∨ 97 ≤ d.toNat ∧ (d.toNat ≤ 122 ∨ 128 ≤ d.toNat)) := by
  induction cs generalizing before with
  | nil => cases hd
  | cons c cs ih =>
    obtain ⟨ds, hds, heq⟩ := lowerFrom_cons before c cs
    rw [heq, List.mem_append] at hd
    rcases hd with hd | hd
    · refine ⟨hds.final d hd, (hds.same d hd).imp_left fun h => ?_⟩
      exact h ▸ List.mem_cons_self
    · exact ⟨(ih hd).1, (ih hd).2.imp_left (List.mem_cons_of_mem c)⟩

/-- Where letters stay, lowering goes on behind them. -/
theorem lowerFrom_append {a : List Char}
    (ha : ∀ c ∈ a, c ≠ 'Σ' ∧ mapCase Tables.toLowerMany Tables.toLower c = [c])
    (before b : List Char) :
    lowerFrom before (a ++ b) = a ++ lowerFrom (a.reverse ++ before) b := by
  induction a generalizing before with
  | nil => rfl
  | cons c a ih =>
    obtain ⟨hsigma, hcase⟩ := ha c List.mem_cons_self
    rw [List.cons_append, lowerFrom, if_neg hsigma, hcase,
      ih fun d hd => ha d (List.mem_cons_of_mem _ hd)]
    simp

/-- A text in lower case stays as it is. -/
theorem lowerChars_lowerChars (cs : List Char) : lowerChars (lowerChars cs) = lowerChars cs := by
  have hfinal : ∀ d ∈ lowerChars cs,
      d ≠ 'Σ' ∧ mapCase Tables.toLowerMany Tables.toLower d = [d] := fun d hd => (mem_lowerFrom hd).1
  have hsame := lowerFrom_append hfinal [] []
  simpa [lowerChars, lowerFrom] using hsame

/-! ## ASCII characters -/

/-- All characters are ASCII ones. -/
def Ascii (cs : List Char) : Prop := ∀ c ∈ cs, c.toNat < 128

/-- What holds of the first 128 code points holds of ASCII characters. -/
theorem forall_ascii {P : Char → Prop} (h : ∀ n < 128, P (Char.ofNat n)) {c : Char}
    (hc : c.toNat < 128) : P c := by
  have hcode := h c.toNat hc
  rwa [Char.ofNat_toNat] at hcode

section

variable {c : Char}

/-- Among the first characters, digits are the ten. -/
theorem isDigit_iff_of_ascii (hc : c.toNat < 128) : isDigit c = c.isDigit :=
  forall_ascii (P := fun c => isDigit c = c.isDigit) (by decide) hc

/-- They are among the first characters. -/
theorem ascii_of_isDigit (h : c.isDigit = true) : c.toNat < 128 := by
  simp only [Char.isDigit, Bool.and_eq_true, decide_eq_true_eq] at h
  have hle : c.toNat ≤ '9'.toNat := UInt32.le_iff_toNat_le.1 h.2
  exact Nat.lt_of_le_of_lt hle (by decide)

/-- A digit is a digit in every respect and none of the other characters of a number. -/
theorem digit_char (h : c.isDigit = true) : isDigit c = true ∧ isDecimal c = true ∧
    c.toLower = c ∧ c ∉ ['_', '.', 'e', 'E', '+', '-', 'n', '\n'] :=
  forall_ascii (P := fun c => c.isDigit = true → isDigit c = true ∧ isDecimal c = true ∧
    c.toLower = c ∧ c ∉ ['_', '.', 'e', 'E', '+', '-', 'n', '\n']) (by decide)
    (ascii_of_isDigit h) h

/-- The first characters are lowered to such characters. -/
theorem toLower_ascii (hc : c.toNat < 128) : c.toLower.toNat < 128 :=
  forall_ascii (P := fun c => c.toLower.toNat < 128) (by decide) hc

/-- A character of a word is lowered to one. -/
theorem isWordChar_toLower (hc : c.toNat < 128) (h : isWordChar c = true) :
    isWordChar c.toLower = true :=
  forall_ascii (P := fun c => isWordChar c = true → isWordChar c.toLower = true) (by decide) hc h

/-- The first characters are lowered one by one. -/
theorem mapCase_of_ascii (hc : c.toNat < 128) :
    mapCase Tables.toLowerMany Tables.toLower c = [c.toLower] ∧ c ≠ 'Σ' :=
  forall_ascii (P := fun c => mapCase Tables.toLowerMany Tables.toLower c = [c.toLower] ∧ c ≠ 'Σ')
    (by decide) hc

/-- Lowering twice is lowering once. -/
theorem toLower_toLower (hc : c.toNat < 128) : c.toLower.toLower = c.toLower :=
  forall_ascii (P := fun c => c.toLower.toLower = c.toLower) (by decide) hc

end

variable {cs : List Char}

/-- ASCII letters are put into lower case one by one. -/
theorem lowerChars_of_ascii (h : Ascii cs) : lowerChars cs = cs.map Char.toLower := by
  rw [lowerChars]
  generalize [] = before
  induction cs generalizing before with
  | nil => rfl
  | cons c cs ih =>
    obtain ⟨himage, hsigma⟩ := mapCase_of_ascii (h c List.mem_cons_self)
    rw [lowerFrom, if_neg hsigma, himage, ih fun d hd => h d (List.mem_cons_of_mem _ hd)]
    rfl

/-- A text of the first characters stays one. -/
theorem Ascii.map_toLower (h : Ascii cs) : Ascii (cs.map Char.toLower) := by
  intro d hd
  obtain ⟨c, hc, rfl⟩ := List.mem_map.1 hd
  exact toLower_ascii (h c hc)

/-- Such a text is lowered once and for all. -/
theorem Ascii.map_toLower_map_toLower (h : Ascii cs) :
    (cs.map Char.toLower).map Char.toLower = cs.map Char.toLower := by
  rw [List.map_map]
  exact List.map_congr_left fun c hc => toLower_toLower (h c hc)

/-! ## The number that digits write -/

/-- Zeros in front of a number do not count. -/
theorem decimalNumber_zeros_append (h : ∀ c ∈ cs, c = '0') (digits : List Char) :
    decimalNumber (cs ++ digits) = decimalNumber digits := by
  induction cs with
  | nil => rfl
  | cons c cs ih =>
    have hzero : 10 * 0 + decimalValue c = 0 := by
      rw [h c List.mem_cons_self]
      decide
    rw [decimalNumber, List.cons_append, List.foldl_cons, hzero]
    exact ih fun d hd => h d (List.mem_cons_of_mem _ hd)

/-- Zeros alone write zero. -/
theorem decimalNumber_zeros (h : ∀ c ∈ cs, c = '0') : decimalNumber cs = 0 := by
  rw [← List.append_nil cs, decimalNumber_zeros_append h []]
  rfl

end Reflow.Text
