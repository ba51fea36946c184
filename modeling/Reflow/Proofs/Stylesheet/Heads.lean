import Reflow.Proofs.Stylesheet.Conserved
import Reflow.Proofs.Stylesheet.Stable
import Reflow.Proofs.Stylesheet.Starts

/-!
# The heads of statements are read again

What is printed of the head of a statement differs from what was read in its white space, in the case of
its name and in the lines of its selectors.  The reader takes it for the head of a statement again, and
for one that is printed in the same way: it has no reason to stop earlier, to go on further or to see
something else in it.  The exceptions are excluded by name: brackets that are still open at the end of
the source, names that lower case makes other names of, and commas in strings where the printer, which
knows no backslashes and no comments, breaks the line.

## Key results

- `begins_atRule`, `begins_declaration`, `begins_selectors`: printed heads are such texts
- `simpleStatement_declaration`, `splitAtRule_printed`, `formatSelector_printed`: what is read of them is
  printed in the same way
-/

namespace Reflow.Stylesheet

variable {a b cs : List Char} {c d : Char} {s r : Scan}

/-! ## Declarations -/

/-- A value behind a space; there is none in front of no value. -/
def spaced (value : List Char) : List Char := if value = [] then [] else ' ' :: value

/-- The space in front of a value is neutral. -/
theorem spaced_eq (value : List Char) :
    ∃ gap, (∀ c ∈ gap, isNeutral c = true) ∧ spaced value = gap ++ value := by
  rw [spaced]
  split
  · rename_i hempty
    exact ⟨[], nofun, hempty.symm⟩
  · exact ⟨[' '], Text.forall_mem_of_all (by decide), rfl⟩

/-- A value as it is printed behind the name of its property. -/
def printedValue (name value : List Char) : List Char :=
  if Text.startsWith name ['-', '-'] then value else formatValueChars value

/-- What is printed of a declaration in front of its semicolon. -/
def declarationHead (property value : List Char) (important : Bool) : List Char :=
  let name := (Piece.property property).printed
  name ++ ':' :: (spaced (printedValue name value) ++ if important then " !important".toList else [])

/-- The parts of a declaration that is read: between them there are white space, the colon and the mark
of importance. -/
structure Declares (text property value : List Char) (important : Bool) : Prop where
  tightProperty : Text.Tight property
  noColon : ':' ∉ property
  tightValue : Text.Tight value
  unmarked : important = false → ∀ word, isImportant word = true → ¬IsMarked word value
  split : ∃ space space' mark, text = property ++ ((space ++ ':' :: space') ++ (value ++ mark)) ∧
    (∀ x ∈ space, Text.isSpace x = true) ∧ (∀ x ∈ space', Text.isSpace x = true) ∧
      (∀ x ∈ mark, isQuiet x = true) ∧ (mark = [] ↔ important = false)

/-- What is cut at the colon and in front of the mark of importance are the parts of a declaration.
-/
theorem declares_of_split {text property value before : List Char} {important : Bool}
    (htight : Text.Tight text) (hcolon : splitColon? text = some (property, value))
    (himportant : splitImportant value = (before, important)) :
    Declares text (Text.trimChars property) (Text.trimChars before) important := by
  have htext := splitColon?_eq hcolon
  -- the colon at which the text is cut is the first one
  have hnone : ':' ∉ property := by
    rw [splitColon?] at hcolon
    split at hcolon
    · obtain ⟨rfl, -⟩ := Prod.mk.inj (Option.some.inj hcolon)
      intro hmem
      have hall := List.mem_takeWhile_imp hmem
      simp at hall
    · cases hcolon
  obtain ⟨front, space, hproperty, hfront, hspace⟩ := Text.trimChars_split property
  obtain ⟨space', back, hbefore, hspace', hback⟩ := Text.trimChars_split before
  -- the text does not start with white space, so the property does not
  have hstart : front = [] := by
    cases front with
    | nil => rfl
    | cons x front =>
      have hx := htight.head x (by rw [htext, hproperty]; rfl)
      rw [hfront x List.mem_cons_self] at hx
      cases hx
  subst hstart
  -- trimming takes no colon into the property
  have hmem : ':' ∉ Text.trimChars property := fun hmem =>
    hnone (hproperty ▸ List.mem_append_right _ (List.mem_append_left _ hmem))
  cases important with
  | false =>
    obtain rfl := splitImportant_false himportant
    -- without a mark the value ends where the text ends, which is not in white space
    have hlast : ∀ c ∈ before.getLast?, Text.isSpace c = false := by
      intro c hc
      refine htight.last c ?_
      rw [Option.mem_def] at hc ⊢
      rw [htext, List.getLast?_append, List.getLast?_cons, hc]
      rfl
    have hend : back = [] := by
      rw [hbefore, ← List.append_assoc] at hlast
      exact eq_nil_of_last hback hlast
    subst hend
    refine ⟨Text.tight_trimChars _, hmem, Text.tight_trimChars _, ?_, space, space', [], ?_,
      hspace, hspace', List.forall_mem_nil _, by simp⟩
    · -- a word of importance at the end of the value would have been found
      rintro - word hword ⟨left, right, hsplit, hright⟩
      have hmarked : IsMarked word before := by
        rw [hbefore, hsplit]
        exact ⟨space' ++ left, right, by simp, hright⟩
      have htrue := splitImportant_of_isMarked hword hlast hmarked
      rw [himportant] at htrue
      cases htrue
    · rw [htext]
      conv => lhs; rw [hproperty, hbefore]
      simp
  | true =>
    -- with a mark the value ends in front of it
    obtain ⟨gap, gap', word, hvalue, hgap, hgap', hword⟩ := splitImportant_true himportant
    refine ⟨Text.tight_trimChars _, hmem, Text.tight_trimChars _,
      fun hfalse => absurd hfalse.symm Bool.false_ne_true, space, space',
      back ++ (gap ++ '!' :: (gap' ++ word)), ?_, hspace, hspace', ?_, by simp⟩
    · rw [htext, hvalue]
      conv => lhs; rw [hproperty, hbefore]
      simp
    · -- between the value and the end there are white space, the mark and its word
      intro x hx
      simp only [List.mem_append, List.mem_cons] at hx
      rcases hx with hx | hx | rfl | hx | hx
      · exact isQuiet_of_isSpace (hback x hx)
      · exact isQuiet_of_isSpace (hgap x hx)
      · decide
      · exact isQuiet_of_isSpace (hgap' x hx)
      · exact isQuiet_of_isNeutral (not_isLoose_of_isImportant hword x hx).2.1

/-- The reader passes over what is printed of a declaration as it passed over what was read. -/
theorem Declares.passed {text property value name gap printed mark : List Char} {important : Bool}
    (h : Declares text property value important) (hname : Passed property name)
    (hgap : ∀ c ∈ gap, isNeutral c = true) (hvalue : Passed (' ' :: value) (' ' :: printed))
    (hmark : ∀ c ∈ mark, isNeutral c = true) (hnone : mark = [] ↔ important = false) :
    Passed text (name ++ ':' :: (gap ++ (printed ++ mark))) := by
  obtain ⟨space, space', mark', rfl, hspace, hspace', hmark', hnone'⟩ := h.split
  have hcolon : isNeutral ':' = true := by decide
  -- the mark stays a mark, or there is none
  have htail : Passed (' ' :: (value ++ mark')) (' ' :: (printed ++ mark)) := by
    by_cases hempty : mark = []
    · have hempty' := hnone'.2 (hnone.1 hempty)
      rw [hempty, hempty', List.append_nil, List.append_nil]
      exact hvalue
    · exact hvalue.end hmark' (fun h => hempty (hnone.2 (hnone'.1 h))) hmark hempty
  have hgap' : ∀ c ∈ ':' :: gap, isNeutral c = true := List.forall_mem_cons.2 ⟨hcolon, hgap⟩
  -- what stands between the property and the value is neutral in either text
  refine hname.join (fun c hc => ?_) (by simp) hgap' (List.cons_ne_nil _ _) htail
  simp only [List.mem_append, List.mem_cons] at hc
  rcases hc with hc | rfl | hc
  · exact isQuiet_of_isSpace (hspace c hc)
  · exact isQuiet_of_isNeutral hcolon
  · exact isQuiet_of_isSpace (hspace' c hc)

/-- The reader passes over the name of a property as it passes over the lower case that is printed.
-/
theorem passed_property (property : List Char) : Passed property (Piece.property property).printed := by
  rw [Piece.printed]
  split
  · exact .refl property
  · exact passed_lowerFrom [] property

/-- The value that is printed is a respacing of the one that is read. -/
theorem respacing_printedValue (name value : List Char) :
    Respacing (' ' :: value) (' ' :: printedValue name value) := by
  rw [printedValue]
  split
  · exact .refl _
  · exact respacing_formatValueChars rfl value

/-- A printed value is printed as it is; white space around it does not matter. -/
theorem printedValue_again (name : List Char) {value : List Char} (h : Text.Tight value) :
    printedValue name (Text.trimChars (printedValue name value)) = printedValue name value := by
  rw [printedValue]
  split
  · rename_i hcustom
    rw [printedValue, if_pos hcustom, h.trimChars]
  · rename_i hcustom
    rw [printedValue, if_neg hcustom, formatValueChars_trimChars, formatValueChars_formatValueChars]

/-- Printing makes no value of white space only. -/
theorem trimChars_printedValue (name : List Char) {value : List Char} (h : Text.Tight value)
    (hnone : Text.trimChars (printedValue name value) = []) : printedValue name value = [] := by
  have hagain := printedValue_again name h
  rw [hnone] at hagain
  rw [← hagain, printedValue]
  split <;> rfl

/-- What a placeholder starts with ends in front of a character that is in none. -/
theorem placeholderStart_prefix {rest : List Char} (hrest : ∀ c ∈ rest.head?, delimits c = true)
    (h : placeholderStart <+: cs ++ rest) : placeholderStart <+: cs := by
  have hletters : ∀ c ∈ placeholderStart, delimits c = false := Text.forall_mem_of_all (by decide)
  -- the placeholder would end within the text, or behind it
  rcases List.prefix_or_prefix_of_prefix h (List.prefix_append cs rest) with hcs | ⟨t, ht⟩
  · exact hcs
  · cases t with
    | nil =>
      rw [List.append_nil] at ht
      rw [ht]
    | cons c t =>
      -- behind the text there is a delimiter, which is in no placeholder
      rw [← ht, List.prefix_append_right_inj] at h
      obtain ⟨z, rfl⟩ := h
      have hc := hrest c rfl
      rw [hletters c (by simp [← ht])] at hc
      cases hc

/-- The property of a declaration starts with an at sign only if a placeholder stands there. -/
theorem Declares.startsWith {text property value : List Char} {important : Bool}
    (h : Declares text property value important) (hrule : isAtRule text = false)
    (hat : property.head? = some '@') : Text.startsWith property placeholderStart = true := by
  obtain ⟨space, space', mark, rfl, hspace, -⟩ := h.split
  -- the at sign is the first character of the property
  obtain ⟨tail, rfl⟩ := List.head?_eq_some_iff.1 hat
  simp only [isAtRule, List.cons_append, List.head?_cons, beq_self_eq_true, Bool.true_and,
    Bool.not_eq_false', Text.startsWith_iff] at hrule ⊢
  have hrule : placeholderStart <+: ('@' :: tail) ++ (space ++ ':' :: (space' ++ (value ++ mark))) := by
    simpa using hrule
  -- behind the property there is white space or the colon
  refine placeholderStart_prefix ?_ hrule
  cases space with
  | nil =>
    rintro c ⟨⟩
    decide
  | cons x space =>
    rintro c ⟨⟩
    exact delimits_of_isSpace (hspace _ List.mem_cons_self)

/-- A statement begins with what is printed of a declaration. -/
theorem begins_declaration {text property value : List Char} {important : Bool}
    (hbegins : Begins text r) (hrule : isAtRule text = false)
    (h : Declares text property value important) :
    ∃ r', Begins (declarationHead property value important) r' ∧ r'.depth = r.depth := by
  have hmark : ∀ c ∈ (if important then " !important".toList else []), isNeutral c = true := by
    cases important <;> exact Text.forall_mem_of_all (by decide)
  have hnone : (if important then " !important".toList else []) = [] ↔ important = false := by
    cases important <;> simp
  have hvalue := (respacing_printedValue (Piece.property property).printed value).passed
  obtain ⟨gap, hgap, hspaced⟩ := spaced_eq (printedValue (Piece.property property).printed value)
  have hpassed := h.passed (passed_property property) hgap hvalue hmark hnone
  rw [declarationHead, hspaced, List.append_assoc]
  obtain ⟨space, space', mark, htext, -⟩ := h.split
  have hopens := hbegins.opens
  have hunstopped := hbegins.unstopped
  rw [htext] at hopens hunstopped
  -- a name that begins a statement does so in lower case, too
  have hopens' : Opens ((Piece.property property).printed ++ ':' :: (gap ++
      (printedValue (Piece.property property).printed value ++
        if important then " !important".toList else []))) := by
    have hcolon : some ':' ∉ [some '*', some '/'] := by decide
    -- without a name the text starts with the colon
    by_cases hproperty : property = []
    · rw [hproperty]
      exact .intro (by decide) (by decide) nofun
    · rw [Piece.printed]
      split
      · exact hopens.front hproperty hcolon
      · exact hopens.lowerChars hproperty hcolon
  refine hbegins.of_passed (hpassed {} r hbegins.passes) hopens' ?_
  by_cases hkeeps : keepsCase property = true
  · -- the property stays, and behind it there is a colon
    rw [Piece.printed, if_pos hkeeps]
    exact hunstopped.front (by decide) (by decide)
  · -- a placeholder in the name would have kept its case
    refine unstopped_of_not_startsWith hopens'.head fun hstart => hkeeps ?_
    have hname := placeholderStart_prefix (fun c hc => by cases hc; decide) hstart
    rw [Piece.printed, if_neg hkeeps] at hname
    obtain ⟨tail, htail⟩ := hname
    obtain ⟨b, hb, -⟩ := lowerFrom_caseless (d := '@') (by decide) htail.symm
    rw [keepsCase, h.startsWith hrule (by rw [hb]; rfl), Bool.or_true]

/-- White space that is dropped at the end is trimmed anyway. -/
theorem trimChars_dropEndWhile (cs : List Char) :
    Text.trimChars (Text.dropEndWhile Text.isSpace cs) = Text.trimChars cs := by
  have hsplit : Text.dropEndWhile Text.isSpace cs ++ cs.rtakeWhile Text.isSpace = cs :=
    List.rdropWhile_append_rtakeWhile
  have hspace : ∀ c ∈ cs.rtakeWhile Text.isSpace, Text.isSpace c = true := fun c hc =>
    List.mem_rtakeWhile_imp hc
  rw [← Text.trimChars_back hspace, hsplit]

/-- The space in front of a value is trimmed again. -/
theorem trimChars_of_spaced (value : List Char) :
    Text.trimChars (spaced value) = Text.trimChars value := by
  rw [spaced]
  split
  · rename_i hempty
    rw [hempty]
  · exact Text.trimChars_space _

/-- The value starts with that space, if it starts with anything. -/
theorem head?_of_spaced {front value back : List Char} (h : spaced value = front ++ back) :
    ∀ c ∈ front.head?, c = ' ' := by
  rw [spaced] at h
  cases front with
  | nil =>
    intro c hc
    cases hc
  | cons d front =>
    split at h
    · cases h
    · rintro c ⟨⟩
      exact (List.cons.inj h).1.symm

/-- A value behind a space, trimmed at its end. -/
theorem trimChars_spaced (ha : Text.Tight a) (hne : a ≠ [])
    (hb : Text.trimChars b = [] → b = []) : ∃ value back, Text.trimChars (a ++ spaced b) = a ++ value ∧
      spaced b = value ++ back ∧ ∀ x ∈ back, Text.isSpace x = true := by
  obtain ⟨front, back, hsplit, hfront, hback⟩ := Text.trimChars_split b
  -- a value of white space only is no value
  by_cases hempty : Text.trimChars b = []
  · rw [hb hempty]
    exact ⟨[], [], by rw [spaced, if_pos rfl, List.append_nil, ha.trimChars], rfl, nofun⟩
  · -- the space in front of the value is within the text that is trimmed
    have hbne : b ≠ [] := by
      rintro rfl
      exact hempty rfl
    refine ⟨' ' :: (front ++ Text.trimChars b), back, ?_, ?_, hback⟩
    · -- the head starts the text and the value ends it
      have htight : Text.Tight (a ++ ' ' :: (front ++ Text.trimChars b)) := by
        constructor
        · rw [List.head?_append_of_ne_nil _ hne]
          exact ha.head
        · rw [← List.cons_append, ← List.append_assoc, List.getLast?_append_of_ne_nil _ hempty]
          exact (Text.tight_trimChars b).last
      have hnone : ∀ c ∈ [], Text.isSpace c = true := nofun
      have hall := htight.trimChars_eq hnone hback
      rw [spaced, if_neg hbne]
      conv => lhs; rw [hsplit]
      simpa using hall
    · rw [spaced, if_neg hbne]
      conv => lhs; rw [hsplit]
      simp

/-- A text is cut at its first colon. -/
theorem splitColon?_append (ha : ':' ∉ a) (b : List Char) :
    splitColon? (a ++ ':' :: b) = some (a, b) := by
  have hall : ∀ c ∈ a, (c != ':') = true := fun c hc => bne_iff_ne.2 fun h => ha (h ▸ hc)
  have htake : (a ++ ':' :: b).takeWhile (· != ':') = a := by
    rw [List.takeWhile_append_of_pos hall]
    simp
  simp only [splitColon?, htake]
  rw [if_pos (by simp)]
  simp

/-- The name of a property as it is printed. -/
theorem Declares.name {text property value : List Char} {important : Bool}
    (h : Declares text property value important) :
    Text.Tight (Piece.property property).printed ∧ ':' ∉ (Piece.property property).printed ∧
      (Piece.property (Piece.property property).printed).printed =
        (Piece.property property).printed := by
  -- the name keeps its case, or is in lower case, which stays as it is
  by_cases hkeeps : keepsCase property = true
  · have hname : (Piece.property property).printed = property := if_pos hkeeps
    rw [hname, hname]
    exact ⟨h.tightProperty, h.noColon, rfl⟩
  · have hname : (Piece.property property).printed = Text.lowerChars property := if_neg hkeeps
    rw [hname]
    refine ⟨tight_lowerChars h.tightProperty,
      fun hmem => h.noColon (mem_lowerChars_caseless (by decide) hmem), ?_⟩
    rw [Piece.printed, Text.lowerChars_lowerChars]
    split <;> rfl

/-- The printer makes no mark of importance in a value that has none. -/
theorem Declares.printed_unmarked {text property value word : List Char}
    (h : Declares text property value false) (name : List Char) (hword : isImportant word = true) :
    ¬IsMarked word (spaced (printedValue name value)) := by
  intro hmarked
  have hne : word ≠ [] := by
    rintro rfl
    cases hword
  rw [spaced] at hmarked
  split at hmarked
  · -- white space is put where the mark could be loosened only, so it would have been one before
    obtain ⟨left, right, hnil, -⟩ := hmarked
    cases left <;> cases hnil
  · have hvalue := (respacing_printedValue name value).isMarked
      (fun c hc => (not_isLoose_of_isImportant hword c hc).1) hne hmarked
    exact absurd (hvalue.tail rfl) (h.unmarked rfl word hword)

/-- What is read of a printed declaration: the name of its property, and a value that is printed in the
same way. -/
theorem declarationHead_read {text property value : List Char} {important : Bool}
    (h : Declares text property value important) : ∃ rest before,
      Text.trimChars (declarationHead property value important) =
        (Piece.property property).printed ++ ':' :: rest ∧
      splitImportant rest = (before, important) ∧
      Text.trimChars before =
        Text.trimChars (printedValue (Piece.property property).printed value) := by
  obtain ⟨hname, -, -⟩ := h.name
  generalize hprinted : (Piece.property property).printed = name at hname
  rw [declarationHead, hprinted]
  -- the name and the colon are not trimmed
  have hhead : Text.Tight (name ++ [':']) := by
    constructor
    · cases name with
      | nil => rintro c ⟨⟩; decide
      | cons c name => exact hname.head
    · rw [List.getLast?_append_of_ne_nil _ (List.cons_ne_nil _ _)]
      rintro c ⟨⟩
      decide
  have hne : name ++ [':'] ≠ [] := by simp
  have hnone := trimChars_printedValue name h.tightValue
  cases important with
  -- the mark that is printed is found again
  | true =>
    have hword : isImportant "important".toList = true := by decide
    have hmark : " !important".toList = [' '] ++ '!' :: ([] ++ "important".toList) := by decide
    refine ⟨spaced (printedValue name value) ++ " !important".toList,
      Text.dropEndWhile Text.isSpace (spaced (printedValue name value) ++ [' ']), ?_, ?_, ?_⟩
    · -- neither end of the head is white space
      refine Text.Tight.trimChars ⟨?_, ?_⟩
      · have hstart : ∀ rest, (name ++ ':' :: rest).head? = (name ++ [':']).head? := by
          intro rest
          cases name <;> rfl
        rw [hstart]
        exact hhead.head
      · rw [if_pos rfl, ← List.cons_append, ← List.append_assoc,
          List.getLast?_append_of_ne_nil _ (by decide)]
        intro c hc
        obtain rfl : 't' = c := Option.some.inj hc
        decide
    · rw [hmark, ← List.append_assoc, splitImportant_marked (List.forall_mem_nil _) hword]
    · rw [trimChars_dropEndWhile, Text.trimChars_back (Text.forall_mem_of_all (by decide)),
        trimChars_of_spaced]
  -- without a mark none is found: white space makes no word of importance
  | false =>
    obtain ⟨rest, back, htrim, hrest, hback⟩ := trimChars_spaced hhead hne hnone
    refine ⟨rest, rest, by simpa using htrim, ?_, ?_⟩
    · cases hsplit : splitImportant rest with
      | mk before important =>
        -- a mark that is found stood in the value before
        cases important with
        | false => rw [splitImportant_false hsplit]
        | true =>
          obtain ⟨space, space', word, rfl, -, hspace', hword⟩ := splitImportant_true hsplit
          refine absurd ?_ (h.printed_unmarked name hword)
          rw [hrest]
          exact IsMarked.append hback
            ⟨before ++ space, space' ++ word, by simp, space', [], hspace', List.forall_mem_nil _,
              by simp⟩
    · rw [← trimChars_of_spaced (printedValue name value), hrest, Text.trimChars_back hback]

/-- The space in front of a value, on strings. -/
theorem toList_spaced (value : String) :
    (if value == "" then "" else " " ++ value).toList = spaced value.toList := by
  rw [spaced]
  by_cases h : value = ""
  · rw [h]
    rfl
  · have hne : value.toList ≠ [] := fun hnil => h (String.toList_eq_nil_iff.1 hnil)
    rw [if_neg (by simpa using h), if_neg hne, String.toList_append]
    rfl

/-- A declaration as it is printed: its name, the colon, the value behind a space and the mark of
importance. -/
theorem printDeclaration_eq (property value : List Char) (important : Bool) :
    printDeclaration (String.ofList property) (String.ofList value) important =
      .cat [.text (String.ofList (Piece.property property).printed), ":",
        .text (String.ofList (spaced (printedValue (Piece.property property).printed value))),
        .text (if important then " !important" else ""), ";"] := by
  -- each of the three texts is that of its piece
  have hname : (if keepsCase property then String.ofList property
      else Text.lower (String.ofList property)) = String.ofList (Piece.property property).printed := by
    rw [Piece.printed]
    split <;> simp [Text.lower]
  have hvalue : ∀ name, (if Text.startsWith name ['-', '-'] then String.ofList value
      else formatValue (String.ofList value)) = String.ofList (printedValue name value) := by
    intro name
    rw [printedValue]
    split <;> simp [formatValue]
  have hspaced : ∀ value, (if String.ofList value == "" then "" else " " ++ String.ofList value) =
      String.ofList (spaced value) := by
    intro value
    rw [← String.toList_inj, toList_spaced]
    simp
  simp only [printDeclaration, String.toList_ofList, hname, hvalue, hspaced]

/-- The printed property of a declaration does not start an at-rule. -/
theorem Declares.not_isAtRule {text property value : List Char} {important : Bool}
    (h : Declares text property value important) (hrule : isAtRule text = false) (rest : List Char) :
    isAtRule ((Piece.property property).printed ++ ':' :: rest) = false := by
  -- an at sign in front was there before, and so was the placeholder that starts with it
  rw [Bool.eq_false_iff]
  intro hprinted
  obtain ⟨hat, hstart⟩ := Bool.and_eq_true_iff.1 hprinted
  have hstart : ¬placeholderStart <+: (Piece.property property).printed ++ ':' :: rest := by
    simpa [← Text.startsWith_iff] using hstart
  -- a name that keeps its case is the property
  by_cases hkeeps : keepsCase property = true
  · rw [Piece.printed, if_pos hkeeps] at hat hstart
    cases property with
    | nil => cases hat
    | cons c property =>
      have hproperty := h.startsWith hrule (by simpa using hat)
      exact hstart ((Text.startsWith_iff.1 hproperty).trans (List.prefix_append ..))
  · rw [Piece.printed, if_neg hkeeps] at hat
    cases hlower : Text.lowerChars property with
    | nil =>
      rw [hlower] at hat
      cases hat
    -- in lower case the at sign comes from an at sign only
    | cons d ds =>
      rw [hlower] at hat
      obtain rfl : d = '@' := by simpa using hat
      obtain ⟨b, rfl, -⟩ := lowerFrom_caseless (by decide) hlower
      rw [keepsCase, h.startsWith hrule rfl, Bool.or_true] at hkeeps
      exact hkeeps rfl

/-- A printed declaration is read as one that is printed in the same way. -/
theorem simpleStatement_declaration {text property value : List Char} {important : Bool}
    (hrule : isAtRule text = false) (h : Declares text property value important) (start : Nat)
    (blank : Bool) : ∃ s,
      simpleStatement start (Text.trimChars (declarationHead property value important)) true blank =
        .ok s ∧
      s.print = printDeclaration (String.ofList property) (String.ofList value) important ∧
      s.blankBefore = blank := by
  obtain ⟨rest, before, htext, hsplit, hbefore⟩ := declarationHead_read h
  obtain ⟨htight, hcolon, hname⟩ := h.name
  -- the colon is in no placeholder
  have hnotAlone : isPlaceholder ((Piece.property property).printed ++ ':' :: rest) = false := by
    rw [Bool.eq_false_iff]
    exact fun halone => not_mem_placeholder (c := ':') halone (by decide) (by simp)
  refine ⟨.declaration (Text.trim (String.ofList (Piece.property property).printed))
    (some (Text.trim (String.ofList before))) important true blank, ?_, ?_, rfl⟩
  · -- the head is cut at the same colon, and in front of the same mark
    rw [htext, simpleStatement, hnotAlone, h.not_isAtRule hrule, splitColon?_append hcolon]
    simp only [Bool.false_eq_true, if_false, hsplit]
  · rw [Statement.print, Text.trim, Text.trim, printDeclaration_eq, printDeclaration_eq,
      String.toList_ofList, String.toList_ofList, htight.trimChars, hname, hbefore,
      printedValue_again _ h.tightValue]

/-! ## At-rules -/

/-- Is the character one of those that the name of an at-rule is made of? -/
def isNameChar (c : Char) : Bool := Text.isWordChar c || c == '-'

/-- Is the name of an at-rule, in lower case, read as its name again? -/
def keepsName (name : List Char) : Bool :=
  !Text.startsWith ('@' :: Text.lowerChars name) placeholderStart &&
    (Text.lowerChars name).takeWhile isNameChar == Text.lowerChars (name.takeWhile isNameChar)

/-- The name of an at-rule is the longest run of name characters, and the rest the parameters;
without such a run all is the name. -/
theorem splitAtRule_cons (c : Char) (body : List Char) : splitAtRule (c :: body) =
    if (body.takeWhile isNameChar).isEmpty then (String.ofList body, "")
    else (String.ofList (body.takeWhile isNameChar),
      String.ofList ((body.drop (body.takeWhile isNameChar).length).dropWhile Text.isSpace)) := rfl

/-- The head of an at-rule: white space is between its name and its parameters.  What starts with another
character than names do is all name. -/
theorem splitAtRule_split {text : List Char} {name params : String} (hrule : isAtRule text = true)
    (hsplit : splitAtRule text = (name, params)) : ∃ space,
      text = '@' :: (name.toList ++ (space ++ params.toList)) ∧ (∀ x ∈ space, Text.isSpace x = true) ∧
        (name.toList ≠ [] ∧ (∀ c ∈ name.toList, isNameChar c = true) ∨
          space = [] ∧ params.toList = [] ∧ name.toList.takeWhile isNameChar = []) := by
  obtain ⟨body, rfl⟩ := List.head?_eq_some_iff.1 (beq_iff_eq.1 (Bool.and_eq_true_iff.1 hrule).1)
  rw [splitAtRule_cons] at hsplit
  split at hsplit
  · -- without a name everything behind the sign is the name
    rename_i hempty
    cases hsplit
    exact ⟨[], by simp, nofun, .inr ⟨rfl, rfl, by simpa using hempty⟩⟩
  · -- the name, the white space behind it and the parameters
    rename_i hname
    cases hsplit
    have hbody := List.prefix_iff_eq_append.1 (List.takeWhile_prefix (l := body) isNameChar)
    refine ⟨(body.drop (body.takeWhile isNameChar).length).takeWhile Text.isSpace, ?_,
      fun x hx => List.mem_takeWhile_imp hx, .inl ⟨fun hnil => hname ?_, fun c hc => ?_⟩⟩
    rotate_left
    · rw [String.toList_ofList] at hnil
      exact List.isEmpty_iff.2 hnil
    · rw [String.toList_ofList] at hc
      exact List.mem_takeWhile_imp hc
    · rw [String.toList_ofList, String.toList_ofList, List.takeWhile_append_dropWhile, hbody]

/-- The head of an at-rule is the name in lower case and the formatted parameters behind a space. -/
theorem toList_atRuleHead (name params : String) : (atRuleHead name params).toList =
    '@' :: (Text.lowerChars name.toList ++ spaced (formatValueChars params.toList)) := by
  have hparams : (if params == "" then "" else formatValue params).toList =
      formatValueChars params.toList := by
    by_cases h : params = ""
    · rw [h]
      decide
    · rw [if_neg (by simpa using h), formatValue, String.toList_ofList]
  rw [atRuleHead, String.toList_append, toList_spaced, hparams]
  simp [Text.lower]

/-- No character of a name means anything to the reader. -/
theorem isNeutral_of_isNameChar (hc : isNameChar c = true) : isNeutral c = true := by
  have hnone : ∀ d ∈ marks, isNameChar d = false := Text.forall_mem_of_all (by decide +kernel)
  rw [isNeutral_iff]
  intro hmem
  rw [hnone c hmem] at hc
  cases hc

/-- None is white space. -/
theorem isSpace_of_isNameChar (hc : isNameChar c = true) : Text.isSpace c = false := by
  rw [Bool.eq_false_iff]
  intro hspace
  rw [isNameChar, Text.isWordChar_of_isSpace hspace, Bool.false_or, beq_iff_eq] at hc
  rw [hc] at hspace
  cases hspace

/-- A statement begins with what is printed of the head of an at-rule. -/
theorem begins_atRule {text : List Char} {name params : String} (hbegins : Begins text r)
    (hrule : isAtRule text = true) (hsplit : splitAtRule text = (name, params))
    (hkeeps : keepsName name.toList = true) :
    ∃ r', Begins (atRuleHead name params).toList r' ∧ r'.depth = r.depth := by
  obtain ⟨space, htext, hspace, hcases⟩ := splitAtRule_split hrule hsplit
  -- the head passes over as the text does
  have hpassed : Passed text (atRuleHead name params).toList := by
    rw [toList_atRuleHead, htext]
    rcases hcases with ⟨-, hname⟩ | ⟨rfl, hparams, -⟩
    · -- the name is neutral, and so are the spaces behind it
      have hneutral : ∀ c ∈ name.toList, isNeutral c = true := fun c hc =>
        isNeutral_of_isNameChar (hname c hc)
      have hvalue := (respacing_formatValueChars (d := ' ') rfl params.toList).passed
      obtain ⟨gap, hgap, hspaced⟩ := spaced_eq (formatValueChars params.toList)
      have hquiet : ∀ c ∈ '@' :: (name.toList ++ space), isQuiet c = true := by
        refine List.forall_mem_cons.2
          ⟨by decide, List.forall_mem_append.2 ⟨fun c hc => ?_, fun c hc => ?_⟩⟩
        · exact isQuiet_of_isNeutral (hneutral c hc)
        · exact isQuiet_of_isSpace (hspace c hc)
      have hprinted : ∀ c ∈ '@' :: (Text.lowerChars name.toList ++ gap), isNeutral c = true :=
        List.forall_mem_cons.2
          ⟨by decide, List.forall_mem_append.2 ⟨isNeutral_lowerChars hneutral, hgap⟩⟩
      have hjoin := (Passed.refl []).join hquiet (List.cons_ne_nil _ _) hprinted
        (List.cons_ne_nil _ _) hvalue
      rw [hspaced]
      simpa using hjoin
    · -- without a name there are no parameters, and lower case changes no mark
      have hnone : spaced (formatValueChars params.toList) = [] := by
        rw [hparams]
        decide
      rw [hnone, hparams]
      have hlower : Passed ('@' :: name.toList) ('@' :: Text.lowerChars name.toList) :=
        (passed_lowerFrom [] name.toList).cons '@'
      simpa using hlower
  have hopens : Opens (atRuleHead name params).toList := by
    rw [toList_atRuleHead]
    exact .intro (by decide) (by decide) nofun
  -- a placeholder at the start would be that of the name
  refine hbegins.of_passed (hpassed {} r hbegins.passes) hopens
    (unstopped_of_not_startsWith hopens.head fun hstart => ?_)
  rw [toList_atRuleHead, ← List.cons_append] at hstart
  have hname := placeholderStart_prefix ?_ hstart
  · rw [keepsName, Text.startsWith_iff.2 hname] at hkeeps
    cases hkeeps
  · -- behind the name there is white space or the end
    rw [spaced]
    split
    · nofun
    · rintro c ⟨⟩
      decide

/-- White space that is dropped in front is trimmed anyway. -/
theorem trimChars_dropWhile (cs : List Char) :
    Text.trimChars (cs.dropWhile Text.isSpace) = Text.trimChars cs := by
  have hspace : ∀ c ∈ cs.takeWhile Text.isSpace, Text.isSpace c = true := fun c hc =>
    List.mem_takeWhile_imp hc
  rw [← Text.trimChars_front hspace, List.takeWhile_append_dropWhile]

/-- The name of an at-rule is printed without white space around it. -/
theorem tight_atRuleName {text : List Char} {name params : String} (htight : Text.Tight text)
    (hrule : isAtRule text = true) (hsplit : splitAtRule text = (name, params)) :
    Text.Tight ('@' :: Text.lowerChars name.toList) := by
  obtain ⟨space, htext, -, hcases⟩ := splitAtRule_split hrule hsplit
  -- the name ends in a name character, or where the text does
  have hlast : ∀ c ∈ name.toList.getLast?, Text.isSpace c = false := by
    rcases hcases with ⟨-, hname⟩ | ⟨hnone, hparams, -⟩
    · exact fun c hc => isSpace_of_isNameChar (hname c (List.mem_of_getLast? hc))
    · intro c hc
      refine htight.last c ?_
      rw [Option.mem_def] at hc ⊢
      rw [htext, hnone, hparams, List.append_nil, List.append_nil, List.getLast?_cons, hc]
      rfl
  constructor
  · -- the sign in front is no white space
    rintro c ⟨⟩
    decide
  · have hlower := getLast?_lowerFrom [] hlast
    intro c hc
    rw [Option.mem_def, List.getLast?_cons] at hc
    cases hend : (Text.lowerChars name.toList).getLast? with
    | none =>
      rw [hend] at hc
      obtain rfl : '@' = c := Option.some.inj hc
      decide
    | some d =>
      rw [hend] at hc
      obtain rfl : d = c := Option.some.inj hc
      exact hlower d hend

/-- The printed head of an at-rule is read as one that is printed in the same way. -/
theorem splitAtRule_printed {text : List Char} {name params : String} (htight : Text.Tight text)
    (hrule : isAtRule text = true) (hsplit : splitAtRule text = (name, params))
    (hkeeps : keepsName name.toList = true) :
    isPlaceholder (Text.trimChars (atRuleHead name params).toList) = false ∧
      isAtRule (Text.trimChars (atRuleHead name params).toList) = true ∧
      ∃ name' params', splitAtRule (Text.trimChars (atRuleHead name params).toList) =
        (name', params') ∧ atRuleHead name' params' = atRuleHead name params := by
  obtain ⟨_, -, -, hcases⟩ := splitAtRule_split hrule hsplit
  simp only [keepsName, Bool.and_eq_true, Bool.not_eq_true', beq_iff_eq] at hkeeps
  obtain ⟨hstart, htake⟩ := hkeeps
  have hhead := tight_atRuleName htight hrule hsplit
  have hvalue : Text.trimChars (formatValueChars params.toList) = [] →
      formatValueChars params.toList = [] := by
    intro hempty
    rw [← formatValueChars_formatValueChars, ← formatValueChars_trimChars, hempty]
    decide
  obtain ⟨value, back, htrim, hspaced, hback⟩ := trimChars_spaced hhead (List.cons_ne_nil _ _) hvalue
  have hnext := head?_of_spaced hspaced
  have hparams : formatValueChars (value.dropWhile Text.isSpace) = formatValueChars params.toList := by
    have hvalue : Text.trimChars value = Text.trimChars (formatValueChars params.toList) := by
      rw [← Text.trimChars_back hback, ← hspaced, trimChars_of_spaced]
    rw [← formatValueChars_trimChars, trimChars_dropWhile, hvalue, formatValueChars_trimChars,
      formatValueChars_formatValueChars]
  -- no letter of a placeholder is a space, so the start of one would be in the name
  have hnotStart : ¬placeholderStart <+: '@' :: (Text.lowerChars name.toList ++ value) := by
    intro hprefix
    rw [← List.cons_append] at hprefix
    have hname := placeholderStart_prefix (fun c hc => by rw [hnext c hc]; decide) hprefix
    rw [Text.startsWith_iff.2 hname] at hstart
    cases hstart
  rw [toList_atRuleHead, ← List.cons_append, htrim, List.cons_append]
  refine ⟨?_, ?_, String.ofList (Text.lowerChars name.toList),
    String.ofList (value.dropWhile Text.isSpace), ?_, ?_⟩
  · rw [Bool.eq_false_iff]
    intro halone
    obtain ⟨digits, -, hdigits⟩ := eq_placeholderOf halone
    refine hnotStart ?_
    rw [hdigits, placeholderOf, List.append_assoc]
    exact List.prefix_append ..
  · rw [isAtRule, Bool.and_eq_true, Bool.not_eq_true', Bool.eq_false_iff, ne_eq, Text.startsWith_iff]
    exact ⟨rfl, hnotStart⟩
  · rw [splitAtRule_cons]
    rcases hcases with ⟨hne, hname⟩ | ⟨-, hempty, hfirst⟩
    · -- the name ends at the space in front of the parameters
      rw [List.takeWhile_eq_self_iff.2 hname] at htake
      have hgap : value.takeWhile isNameChar = [] := by
        cases value with
        | nil => rfl
        | cons c value =>
          rw [hnext c rfl]
          exact List.takeWhile_cons_of_neg (by decide)
      have hwhole : (Text.lowerChars name.toList ++ value).takeWhile isNameChar =
          Text.lowerChars name.toList := by
        rw [List.takeWhile_append_of_pos (List.takeWhile_eq_self_iff.1 htake), hgap, List.append_nil]
      rw [hwhole, if_neg (fun h => hne (lowerChars_eq_nil.1 (List.isEmpty_iff.1 h))), List.drop_left]
    · have hnone : value = [] := by
        have hboth : spaced (formatValueChars params.toList) = [] := by
          rw [hempty]
          decide
        rw [hboth] at hspaced
        exact (List.append_eq_nil_iff.1 hspaced.symm).1
      rw [hfirst] at htake
      rw [hnone, List.append_nil, if_pos (List.isEmpty_iff.2 htake)]
      rfl
  · rw [← String.toList_inj, toList_atRuleHead, toList_atRuleHead, String.toList_ofList,
      String.toList_ofList, hparams, Text.lowerChars_lowerChars]

/-! ## Selectors -/

/-- What is printed of the selectors of a rule, one below the other. -/
def selectorHead (margin selector : List Char) : List Char :=
  (',' :: '\n' :: margin).intercalate ((splitTopLevel ',' {} selector).map formatOneSelector)

/-- Does the printer break the line in what the reader takes for a string? -/
def cutsString (s : SplitState) (r : Scan) : List Char → Bool
  | [] => false
  | c :: cs =>
    s.separates ',' c && r.isString || (r.after? c).any fun r' => cutsString (s.after c) r' cs

/-- Outside strings white space can stand anywhere. -/
theorem Scan.over?_spaces {space : List Char} (hspace : ∀ x ∈ space, Text.isSpace x = true)
    (hstring : s.isString = false) (hcalm : s.calm = s) (cs : List Char) :
    Scan.over? s (space ++ cs) = Scan.over? s cs := by
  induction space with
  | nil => rfl
  | cons x space ih =>
    rw [List.forall_mem_cons] at hspace
    -- white space is passed over outside strings, and nothing was waiting
    have hafter : s.after? x = some s := by
      by_cases hline : x = '\n'
      · subst hline
        obtain ⟨depth, mode⟩ := s
        cases mode with
        | plain slash => simpa [after?, Text.isQuote, calm, eq_comm] using hcalm
        | string => cases hstring
        | comment star => simpa [after?, calm, eq_comm] using hcalm
      · rw [after?_neutral (isNeutral_of_isLoose (isLoose_of_isSpace hspace.1) hline), hcalm]
    rw [List.cons_append, over?_cons, hafter]
    exact ih hspace.2

/-- Line ends behind commas that are in no string are passed over. -/
theorem over?_lines {s : SplitState} {r r' : Scan} {space : List Char}
    (hspace : ∀ x ∈ space, Text.isSpace x = true) (hcut : cutsString s r cs = false)
    (h : Scan.over? r cs = some r') : ∃ t,
      Scan.over? r ((',' :: space).intercalate (splitTopLevel ',' s cs)) = some t ∧
        t.calm = r'.calm := by
  induction cs generalizing s r with
  | nil => exact ⟨r', by simpa [splitTopLevel, List.intercalate] using h, rfl⟩
  | cons c cs ih =>
    rw [cutsString, Bool.or_eq_false_iff] at hcut
    rw [Scan.over?_cons] at h
    obtain ⟨t, ht, h⟩ := Option.bind_eq_some_iff.1 h
    -- no line end is put into a string
    have hcut' : cutsString (s.after c) t cs = false := by
      have hrest := hcut.2
      rw [ht] at hrest
      exact hrest
    obtain ⟨p, ps, hparts⟩ := List.exists_cons_of_ne_nil (splitTopLevel_ne_nil ',' (s.after c) cs)
    obtain ⟨u, hu, hcalm⟩ := ih hcut' h
    rw [hparts] at hu
    -- at a comma the line ends, elsewhere the character stays
    by_cases hsep : s.separates ',' c = true
    · obtain ⟨rfl, rfl⟩ := eq_of_separates hsep
      have hstring : r.isString = false := by simpa [SplitState.separates] using hcut.1
      have hcomma : isNeutral ',' = true := by decide
      rw [Scan.after?_neutral hcomma] at ht
      obtain rfl := Option.some.inj ht
      -- behind the comma the printer starts afresh
      have hafter : SplitState.after {} ',' = {} := by simp [SplitState.after, Text.isQuote]
      rw [hafter] at hparts
      refine ⟨u, ?_, hcalm⟩
      rw [splitTopLevel, if_pos hsep, hparts, List.intercalate_cons_cons, List.nil_append,
        List.cons_append, Scan.over?_neutral hcomma,
        Scan.over?_spaces hspace (by simpa using hstring) r.calm_calm]
      exact hu
    · refine ⟨u, ?_, hcalm⟩
      rw [splitTopLevel, if_neg hsep, hparts]
      -- the character goes in front of the first part
      have hjoin : (',' :: space).intercalate ((c :: p) :: ps) =
          c :: (',' :: space).intercalate (p :: ps) := by
        cases ps with
        | nil => simp [List.intercalate]
        | cons q ps => rw [List.intercalate_cons_cons, List.intercalate_cons_cons]; rfl
      show Scan.over? r ((',' :: space).intercalate ((c :: p) :: ps)) = some u
      rw [hjoin, Scan.over?_cons, ht]
      exact hu

/-- Does a quote or a comma stand in front of the first line end? -/
def isCovered : List Char → Bool
  | [] => true
  | c :: cs => Text.isQuote c || c == ',' || c != '\n' && isCovered cs

/-- A character that is no line feed may be put in front. -/
theorem isCovered_cons (hc : c ≠ '\n') (h : isCovered cs = true) : isCovered (c :: cs) = true := by
  simp [isCovered, hc, h]

/-- Behind white space that stands in front of a quote or a comma, one still comes before the first
line end. -/
theorem isCovered_space (hx : Text.isSpace c = true) (h : isCovered (c :: cs) = true) :
    c ≠ '\n' ∧ isCovered cs = true := by
  have hcomma : (c == ',') = false := by
    rw [beq_eq_false_iff_ne]
    rintro rfl
    cases hx
  simpa [isCovered, not_isQuote_of_isSpace hx, hcomma] using h

/-- The printer puts no line end in front of the first comma or quote. -/
theorem Respacing.isCovered (h : Respacing a b) (ha : isCovered a = true) : isCovered b = true := by
  -- a space that is put or left is no line feed
  have hspace : ' ' ≠ '\n' := by decide
  induction h with
  | refl a => exact ha
  | trans _ _ ih ih' => exact ih' (ih ha)
  | cons x _ ih =>
    simp only [Stylesheet.isCovered, Bool.or_eq_true, Bool.and_eq_true] at ha ⊢
    exact ha.imp_right fun hrest => ⟨hrest.1, ih hrest.2⟩
  | change hx cs => exact isCovered_cons hspace (isCovered_space hx ha).2
  | dropEnd hx => rfl
  | dropBefore hx hd cs => exact (isCovered_space hx ha).2
  | @dropBehind x d hd hx cs =>
    simp only [Stylesheet.isCovered, Bool.or_eq_true, Bool.and_eq_true] at ha ⊢
    refine ha.imp_right fun hrest => ⟨hrest.1, (isCovered_space hx ?_).2⟩
    simpa [Stylesheet.isCovered] using hrest.2
  -- by the kind of the change
  | putBefore hd cs => exact isCovered_cons hspace ha
  | @putBehind d hd cs =>
    simp only [Stylesheet.isCovered, Bool.or_eq_true, Bool.and_eq_true] at ha ⊢
    exact ha.imp_right fun hrest => ⟨hrest.1, .inr ⟨rfl, hrest.2⟩⟩

/-- Collapsed text has no line feed outside strings. -/
theorem Collapsed.isCovered {quote : Option Char} (h : Collapsed quote cs) (hquote : quote = none) :
    isCovered cs = true := by
  -- outside strings a collapsed text has spaces only
  induction h with
  | nil => rfl
  | string => cases hquote
  | @solid c cs hc h ih =>
    cases hq : Text.isQuote c with
    | true => simp [Stylesheet.isCovered, hq]
    | false =>
      refine isCovered_cons ?_ (ih (by simp [hq]))
      rintro rfl
      cases hc
  | space hc h ih => exact isCovered_cons (by decide) (ih rfl)

/-- A formatted selector has none either: its white space is collapsed. -/
theorem isCovered_formatOneSelector (cs : List Char) : isCovered (formatOneSelector cs) = true := by
  have hcollapse : isCovered (' ' :: collapse cs) = true :=
    isCovered_cons (by decide) ((collapsed_collapseFrom none false nofun _).isCovered rfl)
  rw [formatOneSelector]
  split
  · exact (isCovered_space rfl hcollapse).2
  · have hspaced := ((respacing_spaceCombinators (collapse cs)).1.cons ' ').trans
      (.trimChars (d := ' ') rfl (spaceCombinators false (collapse cs)))
    exact (isCovered_space rfl (hspaced.isCovered hcollapse)).2

/-- The comma behind the first selector stands in front of the first line end. -/
theorem isCovered_append (ha : isCovered a = true) (b : List Char) :
    isCovered (a ++ ',' :: b) = true := by
  induction a with
  | nil => rfl
  | cons c a ih =>
    simp only [isCovered, List.cons_append, Bool.or_eq_true, Bool.and_eq_true] at ha ⊢
    exact ha.imp_right fun hrest => ⟨hrest.1, ih hrest.2⟩

/-- No placeholder stands alone in front of a line end behind a quote or a comma. -/
theorem unstopped_of_isCovered (h : isCovered cs = true) : Unstopped [] cs := by
  -- none of the three is in a placeholder, nor is it trimmed
  have hmarks : ∀ d ∈ ['"', '\'', ','], delimits d = true ∧ Text.isSpace d = false :=
    Text.forall_mem_of_all (by decide)
  -- one of them stands in front of every line end
  have hfront : ∀ a b, cs = a ++ '\n' :: b → ∃ d ∈ ['"', '\'', ','], d ∈ a := by
    intro a b hsplit
    induction a generalizing cs with
    | nil =>
      rw [hsplit] at h
      cases h
    | cons c a ih =>
      subst hsplit
      simp only [List.cons_append, isCovered, Bool.or_eq_true, Bool.and_eq_true, Text.isQuote,
        beq_iff_eq] at h
      rcases h with ((rfl | rfl) | rfl) | ⟨-, hrest⟩
      · exact ⟨_, by decide, List.mem_cons_self⟩
      · exact ⟨_, by decide, List.mem_cons_self⟩
      · exact ⟨_, by decide, List.mem_cons_self⟩
      · obtain ⟨d, hd, hmem⟩ := ih hrest rfl
        exact ⟨d, hd, List.mem_cons_of_mem c hmem⟩
  -- with one of them in it, what stands before the line end is no placeholder
  intro a b hsplit
  rw [Bool.eq_false_iff]
  intro halone
  obtain ⟨d, hd, hmem⟩ := hfront a b hsplit
  exact not_mem_of_alone halone (hmarks d hd).1 (hmarks d hd).2 hmem

/-- So no placeholder alone on a line ends the selectors early. -/
theorem isCovered_selectorHead (margin selector : List Char) :
    isCovered (selectorHead margin selector) = true := by
  obtain ⟨p, ps, hparts⟩ := List.exists_cons_of_ne_nil (splitTopLevel_ne_nil ',' {} selector)
  have hfirst := isCovered_formatOneSelector p
  rw [selectorHead, hparts]
  cases ps with
  | nil => simpa [List.intercalate] using hfirst
  | cons q ps =>
    rw [List.map_cons, List.map_cons, List.intercalate_cons_cons]
    simpa using isCovered_append hfirst _

/-- A formatted selector neither starts nor ends with white space. -/
theorem tight_formatOneSelector (cs : List Char) : Text.Tight (formatOneSelector cs) := by
  rw [formatOneSelector]
  split
  · exact tight_collapse cs
  · exact Text.tight_trimChars _

/-- White space does not come in front of the first selector. -/
theorem head?_selectorHead (margin selector : List Char) :
    ∀ c ∈ (selectorHead margin selector).head?, Text.isSpace c = false := by
  -- the first selector is formatted, and does not start with white space
  obtain ⟨p, ps, hparts⟩ := List.exists_cons_of_ne_nil (splitTopLevel_ne_nil ',' {} selector)
  have hfirst := (tight_formatOneSelector p).head
  rw [selectorHead, hparts, List.map_cons]
  generalize formatOneSelector p = part at hfirst
  -- without other selectors nothing follows it
  cases ps with
  | nil => simpa [List.intercalate] using hfirst
  | cons q ps =>
    rw [List.map_cons, List.intercalate_cons_cons]
    cases part with
    | nil =>
      rintro c ⟨⟩
      decide
    | cons d part => exact hfirst

/-- The selectors that are printed are a respacing of the text that is read. -/
theorem respacing_selectors (selector : List Char) : Respacing (' ' :: selector)
    (' ' :: [','].intercalate ((splitTopLevel ',' {} selector).map formatOneSelector)) := by
  have hparts := respacing_intercalate (fun _ part hd => respacing_formatOneSelector hd part)
    (List.forall_mem_nil _) (splitTopLevel ',' {} selector) (d := ' ') rfl
  rwa [intercalate_splitTopLevel] at hparts

/-- Printed selectors start as the selectors do. -/
theorem sameStart_selectorHead {margin selector : List Char} (hopens : Opens selector)
    (hmargin : ∀ x ∈ margin, Text.isSpace x = true) :
    SameStart selector (selectorHead margin selector) := by
  have hspace : ∀ x ∈ '\n' :: margin, Text.isSpace x = true := List.forall_mem_cons.2 ⟨rfl, hmargin⟩
  -- formatting respaces the selectors, and so do the lines between them
  have hparts := respacing_selectors selector
  have hlines := respacing_separators hspace
    ((splitTopLevel ',' {} selector).map formatOneSelector)
  refine .of_solid ?_ ?_ hopens.head (head?_selectorHead margin selector)
  · have hsolid := hparts.solid
    rw [Text.solid_cons_of_isSpace rfl, Text.solid_cons_of_isSpace rfl] at hsolid
    exact hsolid.trans hlines.solid.symm
  · have hword := hparts.words.2
    rw [firstWord_loose rfl, firstWord_loose rfl] at hword
    exact hword.trans hlines.words.2.symm

/-- A statement begins with the printed selectors of a rule. -/
theorem begins_selectors {margin selector : List Char} (hbegins : Begins selector r)
    (hcut : cutsString {} {} selector = false) (hmargin : ∀ x ∈ margin, Text.isSpace x = true) :
    ∃ r', Begins (selectorHead margin selector) r' ∧ r'.depth = r.depth := by
  -- the line feed and the margin are white space
  have hspace : ∀ x ∈ '\n' :: margin, Text.isSpace x = true := List.forall_mem_cons.2 ⟨rfl, hmargin⟩
  have hneutral : isNeutral ' ' = true := by decide
  -- the lines are passed over as the commas are
  obtain ⟨t, hover, hcalm⟩ := over?_lines hspace hcut hbegins.passes
  have hparts := respacing_intercalate (fun _ part hd => respacing_formatOneSelector hd part) hspace
    (splitTopLevel ',' {} selector) (d := ' ') rfl
  -- what is formatted is passed over as what is not
  obtain ⟨u, hu, hcalm'⟩ := hparts.passed {} t (by rw [Scan.over?_neutral hneutral]; exact hover)
  rw [Scan.over?_neutral hneutral] at hu
  exact hbegins.of_passed ⟨u, hu, hcalm'.trans hcalm⟩
    (hbegins.opens.of_sameStart (sameStart_selectorHead hbegins.opens hmargin))
    (unstopped_of_isCovered (isCovered_selectorHead margin selector))

/-- Printed selectors are read as some that are printed in the same way. -/
theorem formatSelector_printed {margin : List Char} (selector : List Char)
    (hmargin : ∀ x ∈ margin, Text.isSpace x = true) :
    formatSelector (String.ofList (Text.trimChars (selectorHead margin selector))) =
      formatSelector (String.ofList selector) := by
  have hspace : ∀ x ∈ '\n' :: margin, Text.isSpace x = true := List.forall_mem_cons.2 ⟨rfl, hmargin⟩
  have hsame := (formats_formatOneSelector.map_split_trim (selectorHead margin selector)).trans
    (formats_formatOneSelector.map_split_join hspace selector)
  have hstrings := congrArg (List.map String.ofList) hsame
  rw [List.map_map, List.map_map] at hstrings
  rw [formatSelector, formatSelector, String.toList_ofList, String.toList_ofList]
  exact hstrings

/-- Printed selectors are no head of an at-rule, and not empty. -/
theorem selectorHead_read {margin selector : List Char} (hopens : Opens selector)
    (hrule : isAtRule selector = false) (hmargin : ∀ x ∈ margin, Text.isSpace x = true) :
    isAtRule (Text.trimChars (selectorHead margin selector)) = false ∧
      Text.trimChars (selectorHead margin selector) ≠ [] := by
  have hsame := sameStart_selectorHead hopens hmargin
  have hopens' := hopens.of_sameStart hsame
  have hletters : ∀ c ∈ placeholderStart, isLoose c = false := Text.forall_mem_of_all (by decide)
  -- trimming takes nothing in front, for the text does not start with white space
  obtain ⟨front, back, hsplit, hfront, hback⟩ := Text.trimChars_split (selectorHead margin selector)
  have hnone : front = [] := by
    cases front with
    | nil => rfl
    | cons x front =>
      have hx := hopens'.head x (by rw [hsplit]; rfl)
      rw [hfront x List.mem_cons_self] at hx
      cases hx
  rw [hnone, List.nil_append] at hsplit
  constructor
  · -- an at-rule or a placeholder would start in the same way before
    rw [Bool.eq_false_iff]
    intro hprinted
    obtain ⟨hat, hstart⟩ := Bool.and_eq_true_iff.1 hprinted
    have hhead : selector.head? = some '@' := by
      rw [hsame.head, hsplit]
      cases htext : Text.trimChars (selectorHead margin selector) with
      | nil =>
        rw [htext] at hat
        cases hat
      | cons c text =>
        rw [htext] at hat
        exact beq_iff_eq.1 hat
    rw [isAtRule, hhead, beq_self_eq_true, Bool.true_and, Bool.not_eq_false', Text.startsWith_iff,
      hsame.prefix_iff hletters, hsplit] at hrule
    have hprefix := placeholderStart_prefix
      (fun c hc => delimits_of_isSpace (hback c (List.mem_of_mem_head? hc))) hrule
    rw [Text.startsWith_iff.2 hprefix] at hstart
    cases hstart
  · -- what begins a statement is not white space only
    intro hempty
    rw [hempty, List.nil_append] at hsplit
    obtain ⟨c, rest, hcons⟩ := List.exists_cons_of_ne_nil hopens'.ne_nil
    have hc := hopens'.head c (by rw [hcons]; rfl)
    rw [hback c (by rw [← hsplit, hcons]; exact List.mem_cons_self)] at hc
    cases hc

end Reflow.Stylesheet
