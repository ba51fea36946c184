import Reflow.Proofs.Layout.Order
import Reflow.Proofs.Stylesheet.Pieces
import Reflow.Proofs.Stylesheet.Spared

/-!
# Formatting a stylesheet keeps its strings

The strings in values, parameters and selectors are those that the reader passed over.  They stand
in the output as they stand in the source, and in the same order, if the printer leaves them alone.

## Key results

- `Statement.strings`: the strings of a statement, in the order of its text
- `Statement.isSpared`: the printer leaves the strings of the statement alone
- `readStatements_finds`: what is read has the strings of the text, and leaves nothing open
- `print_keeps_strings`: the statement about sources
-/

namespace Reflow.Stylesheet

open Layout (Bears)
open Text (InOrder EndsSolid)

mutual
/-- The strings in the values, parameters and selectors of a statement. -/
def Statement.strings : Statement → List (List Char)
  | .comment .. | .declaration _ none .. => []
  | .declaration _ (some value) .. => stringsOf value.toList
  | .atRule _ params none _ => stringsOf params.toList
  | .atRule _ params (some block) _ => stringsOf params.toList ++ stringsIn block
  | .rule selector block _ => stringsOf selector.toList ++ stringsIn block

/-- The strings of statements. -/
def stringsIn : List Statement → List (List Char)
  | [] => []
  | s :: rest => s.strings ++ stringsIn rest
end

mutual
/-- Does the printer leave the strings of the statement alone?  The colon of a declaration must be
in no string and no comment; the value of a custom property is printed as it is written. -/
def Statement.isSpared : Statement → Bool
  | .comment .. | .declaration _ none .. => true
  | .declaration property (some value) .. =>
    (segments property.toList).all Segment.isClosed &&
      (Text.startsWith property.toList ['-', '-'] || sparesStrings value.toList)
  | .atRule _ params none _ => sparesStrings params.toList
  | .atRule _ params (some block) _ => sparesStrings params.toList && areSpared block
  | .rule selector block _ => sparesSelector selector.toList && areSpared block

/-- Does the printer leave the strings of the statements alone? -/
def areSpared : List Statement → Bool
  | [] => true
  | s :: rest => s.isSpared && areSpared rest
end

mutual
/-- The texts of the statement leave no string and no comment open; a value does so behind a
property that does. -/
def Statement.Whole : Statement → Prop
  | .comment .. | .declaration _ none .. => True
  | .declaration property (some value) .. => Closed property.toList → Closed value.toList
  | .atRule _ params none _ => Closed params.toList
  | .atRule _ params (some block) _ => Closed params.toList ∧ AllWhole block
  | .rule selector block _ => Closed selector.toList ∧ AllWhole block

/-- The texts of the statements leave no string and no comment open. -/
def AllWhole : List Statement → Prop
  | [] => True
  | s :: rest => s.Whole ∧ AllWhole rest
end

/-! ## Printing -/

/-- The strings of a text are not trimmed at their ends. -/
theorem endsSolid_stringsOf (cs : List Char) : ∀ t ∈ stringsOf cs, EndsSolid t :=
  fun t ht => (inQuotes_stringsOf cs t ht).endsSolid

/-- A text bears the strings that stand in it. -/
theorem bears_text {s : String} {cs : List Char} (h : InOrder (stringsOf cs) s.toList) :
    Bears [.text s] (stringsOf cs) := .one h (endsSolid_stringsOf cs)

/-- A line break bears none. -/
theorem bears_hardline : Bears [.hardline] [] := .concat (.line _ (.breakParent .nil))

/-- A text that is left out if it is empty, and stands behind a space otherwise. -/
theorem inOrder_spaced {v : String} {ts : List (List Char)} (h : InOrder ts v.toList) :
    InOrder ts (if v == "" then "" else " " ++ v).toList := by
  split
  · rename_i hv
    rwa [beq_iff_eq.1 hv] at h
  · rw [String.toList_append]
    exact h.front _

/-- The strings of a value stand in the formatted value. -/
theorem inOrder_formatValue {value : String} (hclosed : Closed value.toList)
    (hspares : sparesStrings value.toList = true) :
    InOrder (stringsOf value.toList) (formatValue value).toList := by
  rw [formatValue, String.toList_ofList]
  exact inOrder_formatValueChars hclosed hspares

/-- A declaration bears the strings of its value, which a custom property keeps as it is written. -/
theorem bears_declaration {property value : String} {important : Bool}
    (hclosed : Closed value.toList)
    (hspares : Text.startsWith property.toList ['-', '-'] = true ∨
      sparesStrings value.toList = true) :
    Bears [printDeclaration property value important] (stringsOf value.toList) := by
  -- a custom property keeps its case, so its value is printed as it is written
  have hvalue : InOrder (stringsOf value.toList)
      (if Text.startsWith (if keepsCase property.toList then property
        else Text.lower property).toList ['-', '-'] then value else formatValue value).toList := by
    rcases hspares with hcustom | hspares
    · have hkeeps : keepsCase property.toList = true := by simp [keepsCase, hcustom]
      rw [if_pos hkeeps, if_pos hcustom]
      exact inOrder_stringsOf _
    · generalize Text.startsWith _ _ = custom
      cases custom with
      | true => exact inOrder_stringsOf _
      | false => exact inOrder_formatValue hclosed hspares
  have hname := Bears.any (if keepsCase property.toList then property else Text.lower property)
  have hmark := Bears.any (if important then " !important" else "")
  have hall := (hname.cons ((Bears.any ":").cons ((bears_text (inOrder_spaced hvalue)).cons
    (hmark.cons (.any ";"))))).cat
  rw [List.append_nil, List.append_nil] at hall
  exact hall

/-- The strings of the parameters stand in the head of an at-rule. -/
theorem inOrder_atRuleHead (name : String) {params : String} (hclosed : Closed params.toList)
    (hspares : sparesStrings params.toList = true) :
    InOrder (stringsOf params.toList) (atRuleHead name params).toList := by
  have hparams : InOrder (stringsOf params.toList)
      (if params == "" then "" else formatValue params).toList := by
    split
    · rename_i hempty
      rw [beq_iff_eq.1 hempty]
      exact .nil _
    · exact inOrder_formatValue hclosed hspares
  rw [atRuleHead, String.toList_append]
  exact (inOrder_spaced hparams).front _

/-- Documents with another between them that bears nothing. -/
theorem bears_intersperse {separator : Doc} (hs : Bears [separator] []) {ds : List Doc}
    {uss : List (List (List Char))} (h : List.Forall₂ (fun d us => Bears [d] us) ds uss) :
    Bears (ds.intersperse separator) uss.flatten := by
  induction h with
  | nil => exact .nil
  | @cons d us ds uss hd hds ih =>
    cases ds with
    | nil =>
      cases hds
      simpa using hd
    | cons next ds => exact hd.cons (hs.cons ih)

/-- The selectors bear the strings of their text. -/
theorem bears_selector {selector : String} (hclosed : Closed selector.toList)
    (hspares : sparesSelector selector.toList = true) :
    Bears [.join (.cat [",", .hardline]) ((formatSelector selector).map .text)]
      (stringsOf selector.toList) := by
  obtain ⟨uss, hparts, hstrings⟩ := inOrder_formatSelector hclosed hspares
  -- every part bears its strings, and the commas none
  have hcomma : Bears [.cat [",", .hardline]] [] := ((Bears.any ",").cons bears_hardline).cat
  have hsolid := endsSolid_stringsOf selector.toList
  rw [hstrings] at hsolid ⊢
  refine (bears_intersperse hcomma ?_).cat
  rw [formatSelector, List.map_map, List.forall₂_map_left_iff]
  refine List.forall₂_iff_zip.2 ⟨hparts.length_eq, fun {part us} hmem => ?_⟩
  have hpart := List.forall₂_zip hparts hmem
  refine .one ?_ fun t ht => hsolid t (List.mem_flatten.2 ⟨us, (List.of_mem_zip hmem).2, ht⟩)
  rwa [String.toList_ofList]

/-- A block bears the strings of what is in it. -/
theorem bears_block {ds : List Doc} {ts : List (List Char)} (h : Bears ds ts) :
    Bears [printBlock ds] ts := by
  have hopen := Bears.any "\x7b"
  have hclose := bears_hardline.cons (Bears.any "\x7d")
  rw [printBlock]
  split
  · -- a block without statements, or with the statements further in
    rename_i hempty
    rw [List.isEmpty_iff.1 hempty] at h
    cases h
    exact (hopen.cons hclose).cat
  · have hbody := (hopen.cons ((Bears.indent (bears_hardline.cons h.cat).cat).cons hclose)).cat
    rw [List.append_nil, List.append_nil] at hbody
    exact hbody

/-- The lines between statements bear none. -/
theorem bears_separatorBefore (s : Statement) : Bears (separatorBefore s) [] := by
  rw [separatorBefore]
  split
  · exact bears_hardline.cons bears_hardline
  · exact bears_hardline

mutual
/-- A statement whose strings are left alone is printed with its strings. -/
theorem Statement.bears (s : Statement) (hwhole : s.Whole) (hspared : s.isSpared = true) :
    Bears [s.print] s.strings := by
  -- by the kind of the statement
  match s with
  | .comment text _ => exact .any text
  | .declaration property none _ semicolon _ => exact .any _
  -- the property leaves nothing open, so the value is whole
  | .declaration property (some value) important _ _ =>
    simp only [Statement.isSpared, Bool.and_eq_true, Bool.or_eq_true] at hspared
    exact bears_declaration (hwhole (closed_of_segments hspared.1)) hspared.2
  | .atRule name params none _ =>
    have hhead := inOrder_atRuleHead name hwhole hspared
    rw [Statement.print]
    refine bears_text ?_
    rw [String.toList_append]
    exact hhead.back _
  | .atRule name params (some block) _ =>
    -- the head bears the strings of the parameters, and the block those in it
    simp only [Statement.isSpared, Bool.and_eq_true] at hspared
    have hhead := bears_text (inOrder_atRuleHead name hwhole.1 hspared.1)
    have hblock := bears_block (bears_printFirst block hwhole.2 hspared.2)
    rw [Statement.print]
    exact (hhead.cons ((Bears.any " ").cons hblock)).cat
  | .rule selector block _ =>
    simp only [Statement.isSpared, Bool.and_eq_true] at hspared
    have hblock := bears_block (bears_printFirst block hwhole.2 hspared.2)
    rw [Statement.print]
    exact ((bears_selector hwhole.1 hspared.1).cons ((Bears.any " ").cons hblock)).cat

/-- Statements at the start of a block whose strings are left alone are printed with them. -/
theorem bears_printFirst (statements : List Statement) (hwhole : AllWhole statements)
    (hspared : areSpared statements = true) :
    Bears (printFirst statements) (stringsIn statements) := by
  match statements with
  | [] => exact .nil
  | s :: rest =>
    simp only [areSpared, Bool.and_eq_true] at hspared
    exact (s.bears hwhole.1 hspared.1).cons (bears_printFollowing rest hwhole.2 hspared.2)

/-- Statements that follow another and whose strings are left alone are printed with them. -/
theorem bears_printFollowing (statements : List Statement) (hwhole : AllWhole statements)
    (hspared : areSpared statements = true) :
    Bears (printFollowing statements) (stringsIn statements) := by
  match statements with
  | [] => exact .nil
  | s :: rest =>
    simp only [areSpared, Bool.and_eq_true] at hspared
    exact (bears_separatorBefore s).append
      ((s.bears hwhole.1 hspared.1).cons (bears_printFollowing rest hwhole.2 hspared.2))
end

/-- A stylesheet whose strings are left alone is printed with its strings. -/
theorem bears_print {statements : List Statement} (hwhole : AllWhole statements)
    (hspared : areSpared statements = true) : Bears [print statements] (stringsIn statements) := by
  rw [print]
  split
  · rename_i hempty
    rw [List.isEmpty_iff.1 hempty]
    exact .any ""
  · have hall := ((bears_printFirst statements hwhole hspared).cat.cons bears_hardline).cat
    rwa [List.append_nil] at hall

/-! ## Reading -/

/-- The strings of statements behind one another are those of both. -/
theorem stringsIn_append (a b : List Statement) :
    stringsIn (a ++ b) = stringsIn a ++ stringsIn b := by
  induction a with
  | nil => rfl
  | cons s a ih => rw [List.cons_append, stringsIn, ih, stringsIn, List.append_assoc]

/-- So it is with texts that leave nothing open. -/
theorem AllWhole.append {a b : List Statement} (ha : AllWhole a) (hb : AllWhole b) :
    AllWhole (a ++ b) := by
  induction a with
  | nil => exact hb
  | cons s a ih => exact ⟨ha.1, ih ha.2⟩

/-- A trimmed text stands in the text. -/
theorem trimChars_within (cs : List Char) : Text.trimChars cs <:+: cs := by
  obtain ⟨front, back, hsplit, -, -⟩ := Text.trimChars_split cs
  exact ⟨front, back, by rw [List.append_assoc, ← hsplit]⟩

/-- The parameters are the end of the text of an at-rule. -/
theorem splitAtRule_suffix (text : List Char) : (splitAtRule text).2.toList <:+ text := by
  rw [splitAtRule]
  split
  · exact List.nil_suffix
  · rw [String.toList_ofList]
    exact ((List.dropWhile_suffix _).trans (List.drop_suffix _ _)).trans (List.drop_suffix _ _)

/-- The value in front of the mark of importance is the start of the value. -/
theorem splitImportant_start (value : List Char) : (splitImportant value).1 <+: value := by
  rw [splitImportant]
  split
  · have hsuffix := (List.dropWhile_suffix (l := value.reverse.drop
      ((value.reverse.takeWhile (· != '!')).length + 1)) Text.isSpace).trans (List.drop_suffix _ _)
    rw [← List.reverse_prefix, List.reverse_reverse] at hsuffix
    exact hsuffix
  · exact List.prefix_refl _

/-- A statement without a block has the strings of its text. -/
theorem simpleStatement_finds {start : Nat} {text : List Char} {semicolon blank : Bool}
    {s : Statement} (htext : Closed text)
    (h : simpleStatement start text semicolon blank = .ok s) :
    s.Whole ∧ InOrder s.strings text := by
  rw [simpleStatement] at h
  split at h
  · -- a placeholder holds no strings
    cases h
    exact ⟨trivial, .nil _⟩
  split at h
  · -- an at-rule has the strings of its parameters
    rename_i hat
    have hparams := closed_splitAtRule htext hat
    have hwithin := (splitAtRule_suffix text).isInfix
    generalize splitAtRule text = parts at h hparams hwithin
    cases h
    exact ⟨hparams, (inOrder_stringsOf _).of_within hwithin⟩
  split at h
  · cases h
  rename_i property value hcolon
  have hvalue := closed_splitColon? htext hcolon
  have hwithin := (splitImportant_start value).isInfix
  cases hsplit : splitImportant value with
  | mk before important =>
    rw [hsplit] at h hwithin
    cases h
    -- a declaration is cut at its first colon, which may stand in a string of the property
    constructor
    · intro hproperty
      rw [Text.trim, String.toList_ofList, closed_trimChars, String.toList_ofList] at hproperty
      rw [Text.trim, String.toList_ofList, closed_trimChars, String.toList_ofList]
      exact closed_splitImportant (hvalue hproperty) hsplit
    · -- the strings of the value stand in the text behind the property
      have hbefore : InOrder (stringsOf (Text.trimChars before)) text := by
        rw [splitColon?_eq hcolon]
        exact (((inOrder_stringsOf _).of_within ((trimChars_within before).trans hwithin)).front
          [':']).front property
      simpa [Statement.strings, Text.trim] using hbefore

/-- A statement with a block has the strings of its text and of its block. -/
theorem blockStatement_finds {start : Nat} {text : List Char} {block : List Statement}
    {blank : Bool} {s : Statement} (htext : Closed text) (hblock : AllWhole block)
    (h : blockStatement start text block blank = .ok s) :
    s.Whole ∧ ∃ us, s.strings = us ++ stringsIn block ∧ InOrder us text := by
  rw [blockStatement] at h
  split at h
  · -- an at-rule has the strings of its parameters, a rule those of its selectors
    rename_i hat
    have hparams := closed_splitAtRule htext hat
    have hwithin := (splitAtRule_suffix text).isInfix
    generalize splitAtRule text = parts at h hparams hwithin
    cases h
    exact ⟨⟨hparams, hblock⟩, _, rfl, (inOrder_stringsOf _).of_within hwithin⟩
  split at h
  · cases h
  · cases h
    have hselector := inOrder_stringsOf text
    refine ⟨⟨?_, hblock⟩, stringsOf text, ?_, hselector⟩
    · rwa [String.toList_ofList]
    · rw [Statement.strings, String.toList_ofList]

/-- What is read from a place on has the strings of the text up to where reading stops, and leaves
nothing open. -/
def Finds (opened : Option Nat) (read : List Statement) (ahead : Ahead)
    (statements : List Statement) (after : Ahead) : Prop :=
  ∃ new text, statements = read.reverse ++ new ∧ AllWhole new ∧ InOrder (stringsIn new) text ∧
    ahead.rest = text ++ if opened.isSome then '}' :: after.rest else []

section Finds

variable {opened : Option Nat} {read statements : List Statement} {ahead next after : Ahead}
  {space start : List Char}

/-- What is read in one go, in front of what is read next. -/
theorem Finds.step (new : List Statement) (text : List Char)
    (hnext : Finds opened (new.reverse ++ read) next statements after) (hwhole : AllWhole new)
    (hstrings : InOrder (stringsIn new) text) (hahead : ahead.rest = space ++ start)
    (hstart : start = text ++ next.rest) : Finds opened read ahead statements after := by
  obtain ⟨new', text', rfl, hwhole', hstrings', hrest⟩ := hnext
  refine ⟨new ++ new', space ++ (text ++ text'), by simp, hwhole.append hwhole', ?_,
    by simp [hahead, hstart, hrest]⟩
  rw [stringsIn_append]
  exact (hstrings.append hstrings').front space

/-- A comment has no strings. -/
theorem Finds.comment {comment : String} {blank : Bool} (text : List Char)
    (hnext : Finds opened (.comment comment blank :: read) next statements after)
    (hahead : ahead.rest = space ++ start) (hstart : start = text ++ next.rest) :
    Finds opened read ahead statements after :=
  hnext.step [.comment comment blank] text ⟨trivial, trivial⟩ (.nil _) hahead hstart

/-- A statement without a block, up to where it ends and over the semicolon that ends it. -/
theorem Finds.simple {p : Prelude} {offset offset' : Nat} {blank : Bool}
    {s : Statement} (hp : readPrelude 0 .plain [] offset start = .ok p)
    (hs : simpleStatement offset' (Text.trimChars p.text) (decide (p.ending = some ';')) blank =
      .ok s)
    (hnext : Finds opened (s :: read) (if p.ending = some ';' then p.ahead.drop 1 else p.ahead)
      statements after)
    (hahead : ahead.rest = space ++ start) : Finds opened read ahead statements after := by
  obtain ⟨htext, hhead, -⟩ := readPrelude_text hp
  obtain ⟨hwhole, hstrings⟩ :=
    simpleStatement_finds (closed_trimChars.2 (closed_of_readPrelude hp)) hs
  have hstrings := hstrings.of_within (trimChars_within p.text)
  have hone : InOrder (stringsIn [s]) p.text := by simpa [stringsIn] using hstrings
  by_cases hend : p.ending = some ';'
  · rw [if_pos hend] at hnext
    obtain ⟨rest, hrest⟩ := List.head?_eq_some_iff.1 (hhead.trans hend)
    -- the semicolon is passed over with the statement that it ends
    refine hnext.step [s] (p.text ++ [';']) ⟨hwhole, trivial⟩ (hone.back _) hahead ?_
    rw [hrest] at htext
    simpa [Ahead.drop, hrest] using htext.symm
  · rw [if_neg hend] at hnext
    exact hnext.step [s] p.text ⟨hwhole, trivial⟩ hone hahead htext.symm

/-- A statement with a block, up to the brace that closes it. -/
theorem Finds.block {p : Prelude} {offset offset' brace : Nat} {blank : Bool}
    {s : Statement} {block : List Statement}
    (hp : readPrelude 0 .plain [] offset start = .ok p) (hend : p.ending = some '{')
    (hblock : Finds (some brace) [] (p.ahead.drop 1) block next)
    (hs : blockStatement offset' (Text.trimChars p.text) block blank = .ok s)
    (hnext : Finds opened (s :: read) next statements after)
    (hahead : ahead.rest = space ++ start) : Finds opened read ahead statements after := by
  obtain ⟨htext, hhead, -⟩ := readPrelude_text hp
  obtain ⟨rest, hrest⟩ := List.head?_eq_some_iff.1 (hhead.trans hend)
  obtain ⟨_, body, rfl, hbodyWhole, hbody, hbodyRest⟩ := hblock
  -- the text up to the brace is closed
  obtain ⟨hwhole, us, hstrings, hus⟩ :=
    blockStatement_finds (closed_trimChars.2 (closed_of_readPrelude hp)) hbodyWhole hs
  have hus := hus.of_within (trimChars_within p.text)
  -- the block, with its braces, is the rest of what is read
  refine hnext.step [s] (p.text ++ ('{' :: (body ++ ['}']))) ⟨hwhole, trivial⟩ ?_ hahead ?_
  · rw [stringsIn, stringsIn, List.append_nil, hstrings]
    exact hus.append ((hbody.back _).front ['{'])
  · rw [Ahead.drop, hrest] at hbodyRest
    rw [hrest, show rest = _ from hbodyRest] at htext
    simpa using htext.symm

end Finds

/-- What the reader makes of a text has the strings of the text, and leaves nothing open. -/
theorem readStatements_finds {fuel : Nat} {opened : Option Nat} {read statements : List Statement}
    {ahead after : Ahead}
    (h : readStatements fuel opened read ahead = .ok (statements, after)) :
    Finds opened read ahead statements after := by
  induction fuel generalizing opened read statements ahead after with
  | zero => cases h
  | succ fuel ih =>
    unfold readStatements at h
    simp only at h
    have hahead : ahead.rest = ahead.rest.takeWhile Text.isSpace
        ++ (ahead.drop (ahead.rest.takeWhile Text.isSpace).length).rest :=
      (List.prefix_iff_eq_append.1 (List.takeWhile_prefix _)).symm
    generalize ahead.rest.takeWhile Text.isSpace = space at h hahead
    generalize ahead.drop space.length = start at h hahead
    split at h
    · -- the end of the source
      rename_i hrest
      cases opened with
      | some brace => cases h
      | none =>
        cases h
        refine ⟨[], space, by simp, trivial, .nil _, ?_⟩
        rw [hahead, hrest]
        rfl
    · -- the end of a block
      rename_i body hrest
      cases opened with
      | none => cases h
      | some brace =>
        cases h
        refine ⟨[], space, by simp, trivial, .nil _, ?_⟩
        rw [hahead, hrest]
        simp [Ahead.drop, hrest]
    · -- a semicolon that ends nothing
      rename_i body hrest
      refine (ih h).step [] [';'] trivial (.nil _) hahead ?_
      rw [Ahead.drop, hrest]
      rfl
    · -- a block comment
      rename_i body hrest
      split at h
      · cases h
      rename_i n hn
      refine (ih h).comment (start.rest.take (n + 2)) hahead ?_
      rw [Ahead.drop, List.take_append_drop]
    · -- a comment up to the end of its line
      refine (ih h).comment (start.rest.takeWhile (· != '\n')) hahead ?_
      rw [Ahead.drop, List.prefix_iff_eq_append.1 (List.takeWhile_prefix _)]
    · -- any other statement
      obtain ⟨p, hp, h⟩ := bind_eq_ok h
      split at h
      · rename_i hend
        obtain ⟨⟨block, next⟩, hblock, h⟩ := bind_eq_ok h
        obtain ⟨s, hs, h⟩ := bind_eq_ok h
        exact .block hp hend (ih hblock) hs (ih h) hahead
      · obtain ⟨s, hs, h⟩ := bind_eq_ok h
        exact .simple hp hs (ih h) hahead

/-- Formatting a stylesheet keeps its strings if the printer leaves them alone: those that are read
in values, parameters and selectors stand in the output as they stand in the source, in the same
order. -/
theorem print_keeps_strings {source : Source} {statements : List Statement}
    (h : read source = .ok statements) (hspared : areSpared statements = true)
    (settings : Layout.Settings) :
    InOrder (stringsIn statements) source.chars ∧
      InOrder (stringsIn statements) (Layout.render settings (print statements)).toList := by
  rw [read] at h
  split at h
  · rename_i after hread
    cases h
    -- the reader finds the strings in the text, and the document bears them
    obtain ⟨new, text, hnew, hwhole, hstrings, htext⟩ := readStatements_finds hread
    obtain rfl : statements = new := hnew
    obtain rfl : source.chars = text := by simpa using htext
    exact ⟨hstrings, Layout.render_bears settings (bears_print hwhole hspared)⟩
  · cases h

/-- Strings in parameters, in a selector and in a value; the first holds a quote of its own kind. -/
def quotedSheet : Source := .ofString "@import  \"a\\\"b\";u[v='c > d'],w\x7bf:\"g ,  h\"  'i'\x7d"

/-- What is read from it. -/
def quotedStatements : List Statement :=
  [.atRule "import" "\"a\\\"b\"" none false,
    .rule "u[v='c > d'],w" [.declaration "f" (some "\"g ,  h\"  'i'") false true false] false]

/-- The four strings of a sheet stand in what is printed, one of them with a quote of its own kind.
-/
theorem print_keeps_strings_quotes :
    read quotedSheet = .ok quotedStatements ∧ areSpared quotedStatements = true ∧
    stringsIn quotedStatements =
      ["\"a\\\"b\"".toList, "'c > d'".toList, "\"g ,  h\"".toList, "'i'".toList] ∧
    InOrder (stringsIn quotedStatements) quotedSheet.chars ∧
    InOrder (stringsIn quotedStatements)
      (Layout.render {} (print quotedStatements)).toList := by
  have hspared : areSpared quotedStatements = true := by decide +kernel
  have hread : read quotedSheet = .ok quotedStatements := rfl
  exact ⟨hread, hspared, by decide +kernel, print_keeps_strings hread hspared {}⟩

/-- A string with a quote of its own kind in front of white space. -/
def escapedSheet : Source := .ofString "a: \"x\\\"  y\""

/-- What is read from it. -/
def escapedStatements : List Statement :=
  [.declaration "a" (some "\"x\\\"  y\"") false true false]

/-- Behind such a quote the printer takes itself to be outside the string, and collapses the white
space there. -/
theorem print_collapses_string :
    read escapedSheet = .ok escapedStatements ∧
      stringsIn escapedStatements = ["\"x\\\"  y\"".toList] ∧
      Layout.render {} (print escapedStatements) = "a: \"x\\\" y\";\n" ∧
      ¬InOrder (stringsIn escapedStatements)
        (Layout.render {} (print escapedStatements)).toList := by
  have hrender : Layout.render {} (print escapedStatements) = "a: \"x\\\" y\";\n" := by
    decide +kernel
  have hstrings : stringsIn escapedStatements = ["\"x\\\"  y\"".toList] := by decide +kernel
  refine ⟨rfl, hstrings, hrender, fun h => ?_⟩
  rw [hstrings, hrender] at h
  exact absurd (h.infix_of_mem List.mem_cons_self) (by decide +kernel)

end Reflow.Stylesheet
