import Reflow.Embed.Splice
import Reflow.Proofs.Layout.Conservation
import Reflow.Proofs.Stylesheet.Pieces
import Reflow.Proofs.Stylesheet.Places

/-!
# Formatting a stylesheet conserves its contents

What is printed has the pieces of the text that was read: in the same order, with the same
characters but for white space and semicolons, and with its names in lower case.  Every placeholder
of the text is found again, in the same order and in a text of the document.

## Key results

- `Spells.prints`: the texts of printed statements have the contents of their pieces
- `essential_render`: what is rendered has the essential characters of the texts of the document
- `print_conserves`: the statement about sources, on a stack that suffices to print them
-/

namespace Reflow.Stylesheet

/-- A piece as it is printed. -/
def Piece.printed : Piece → List Char
  | .kept text => text
  | .property name => if keepsCase name then name else Text.lowerChars name
  | .atRule name => '@' :: Text.lowerChars name
  | .important _ => ['i', 'm', 'p', 'o', 'r', 't', 'a', 'n', 't']

/-! ## Documents of texts and lines -/

/-- Is the document made of texts and lines, one after the other? -/
def isPlain : Doc → Bool
  | .text _ | .line _ | .breakParent | .concat _ | .indent _ => true
  | _ => false

/-- The texts of a document. -/
def texts (d : Doc) : List (List Char) := (Embed.textsOf .all d).map String.toList

/-- The texts of a concatenation are those of its parts. -/
theorem texts_concat (parts : List Doc) : texts (.concat parts) = parts.flatMap texts := by
  rw [texts, Embed.textsOf]
  induction parts with
  | nil => rfl
  | cons d parts ih =>
    rw [Embed.textsOfAll, List.map_append, ih]
    rfl

/-- Dropping empty parts changes no contents. -/
theorem alike_texts_filter (parts : List Doc) :
    Alike ((parts.filter fun d => !d.isEmpty).flatMap texts) (parts.flatMap texts) := by
  induction parts with
  | nil => exact .refl _
  | cons d parts ih =>
    rw [List.filter_cons]
    split
    · exact (Alike.refl (texts d)).append ih
    · rename_i hempty
      -- an empty document is the empty text, or concatenates nothing
      have hd : Alike (texts d) [] := by
        simp only [Bool.not_eq_true', Bool.not_eq_false] at hempty
        cases d with
        | text s =>
          obtain rfl : s = "" := by simpa [Doc.isEmpty] using hempty
          exact .empty
        | concat parts =>
          cases parts with
          | nil => exact .refl _
          | cons d parts => simp [Doc.isEmpty] at hempty
        | _ => simp [Doc.isEmpty] at hempty
      exact hd.symm.append ih

/-- The documents are plain, and their texts have the given contents. -/
structure Prints (ds : List Doc) (ts : List (List Char)) : Prop where
  plain : ∀ d ∈ ds, d.every isPlain = true
  alike : Alike (ds.flatMap texts) ts

namespace Prints

variable {a b ds parts : List Doc} {d : Doc} {ts us : List (List Char)}

/-- No documents print no texts. -/
theorem nil : Prints [] [] := ⟨by simp, .refl _⟩

/-- Behind one another, documents print the texts of the first ones and then of the others. -/
theorem append (ha : Prints a ts) (hb : Prints b us) : Prints (a ++ b) (ts ++ us) := by
  refine ⟨fun d hd => ?_, ?_⟩
  · rcases List.mem_append.1 hd with hd | hd
    · exact ha.plain d hd
    · exact hb.plain d hd
  · rw [List.flatMap_append]
    exact ha.alike.append hb.alike

/-- So does a document in front of others. -/
theorem cons (hd : Prints [d] ts) (hds : Prints ds us) : Prints (d :: ds) (ts ++ us) :=
  hd.append hds

/-- Texts with the same contents may take the place of those that are printed. -/
theorem trans (h : Prints ds ts) (h' : Alike ts us) : Prints ds us := ⟨h.plain, h.alike.trans h'⟩

/-- A text prints itself. -/
theorem text (s : String) : Prints [.text s] [s.toList] := by
  refine ⟨fun d hd => ?_, .refl _⟩
  rw [List.mem_singleton.1 hd]
  rfl

/-- A line break prints no text. -/
theorem hardline : Prints [.hardline] [] := by
  refine ⟨fun d hd => ?_, .refl _⟩
  rw [List.mem_singleton.1 hd]
  rfl

/-- Indentation prints what is in it. -/
theorem indent (h : Prints [d] ts) : Prints [.indent d] ts := by
  refine ⟨fun e he => ?_, h.alike⟩
  rw [List.mem_singleton.1 he]
  exact h.plain d List.mem_cons_self

/-- A concatenation prints what its parts print. -/
theorem cat (h : Prints parts ts) : Prints [.cat parts] ts := by
  -- plainness is one part after the other
  have hall : ∀ ds : List Doc, (∀ d ∈ ds, d.every isPlain = true) →
      Doc.everyAll isPlain ds = true := by
    intro ds hds
    induction ds with
    | nil => rfl
    | cons d ds ih =>
      rw [Doc.everyAll, hds d List.mem_cons_self, ih fun e he => hds e (List.mem_cons_of_mem _ he)]
      rfl
  refine ⟨fun d hd => ?_, ?_⟩
  · rw [List.mem_singleton.1 hd]
    exact hall _ fun e he => h.plain e (List.mem_filter.1 he).1
  · -- a concatenation drops the parts that are empty
    have hparts := (alike_texts_filter parts).trans h.alike
    rw [List.flatMap_singleton, Doc.cat, texts_concat]
    exact hparts

/-- Texts with documents between them that have the contents of one text. -/
theorem join {separator : Doc} {t : List Char} (hs : Prints [separator] [t]) (ss : List String) :
    Prints [.join separator (ss.map .text)] ((ss.map String.toList).intersperse t) := by
  refine cat ?_
  induction ss with
  | nil => exact nil
  | cons s ss ih =>
    cases ss with
    | nil => exact text s
    | cons next ss => exact (text s).cons (hs.cons ih)

end Prints

/-! ## Statements -/

/-- A text in front of a semicolon or not. -/
theorem alike_ending (a : List Char) (b : Bool) :
    Alike [a ++ (if b then ";" else "").toList] [a] := by
  cases b with
  | false => simpa using .refl [a]
  | true =>
    exact (Alike.cut (d := ';') (by decide) a []).trans
      ((Alike.refl [a]).append (Alike.semicolon.append .empty))

/-- A value that is left out if it is empty, and stands behind a space otherwise. -/
theorem alike_spaced {v : String} {ts : List (List Char)} (h : Alike [v.toList] ts) :
    Alike [(if v == "" then "" else " " ++ v).toList] ts := by
  split
  · rename_i hv
    rw [beq_iff_eq.1 hv] at h
    exact h
  · have hfront := Alike.front (a := [' ']) (Text.forall_mem_of_all (by decide)) v.toList
    simpa using hfront.trans h

/-- The value of a declaration, as it is written or formatted. -/
theorem alike_value (asWritten : Bool) (value : String) :
    Alike [(if asWritten then value else formatValue value).toList] [value.toList] := by
  cases asWritten with
  | true => exact .refl _
  | false => simpa [formatValue] using alike_formatValueChars value.toList

/-- The mark of importance, behind a space. -/
theorem alike_importance (important : Bool) (word : List Char) :
    Alike [(if important then " !important" else "").toList]
      ((if important then [Piece.kept ['!'], .important word] else []).map Piece.printed) := by
  cases important with
  | false => exact .empty
  | true =>
    -- the mark is cut into the space, the exclamation mark and the word
    have htext : " !important".toList
        = [' '] ++ ([] ++ ['!', 'i', 'm', 'p', 'o', 'r', 't', 'a', 'n', 't']) := by decide
    have hcut := Alike.cut (d := '!') (by decide) [] (Piece.important word).printed
    show Alike [" !important".toList] [['!'], (Piece.important word).printed]
    rw [htext]
    refine (Alike.front (Text.forall_mem_of_all (by decide)) _).trans (hcut.trans ?_)
    exact Alike.empty.append (.refl _)

/-- A declaration prints the pieces it is spelled with; the semicolon behind it is no essential
character. -/
theorem prints_declaration (property value : String) (important semicolon blank : Bool)
    (word : List Char) :
    Prints [printDeclaration property value important]
      (((Statement.declaration property (some value) important semicolon blank).head word).map
        Piece.printed) := by
  -- the name is in lower case unless it must keep its case
  have hname : (if keepsCase property.toList then property else Text.lower property).toList
      = (Piece.property property.toList).printed := by
    rw [Piece.printed]
    split <;> simp [Text.lower]
  -- the space in front of the value and the semicolon behind it are nothing essential
  have hvalue := alike_spaced (alike_value (Text.startsWith
    (Piece.property property.toList).printed ['-', '-']) value)
  have hmark := alike_importance important word
  have hall := hvalue.append (hmark.append Alike.semicolon)
  rw [printDeclaration]
  refine ((Prints.text _).cons ((Prints.text ":").cons ((Prints.text _).cons
    ((Prints.text _).cons (.text ";"))))).cat.trans ?_
  rw [hname, Statement.head, List.map_append]
  simpa [Piece.printed] using
    (Alike.refl [(Piece.property property.toList).printed, [':']]).append hall

/-- The head of an at-rule is cut behind its name. -/
theorem alike_atRuleHead (name params : String) (block : Option (List Statement)) (blank : Bool)
    (word : List Char) :
    Alike [(atRuleHead name params).toList]
      (((Statement.atRule name params block blank).head word).map Piece.printed) := by
  have hparams : Alike [(if params == "" then "" else formatValue params).toList]
      [params.toList] := by
    -- parameters that are empty are printed as they are
    split
    · rename_i hempty
      rw [beq_iff_eq.1 hempty]
      exact .refl _
    · exact alike_value false params
  have hspaced := alike_spaced hparams
  rw [atRuleHead]
  generalize (if params == "" then "" else formatValue params) = formatted at hspaced ⊢
  -- the space in front of the parameters keeps the name apart from them
  have hjoin : Alike [('@' :: Text.lowerChars name.toList)
      ++ (if formatted == "" then "" else " " ++ formatted).toList]
      ['@' :: Text.lowerChars name.toList,
        (if formatted == "" then "" else " " ++ formatted).toList] := by
    refine .join fun d hd => ?_
    split at hd
    · cases hd
    · obtain rfl : ' ' = d := by simpa using hd
      exact delimits_of_isSpace rfl
  have hall := hjoin.trans ((Alike.refl ['@' :: Text.lowerChars name.toList]).append hspaced)
  simpa [Statement.head, Piece.printed, Text.lower] using hall

/-- A block prints what is in it, between braces. -/
theorem prints_block {ds : List Doc} {ts : List (List Char)} (h : Prints ds ts) :
    Prints [printBlock ds] (['{'] :: ts ++ [['}']]) := by
  have hopen := Prints.text "\x7b"
  have hclose := Prints.text "\x7d"
  rw [printBlock]
  split
  · rename_i hds
    rw [List.isEmpty_iff.1 hds] at h
    exact (hopen.cons (Prints.hardline.cons hclose)).cat.trans
      ((Alike.refl [['{']]).append (h.alike.append (.refl [['}']])))
  · exact (hopen.cons ((Prints.hardline.cons h.cat).cat.indent.cons
      (Prints.hardline.cons hclose))).cat

/-- Selectors print their text: the commas between them take the place of those at which it was cut.
-/
theorem prints_selector (selector : String) :
    Prints [.join (.cat [",", .hardline]) ((formatSelector selector).map .text)]
      [selector.toList] := by
  have hcomma : Prints [.cat [",", .hardline]] [[',']] :=
    ((Prints.text ",").cons Prints.hardline).cat
  refine (Prints.join hcomma _).trans ?_
  have hparts : (formatSelector selector).map String.toList
      = (splitTopLevel ',' {} selector.toList).map formatOneSelector := by
    simp [formatSelector, Function.comp_def]
  rw [hparts]
  exact (Alike.intersperse alike_formatOneSelector _).trans (alike_splitTopLevel _)

/-- A statement without a block has the contents of its pieces. -/
theorem prints_simple {s : Statement} (hs : s.block? = none) (word : List Char) :
    Prints [s.print] ((s.head word).map Piece.printed) := by
  -- a statement without a block has one text
  match s with
  | .comment text _ => exact .text text
  | .declaration property none _ semicolon _ =>
    rw [Statement.print]
    refine (Prints.text _).trans ?_
    simpa [Statement.head, Piece.printed] using alike_ending property.toList semicolon
  | .declaration property (some value) important semicolon blank =>
    exact prints_declaration property value important semicolon blank word
  | .atRule name params none blank =>
    have hend := alike_ending (atRuleHead name params).toList true
    rw [Statement.print]
    refine (Prints.text _).trans ?_
    rw [String.toList_append]
    exact hend.trans (alike_atRuleHead name params none blank word)
  | .atRule _ _ (some _) _ | .rule .. => cases hs

/-- A statement with a block has the contents of its pieces and of its block. -/
theorem prints_withBlock {s : Statement} {block : List Statement} {ts : List (List Char)}
    (hs : s.block? = some block) (hblock : Prints (printFirst block) ts) :
    Prints [s.print] ((s.head []).map Piece.printed ++ (['{'] :: ts ++ [['}']])) := by
  -- the space in front of the brace is nothing essential
  have hspace : Prints [" "] [] :=
    (Prints.text " ").trans (.spaces (Text.forall_mem_of_all (by decide)))
  match s with
  | .comment .. | .declaration .. | .atRule _ _ none _ => cases hs
  | .atRule name params (some block) blank =>
    cases hs
    rw [Statement.print]
    have hhead := (Prints.text _).trans (alike_atRuleHead name params (some block) blank [])
    exact (hhead.cons (hspace.cons (prints_block hblock))).cat
  | .rule selector block _ =>
    cases hs
    rw [Statement.print]
    exact ((prints_selector selector).cons (hspace.cons (prints_block hblock))).cat

/-- Between statements there are only lines. -/
theorem prints_separatorBefore (s : Statement) : Prints (separatorBefore s) [] := by
  rw [separatorBefore]
  split
  · exact Prints.hardline.cons .hardline
  · exact .hardline

/-- Printed statements have the contents of the pieces that they are spelled with. -/
theorem Spells.prints {statements : List Statement} {pieces : List Piece}
    (h : Spells statements pieces) :
    Prints (printFirst statements) (pieces.map Piece.printed) ∧
      Prints (printFollowing statements) (pieces.map Piece.printed) := by
  -- the statements of a block are printed with their first one in front of the brace or behind
  -- others
  induction h with
  | nil => exact ⟨.nil, .nil⟩
  | @simple s rest pieces word hword hs hrest ih =>
    have hprints := (prints_simple hs word).cons ih.2
    rw [List.map_append]
    exact ⟨hprints, (prints_separatorBefore s).append hprints⟩
  | @block s block rest inner pieces hs hblock hrest ihBlock ih =>
    have hprints := (prints_withBlock hs ihBlock.1).cons ih.2
    simp only [List.map_append, List.map_cons, List.map_nil]
    exact ⟨hprints, (prints_separatorBefore s).append hprints⟩

/-- A printed stylesheet has the contents of the pieces that it is spelled with. -/
theorem Spells.prints_sheet {statements : List Statement} {pieces : List Piece}
    (h : Spells statements pieces) :
    Prints [print statements] (pieces.map Piece.printed) := by
  rw [print]
  split
  · rename_i hempty
    rw [List.isEmpty_iff.1 hempty] at h
    cases h
    exact (Prints.text "").trans .empty
  · have hsheet := (h.prints.1.cat.cons .hardline).cat
    rwa [List.append_nil] at hsheet

/-! ## Rendering -/

mutual
/-- The texts of a document are those of its leaves. -/
theorem text_leaves (deferred : Bool) (d : Doc) :
    (d.leaves deferred).map (·.text) = Embed.textsOf .all d := by
  -- a document that is broken or flat by choice has the texts of both forms
  match d with
  | .text s => rfl
  | .line _ | .breakParent | .suffixBoundary | .cursor => rfl
  | .concat parts | .fill parts => exact text_leavesAll deferred parts
  | .indent body | .align _ body | .group body _ => exact text_leaves deferred body
  | .lineSuffix body => exact text_leaves true body
  | .alternatives first others _ =>
    have hfirst := text_leaves deferred first
    have hothers := text_leavesAll deferred others
    simp [Doc.leaves, Embed.textsOf, hfirst, hothers]
  | .ifBreak broken flat =>
    have hbroken := text_leaves deferred broken
    have hflat := text_leaves deferred flat
    simp [Doc.leaves, Embed.textsOf, hbroken, hflat]

/-- `text_leaves` for a sequence. -/
theorem text_leavesAll (deferred : Bool) (parts : List Doc) :
    (Doc.leavesAll deferred parts).map (·.text) = Embed.textsOfAll .all parts := by
  match parts with
  | [] => rfl
  | d :: rest =>
    have hd := text_leaves deferred d
    have hrest := text_leavesAll deferred rest
    simp [Doc.leavesAll, Embed.textsOfAll, hd, hrest]
end

mutual
/-- A plain document passes every test that plain parts pass. -/
theorem every_of_isPlain {p : Doc → Bool} (hp : ∀ d, isPlain d = true → p d = true) (d : Doc)
    (h : d.every isPlain = true) : d.every p = true := by
  -- only texts, lines and what is made of them are plain
  match d with
  | .text s => simp [Doc.every, hp (.text s) rfl]
  | .line kind => simp [Doc.every, hp (.line kind) rfl]
  | .breakParent => simp [Doc.every, hp .breakParent rfl]
  | .concat parts =>
    simp only [Doc.every, isPlain, Bool.true_and] at h
    simp [Doc.every, hp (.concat parts) rfl, everyAll_of_isPlain hp parts h]
  | .indent body =>
    simp only [Doc.every, isPlain, Bool.true_and] at h
    simp [Doc.every, hp (.indent body) rfl, every_of_isPlain hp body h]
  | .suffixBoundary | .cursor | .fill _ | .align .. | .group .. | .alternatives .. | .ifBreak ..
  | .lineSuffix _ => simp [Doc.every, isPlain] at h

/-- `every_of_isPlain` for a sequence. -/
theorem everyAll_of_isPlain {p : Doc → Bool} (hp : ∀ d, isPlain d = true → p d = true)
    (parts : List Doc) (h : Doc.everyAll isPlain parts = true) : Doc.everyAll p parts = true := by
  match parts with
  | [] => rfl
  | d :: rest =>
    simp only [Doc.everyAll, Bool.and_eq_true] at h
    simp [Doc.everyAll, every_of_isPlain hp d h.1, everyAll_of_isPlain hp rest h.2]
end

/-- The essential characters of texts behind one another are those of each text. -/
theorem essential_flatMap {α : Type} (f : α → List Char) (l : List α) :
    essential (l.flatMap f) = l.flatMap fun a => essential (f a) := by
  induction l with
  | nil => rfl
  | cons a l ih => rw [List.flatMap_cons, essential_append, ih, List.flatMap_cons]

/-- The layout engine adds and takes no essential characters. -/
theorem essential_visible (cs : List Char) : essential (Layout.visible cs) = essential cs := by
  rw [essential, Layout.visible, List.filter_filter, essential]
  refine List.filter_congr fun c _ => ?_
  by_cases hc : Layout.isLayoutChar c = true
  · have hspace : Text.isSpace c = true := by
      simp only [Layout.isLayoutChar, Bool.or_eq_true, beq_iff_eq] at hc
      rcases hc with (rfl | rfl) | rfl <;> rfl
    simp [isEssential, hspace, hc]
  · simp [hc]

/-- What is rendered has the essential characters of the texts of the document. -/
theorem essential_render (settings : Layout.Settings) {d : Doc} (hd : d.every isPlain = true) :
    essential (Layout.render settings d).toList = (texts d).flatMap essential := by
  have haligned : d.every Doc.isColumnAligned = true :=
    every_of_isPlain (fun e he => by cases e <;> first | rfl | cases he) d hd
  have hfixed : d.every Doc.isFixed = true :=
    every_of_isPlain (fun e he => by cases e <;> first | rfl | cases he) d hd
  rw [← essential_visible, Layout.visible_render_of_isFixed settings haligned hfixed,
    Layout.visibleOf, essential_flatMap, texts, ← text_leaves false d, List.map_map,
    List.flatMap_map]
  simp only [essential_visible, Function.comp_apply]

/-! ## Placeholders -/

/-- No letter of an important word is an at sign. -/
theorem not_mem_of_isImportant {word : List Char} (h : isImportant word = true) : '@' ∉ word := by
  have hletters : ∀ l ∈ "important".toList, isLetterOf l '@' = false :=
    Text.forall_mem_of_all (by decide)
  intro hmem
  obtain ⟨letter, hletter, hat⟩ := isLetterOf_of_mem h hmem
  exact Bool.false_ne_true ((hletters letter hletter).symm.trans hat)

/-- Every word that marks importance among the pieces was read as such a word. -/
theorem isImportant_of_mem {statements : List Statement} {pieces : List Piece}
    (h : Spells statements pieces) {word : List Char} (hmem : .important word ∈ pieces) :
    isImportant word = true := by
  induction h with
  | nil => cases hmem
  -- the only word among the pieces of a statement is that of a declaration
  | @simple s rest pieces w hw hs hrest ih =>
    rcases List.mem_append.1 hmem with hmem | hmem
    · cases s with
      | declaration property value important semicolon blank =>
        cases value <;> cases important <;> simp [Statement.head] at hmem
        exact hmem ▸ hw
      | _ => simp [Statement.head] at hmem
    · exact ih hmem
  | @block s block rest inner pieces hs hblock hrest ihBlock ih =>
    simp only [List.mem_append, List.mem_cons, List.not_mem_nil, or_false] at hmem
    -- the pieces in front of the block, the braces and the pieces in it
    rcases hmem with (hmem | (hmem | hmem) | hmem) | hmem
    · cases s with
      | declaration => cases hs
      | _ => simp [Statement.head] at hmem
    · cases hmem
    · exact ihBlock hmem
    · cases hmem
    · exact ih hmem

/-- Where each part is a sublist of another, the whole is. -/
theorem sublist_flatMap {α β : Type} {f g : α → List β} {l : List α}
    (h : ∀ a ∈ l, (f a).Sublist (g a)) : (l.flatMap f).Sublist (l.flatMap g) := by
  induction l with
  | nil => exact .refl _
  | cons a l ih =>
    rw [List.flatMap_cons, List.flatMap_cons]
    exact (h a List.mem_cons_self).append (ih fun b hb => h b (List.mem_cons_of_mem _ hb))

/-- Printing a piece keeps its placeholders. -/
theorem Piece.placeholders_sublist {piece : Piece}
    (h : ∀ word, piece = .important word → isImportant word = true) :
    (placeholdersIn piece.written).Sublist (placeholdersIn piece.printed) := by
  -- lower case may write a placeholder that was none, but loses none
  match piece with
  | .kept text => exact .refl _
  | .property name =>
    rw [written, printed]
    split
    · exact .refl _
    · exact placeholdersIn_sublist_lower [] name
  | .atRule name => exact placeholdersIn_sublist_lower_behind ['@'] [] name
  | .important word =>
    have hnone := placeholdersIn_drop (not_mem_of_isImportant (h word rfl)) []
    rw [List.append_nil, placeholdersIn_nil] at hnone
    rw [written, hnone]
    exact List.nil_sublist _

/-- A document conserves the contents of a text.  The text and what is rendered of the document are made
of the same pieces, but for white space and semicolons; names are printed in lower case.  The texts of
the document hold the placeholders of the text, in their order, and no others if no name changes its
case. -/
def Conserves (source : Source) (statements : List Statement) (doc : Doc) : Prop :=
  ∃ pieces, Spells statements pieces ∧
    essential source.chars = essential (pieces.flatMap Piece.written) ∧
    (∀ settings, essential (Layout.render settings doc).toList
      = essential (pieces.flatMap Piece.printed)) ∧
    (placeholdersIn source.chars).Sublist
      ((Embed.textsOf .all doc).flatMap Embed.Marker.css.placeholders) ∧
    ((∀ piece ∈ pieces, piece.printed = piece.written) →
      placeholdersIn source.chars
        = (Embed.textsOf .all doc).flatMap Embed.Marker.css.placeholders)

/-- The document of the statements that are read conserves the text: both are made of the pieces the
statements are spelled with. -/
theorem conserves_print {source : Source} {statements : List Statement}
    (h : read source = .ok statements) : Conserves source statements (print statements) := by
  rw [read] at h
  split at h
  · rename_i after hread
    cases h
    -- the text is made of the pieces as they are written, and the document of them as they are
    -- printed
    obtain ⟨new, pieces, text, hnew, hspells, halike, htext⟩ := readStatements_spells hread
    obtain rfl : statements = new := hnew
    obtain rfl : source.chars = text := by simpa using htext
    have hprints := hspells.prints_sheet
    have hfound : (Embed.textsOf .all (print statements)).flatMap Embed.Marker.css.placeholders
        = pieces.flatMap fun piece => placeholdersIn piece.printed := by
      have := hprints.alike.placeholders
      simpa [texts, List.flatMap_map, ← placeholders_eq] using this
    have hwritten : placeholdersIn source.chars
        = pieces.flatMap fun piece => placeholdersIn piece.written := by
      simpa [List.flatMap_map] using halike.placeholders
    refine ⟨pieces, hspells, ?_, fun settings => ?_, ?_, fun hsame => ?_⟩
    · have := halike.essential
      rw [List.flatMap_singleton, List.flatMap_map] at this
      rw [this, essential_flatMap]
    · have := hprints.alike.essential
      rw [List.flatMap_singleton, List.flatMap_map] at this
      rw [essential_render settings (hprints.plain _ List.mem_cons_self), this, essential_flatMap]
    · -- what marks importance may be printed without a placeholder that was in its word, but has
      -- none
      rw [hfound, hwritten]
      exact sublist_flatMap fun piece hpiece => Piece.placeholders_sublist fun word hword =>
        isImportant_of_mem hspells (hword ▸ hpiece)
    · -- printed as they are written, the pieces have the same placeholders
      rw [hfound, hwritten]
      rw [List.flatMap_def, List.flatMap_def,
        List.map_congr_left fun piece hpiece => by rw [← hsame piece hpiece]]
  · cases h

/-- Formatting a stylesheet conserves its contents, if the stack holds the calls: three for each level
of statements. -/
theorem print_conserves {stack : Nat} {source : Source} {statements : List Statement}
    (h : readOn stack source = some (.ok statements)) :
    match printOn stack statements with
    | some doc => Conserves source statements doc
    | none => stack < 3 * depthOf statements := by
  unfold printOn
  by_cases hcalls : 3 * depthOf statements ≤ stack
  · rw [if_pos hcalls]
    exact conserves_print (read_of_readOn h)
  · rw [if_neg hcalls]
    exact Nat.lt_of_not_le hcalls

/-- A rule that is an interpolation and holds an important declaration, and an at-rule. -/
def sheet : Source := .ofString "@vxfmt-placeholder-0-id{Color:red!IMPORTANT}\n@Media x;"

/-- What is read from the sheet. -/
def sheetStatements : List Statement :=
  [.rule "@vxfmt-placeholder-0-id" [.declaration "Color" (some "red") true true false] false,
    .atRule "Media" "x" none false]

/-- A sheet with a placeholder for a selector and an important declaration conserves both. -/
theorem print_conserves_sheet :
    readOn 1000 sheet = some (.ok sheetStatements) ∧
    printOn 1000 sheetStatements = some (print sheetStatements) ∧
    Layout.render {} (print sheetStatements)
      = "@vxfmt-placeholder-0-id \x7b\n  color: red !important;\n\x7d\n@media x;\n" ∧
    placeholdersIn sheet.chars = [['0']] ∧
    Conserves sheet sheetStatements (print sheetStatements) := by
  have hread : read sheet = .ok sheetStatements := rfl
  -- both calls keep to the stack
  have hreadOn : readOn 1000 sheet = some (.ok sheetStatements) := by
    rw [readOn, hread]
    rfl
  have hprintOn : printOn 1000 sheetStatements = some (print sheetStatements) := rfl
  have hconserves := print_conserves hreadOn
  rw [hprintOn] at hconserves
  exact ⟨hreadOn, hprintOn, by decide +kernel, by decide +kernel, hconserves⟩

end Reflow.Stylesheet
