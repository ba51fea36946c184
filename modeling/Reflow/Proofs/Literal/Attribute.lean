import Reflow.Literal.Attribute
import Reflow.Proofs.Literal.Quote
import Reflow.Proofs.Text.Replace

/-!
# What printing keeps of an attribute value

The entities of quotes in an attribute value are read as quotes, and the enclosing quote is written
as an entity again.  Whatever mixture of quotes, entities and parts of entities a value holds, the
result ends at its second enclosing quote only and is read as the same value.

## Key results

- `Unquoted`: values in which no entity of a quote is left
- `unquoted_of_decodes`: all values are so once they are read
- `Unquoted.decodes`: writing a quote as an entity is undone by reading
- `printAttribute_keeps`: what is printed for an attribute value
-/

namespace Reflow

/-- A quote is found behind a text in which it does not stand. -/
theorem indexOf?_singleton {quote : Char} {body : List Char} (h : quote ∉ body)
    (rest : List Char) : indexOf? [quote] (body ++ quote :: rest) = some body.length := by
  -- induction on the body, in which the quote is looked for at each character
  induction body with
  -- the quote stands at the end of the body
  | nil =>
    have hhit : Text.startsWith (quote :: rest) [quote] = true :=
      Text.startsWith_iff.2 (List.prefix_append [quote] rest)
    rw [List.nil_append, indexOf?, if_pos hhit]
    rfl
  | cons c body ih =>
    rw [List.mem_cons, not_or] at h
    -- no character of the body is the quote
    have hmiss : ¬Text.startsWith (c :: (body ++ quote :: rest)) [quote] = true := by
      rw [Text.startsWith_iff, List.cons_prefix_cons]
      exact fun heq => h.1 heq.1
    rw [List.cons_append, indexOf?, if_neg hmiss, ih h.2]
    rfl

/-- Inside a tag, what stands between two quotes and holds none of them is one value. -/
theorem readsAlone_attribute {quote : Char} {body : List Char} (hquote : Text.isQuote quote = true)
    (h : quote ∉ body) {mode : ScanMode} (hmode : mode = .tag ∨ mode = .htmlTag) :
    ReadsAlone mode .markupString (String.ofList (quote :: body ++ [quote])) := by
  have hplain : mode ≠ .htmlValue := by rcases hmode with rfl | rfl <;> nofun
  refine Scan.readsAlone_of_take hplain ?_
  have hrest := Scanner.rest_start (String.ofList (quote :: body ++ [quote]))
  rw [String.toList_ofList] at hrest ⊢
  -- the scanner stands for any that has the attribute before it
  generalize Scanner.start (.ofString (String.ofList (quote :: body ++ [quote]))) = s at hrest ⊢
  -- in both kinds of tag the quote starts a string, which goes up to the next one
  have htag : ∀ html, Scan.nextTag html s = Scan.take .markupString (body.length + 2) false s := by
    intro html
    rw [Scan.nextTag_quote hquote hrest, Scan.nextQuoted, Scan.get_bind_apply, hrest,
      List.cons_append, List.drop_succ_cons, List.drop_zero, indexOf?_singleton h]
  have hlength : (quote :: body ++ [quote]).length = body.length + 2 := by simp
  rw [hlength]
  rcases hmode with rfl | rfl
  · exact htag false
  · exact htag true

namespace Literal

open Text (Replaced)

variable {quote : Char} {cs out : List Char}

/-- The entity of the single quote. -/
def aposEntity : List Char := ['&', 'a', 'p', 'o', 's', ';']

/-- The entity of the double quote. -/
def quotEntity : List Char := ['&', 'q', 'u', 'o', 't', ';']

/-- The first text is read as the second one when its entities for quotes are replaced. -/
def Decodes (cs out : List Char) : Prop :=
  ∃ middle, Replaced aposEntity ['\''] cs middle ∧ Replaced quotEntity ['"'] middle out

/-- An attribute is decoded by replacing apostrophes and then quotes. -/
theorem decodeAttribute_toList (content : String) :
    (decodeAttribute content).toList = Text.replaceFrom quotEntity ['"'] 0
      (Text.replaceFrom aposEntity ['\''] 0 content.toList) := by
  have hapos : "&apos;".toList = aposEntity := by decide
  have hquot : "&quot;".toList = quotEntity := by decide
  rw [decodeAttribute, Text.toList_replaceAll, Text.toList_replaceAll, hapos, hquot]
  rfl

theorem aposEntity_ne_nil : aposEntity ≠ [] := List.cons_ne_nil _ _

theorem quotEntity_ne_nil : quotEntity ≠ [] := List.cons_ne_nil _ _

/-- `decodeAttribute` computes what the relation says. -/
theorem decodes_decodeAttribute (content : String) :
    Decodes content.toList (decodeAttribute content).toList := by
  rw [decodeAttribute_toList]
  exact ⟨_, Text.replaced_replaceFrom aposEntity_ne_nil _ _,
    Text.replaced_replaceFrom quotEntity_ne_nil _ _⟩

/-- The relation is a function. -/
theorem Decodes.decodeAttribute_eq (h : Decodes cs out) :
    decodeAttribute (String.ofList cs) = String.ofList out := by
  obtain ⟨middle, hapos, hquot⟩ := h
  rw [← String.toList_inj, decodeAttribute_toList, String.toList_ofList, String.toList_ofList,
    hapos.replaceFrom_eq aposEntity_ne_nil, hquot.replaceFrom_eq quotEntity_ne_nil]

/-- No entity of a quote is left. -/
structure Unquoted (cs : List Char) : Prop where
  apos : ¬aposEntity <:+: cs
  quot : ¬quotEntity <:+: cs

/-- Each quote has an entity of its own. -/
theorem toList_quoteEntity (hquote : Text.isQuote quote = true) :
    (quoteEntity quote).toList = if quote = '\'' then aposEntity else quotEntity := by
  rcases isQuote_iff.1 hquote with rfl | rfl <;> decide

/-- No entity holds the quote that it stands for. -/
theorem not_mem_quoteEntity (hquote : Text.isQuote quote = true) :
    quote ∉ (quoteEntity quote).toList := by
  rcases isQuote_iff.1 hquote with rfl | rfl <;> decide

/-- A character that is no ampersand starts no entity. -/
theorem infix_of_singleton {c : Char} {tail : List Char} (hc : c ≠ '&') (rest : List Char)
    (h : '&' :: tail <:+: [c] ++ rest) : '&' :: tail <:+: rest := by
  rw [List.singleton_append, List.infix_cons_iff, List.cons_prefix_cons] at h
  exact h.resolve_left fun hstart => hc hstart.1.symm

/-- The entity of the single quote does not start in that of the double quote. -/
theorem infix_of_quotEntity (rest : List Char) (h : aposEntity <:+: quotEntity ++ rest) :
    aposEntity <:+: rest := by
  simpa [aposEntity, quotEntity, List.infix_cons_iff] using h

/-- A value that was read holds no entities of quotes: those for single quotes are gone, and no new
ones arise when those for double quotes are replaced. -/
theorem unquoted_of_decodes (h : Decodes cs out) : Unquoted out := by
  obtain ⟨middle, hapos, hquot⟩ := h
  have hmiddle : ¬aposEntity <:+: middle :=
    hapos.not_infix_self (by decide) (infix_of_singleton (by decide))
  exact ⟨hquot.not_infix (by decide) (infix_of_singleton (by decide)) hmiddle,
    hquot.not_infix_self (by decide) (infix_of_singleton (by decide))⟩

/-- A quote that is written as an entity is read as the quote again. -/
theorem Unquoted.decodes (h : Unquoted cs) (hquote : Text.isQuote quote = true)
    (hout : Replaced [quote] (quoteEntity quote).toList cs out) : Decodes out cs := by
  rw [toList_quoteEntity hquote] at hout
  rcases isQuote_iff.1 hquote with rfl | rfl
  · -- the entities that were written are not those for single quotes
    have hquot : Replaced ['"'] quotEntity cs out := hout
    have hapos : ¬aposEntity <:+: out := hquot.not_infix (by decide) infix_of_quotEntity h.apos
    exact ⟨out, Text.replaced_self hapos, hquot.undo (by decide) h.quot⟩
  · have hapos : Replaced ['\''] aposEntity cs out := hout
    exact ⟨cs, hapos.undo (by decide) h.apos, Text.replaced_self h.quot⟩

/-- The printed value: between two quotes stands a text without that quote, which is read as the
value was. -/
theorem printAttribute_content (raw : String) (single : Bool) :
    let content := decodeAttribute (String.ofList (contentOf raw.toList))
    ∃ quote body, Text.isQuote quote = true ∧ quote ∉ body ∧ Decodes body content.toList ∧
      (printAttribute raw single).toList = quote :: body ++ [quote] := by
  intro content
  -- the quote is the one that is preferred for the content
  have hquote := isQuote_preferredQuote content.toList single
  generalize hchosen : preferredQuote content.toList single = quote at hquote
  -- the quotes in the content are written as entities
  have hwritten : Replaced [quote] (quoteEntity quote).toList content.toList _ :=
    Text.replaced_replaceFrom (List.cons_ne_nil quote []) _ _
  refine ⟨quote, _, hquote, hwritten.not_mem (not_mem_quoteEntity hquote),
    (unquoted_of_decodes (decodes_decodeAttribute _)).decodes hquote hwritten, ?_⟩
  -- the definition, with the quote that was chosen
  show (String.singleton _ ++ Text.replaceAll content (String.singleton _) _ ++
    String.singleton _ : String).toList = _
  rw [hchosen]
  simp [Text.replaceAll]

/-- Whatever an attribute value holds, and whatever its delimiters were: inside a tag the printed
value is read as one value, has the same content once its entities for quotes are replaced, and is
printed in the same way. -/
theorem printAttribute_keeps (raw : String) (single : Bool) :
    let printed := printAttribute raw single
    ReadsAlone .tag .markupString printed ∧ ReadsAlone .htmlTag .markupString printed ∧
      decodeAttribute (String.ofList (contentOf printed.toList)) =
        decodeAttribute (String.ofList (contentOf raw.toList)) ∧
      printAttribute printed single = printed := by
  intro printed
  obtain ⟨quote, body, hquote, hbody, hdecodes, htext⟩ := printAttribute_content raw single
  have hprinted : printed = String.ofList (quote :: body ++ [quote]) := by
    rw [← htext, String.ofList_toList]
  have hcontent : decodeAttribute (String.ofList (contentOf printed.toList)) =
      decodeAttribute (String.ofList (contentOf raw.toList)) := by
    rw [htext, contentOf_quoted, hdecodes.decodeAttribute_eq, String.ofList_toList]
  have hreads : ∀ {mode}, mode = .tag ∨ mode = .htmlTag →
      ReadsAlone mode .markupString printed := fun hmode => by
    rw [hprinted]
    exact readsAlone_attribute hquote hbody hmode
  refine ⟨hreads (.inl rfl), hreads (.inr rfl), hcontent, ?_⟩
  · -- how a value is printed depends on nothing but its content
    rw [printAttribute, hcontent]
    rfl

example : printAttribute "\"it's a &quot;&apos;&quot;&quot;\"" false =
    "'it&apos;s a \"&apos;\"\"'" := by decide

end Literal

end Reflow
