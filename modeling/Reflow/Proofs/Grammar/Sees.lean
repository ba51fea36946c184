import Reflow.Proofs.Grammar.Follow
import Reflow.Proofs.Grammar.Stands
import Reflow.Proofs.Token.Lines

/-!
# Seeing where lines end

Whether a semicolon may be left out is told by the tokens and not by their words.  A parser sees the
tokens that the scanner takes.  A part of the grammar that takes tokens in script mode does not come
upon other ones, so where it stands before the last words, it sees the last tokens.

## Key results

- `State.Sees`: the tokens that a parser has before it
- `State.Sees.of_stands`: behind a part of the grammar the parser sees the rest of the tokens
- `Gives.semicolon_omitted`, `Gives.semicolon_taken`: a statement ends with its line or a semicolon
-/

namespace Reflow

namespace Grammar

/-- The parser looks at the first of the tokens, and the scanner takes the others, up to the end of
the input. -/
structure State.Sees (s : State) (ts : List Token) : Prop where
  ready : s.Ready
  fresh : s.Fresh
  ahead : ts.head? = some s.token
  rest : s.scanner.LeadsTo ts.tail
  ends : EndOnce (ts.map Token.word)
  /-- There are no more tokens than the bound on loops allows. -/
  room : ts.length ≤ s.scanner.source.size + 1

namespace State.Sees

variable {s s' : State} {ts us vs : List Token}

/-- The first of the tokens that are seen is the one ahead. -/
theorem exists_cons (h : s.Sees ts) : ∃ rest, ts = s.token :: rest := by
  cases ts with
  | nil => cases h.ahead
  | cons token rest =>
    cases h.ahead
    exact ⟨rest, rfl⟩

/-- Where the tokens are seen, their words lie ahead. -/
theorem stands (h : s.Sees ts) : Stands s (ts.map Token.word) := by
  obtain ⟨rest, rfl⟩ := h.exists_cons
  exact ⟨h.ready, rfl, h.rest.yields, by simpa using h.room⟩

/-- Only the token ahead and the scanner tell what a parser sees. -/
theorem congr (h : s.Sees ts) (hscanner : s'.scanner = s.scanner) (htoken : s'.token = s.token)
    (hend : s'.lastEnd = s.lastEnd) : s'.Sees ts where
  ready := (h.stands.congr hscanner htoken hend).ready
  fresh := by
    obtain ⟨before, hsource, hnext⟩ := h.fresh
    exact ⟨before, hscanner ▸ hsource, hscanner ▸ htoken ▸ hnext⟩
  ahead := htoken ▸ h.ahead
  rest := hscanner ▸ h.rest
  ends := h.ends
  room := hscanner ▸ h.room

/-- Where a source starts, the first token leads to the others. -/
theorem start {source : Source} {token : Token} {scanner : Scanner}
    (hnext : Scan.nextScript (.start source) = (.ok token, scanner)) (hleads : scanner.LeadsTo ts)
    (hends : EndOnce ((token :: ts).map Token.word)) (hroom : ts.length ≤ source.size) :
    State.Sees { scanner, token } (token :: ts) := by
  have hstands : Stands { scanner, token } (token.word :: ts.map Token.word) :=
    .start hnext hleads.yields (by simpa using hroom)
  exact ⟨hstands.ready, ⟨_, (Scan.nextScript_source hnext).symm, hnext⟩, rfl, hleads, hends,
    by simpa using hstands.room⟩

/-- Taking tokens leads to some of the last ones, and behind the end to nothing but the end. -/
theorem of_reads (h : s.Sees ts) (hreads : Reads s s') :
    s'.token.kind = .endOfInput ∨
      ∃ us, s'.token :: us <:+ ts ∧ s'.scanner.LeadsTo us := by
  induction hreads with
  | same hscanner htoken =>
    obtain ⟨rest, rfl⟩ := h.exists_cons
    exact .inr ⟨rest, htoken ▸ List.suffix_rfl, by rw [hscanner]; exact h.rest⟩
  | @take b c hreads hnext ih =>
    obtain ⟨before, -, hbefore⟩ := hreads.fresh h.fresh
    have hend : b.token.kind = .endOfInput → c.token.kind = .endOfInput := fun hb =>
      (Scan.nextScript_end hbefore hb hnext).1
    obtain hb | ⟨us, hus, hrest⟩ := ih
    · exact .inl (hend hb)
    · cases us with
      | nil =>
        -- the token ahead is the last one, so it is the end
        obtain ⟨before, rfl⟩ := hus
        have hlast : EndOnce [b.token.word] :=
          .of_append (by simpa using h.ends) (by simp)
        rcases hlast with ⟨heof, -⟩ | ⟨-, hnil⟩
        · exact .inl (hend (congrArg Word.kind heof))
        · exact hnil.elim
      | cons u us =>
        obtain ⟨s', hnext', hmore⟩ := hrest
        rw [hnext] at hnext'
        cases hnext'
        exact .inr ⟨us, (List.suffix_cons ..).trans hus, hmore⟩

/-- A parser that took tokens and stands before the last words sees the last tokens. -/
theorem of_stands (h : s.Sees (us ++ vs)) (hreads : Reads s s') (hvs : vs ≠ [])
    (hstands : Stands s' (vs.map Token.word)) (hkind : s'.token.kind ≠ .endOfInput) :
    s'.Sees vs := by
  obtain hend | ⟨ws, hws, hrest⟩ := h.of_reads hreads
  · exact absurd hend hkind
  have hends : EndOnce (vs.map Token.word) :=
    .of_append (by rw [← List.map_append]; exact h.ends) (by simpa using hvs)
  have hends' : EndOnce ((s'.token :: ws).map Token.word) := by
    obtain ⟨xs, hxs⟩ := hws
    exact .of_append (by rw [← List.map_append, hxs]; exact h.ends) (by simp)
  obtain ⟨before, hsource, hbefore⟩ := hreads.fresh h.fresh
  have hleads : before.LeadsTo (s'.token :: ws) := ⟨_, hbefore, hrest⟩
  have hyields : Yields before (vs.map Token.word) := by
    obtain ⟨token, rest, rfl⟩ := List.exists_cons_of_ne_nil hvs
    exact ⟨_, _, hbefore, hstands.word_eq, hstands.rest⟩
  have hwords := hleads.yields.eq_of_endOnce hyields hends' hends
  -- of the tokens, the last ones of this number are the same
  have hlength : (s'.token :: ws).length = vs.length := by
    simpa using congrArg List.length hwords
  obtain rfl : s'.token :: ws = vs :=
    (List.suffix_of_suffix_length_le hws (List.suffix_append us vs)
      (Nat.le_of_eq hlength)).eq_of_length hlength
  exact ⟨hstands.ready, hreads.fresh h.fresh, rfl, hrest, hends, by simpa using hstands.room⟩

end State.Sees

namespace Gives

variable {α : Type} {F : SourceFault → Prop} {s : State} {Q : α → State → Prop} {w : Word}
  {ws : List Word}

/-- The semicolon is left out where a line or the input ends. -/
theorem semicolon_omitted {f : Unit → Parse α} (hs : Stands s (w :: ws))
    (hw : w.isOne [";"] = false)
    (hend : (s.token.kind == .endOfInput || s.token.newlineBefore) = true)
    (hf : Gives F (f ()) s Q) : Gives F (semicolon >>= f) s Q := by
  refine .bind (P := fun _ s' => s' = s) ?_ (by rintro _ _ rfl; exact hf)
  refine .eat_neg hs hw (.look _ rfl ?_)
  rw [Bool.or_assoc, hend, Bool.or_true]
  exact .pure rfl

/-- A semicolon is taken, and the parser sees the tokens behind it. -/
theorem semicolon_taken {t : Token} {us : List Token} {f : Unit → Parse α} (hs : s.Sees (t :: us))
    (ht : t.word = .mark ";") (hus : us ≠ [])
    (hf : ∀ s', Stands s' (us.map Token.word) →
      (s'.token.kind ≠ .endOfInput → s'.Sees us) → Gives F (f ()) s' Q) :
    Gives F (semicolon >>= f) s Q := by
  -- what stands here as words stands here as tokens, too
  have hstands : Stands s (.mark ";" :: us.map Token.word) := by
    have := hs.stands
    rwa [List.map_cons, ht] at this
  have hne : us.map Token.word ≠ [] := by simpa using hus
  -- a semicolon is eaten, and the rest stands here
  have htaken : Gives F semicolon s fun _ s' => Stands s' (us.map Token.word) :=
    .eat_pos hstands hne (by decide) fun _ h1 => .pure h1
  refine (htaken.with_leads (semicolon_passes s hs.ready)).bind ?_
  rintro _ s1 ⟨h1, f1⟩
  -- the tokens that were seen are those behind it
  have hsees : s.Sees ([t] ++ us) := hs
  exact hf s1 h1 (hsees.of_stands (f1.reads hs.fresh nofun) hus h1)

end Gives

end Grammar

end Reflow
