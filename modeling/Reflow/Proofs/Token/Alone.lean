import Reflow.Proofs.Token.Words

/-!
# Tokens by themselves

A text can be read by itself as one token, from its first character to its last.  And the text of a
string or a number tells by itself how the scanner came to take it: it reaches as far as the scanner
measured the string or the number in what lay ahead.  A string goes from a quote to the next quote of
the same kind that stands behind no backslash, on the same line but for line feeds behind a backslash.

## Key results

- `ReadsAlone`: a text is one token, and nothing else
- `Scan.readsAlone_of_take`: a text is one token if all of it is taken as one
- `Scan.next_measured`: where the texts of strings and numbers come from, in any mode
- `Quoted`: what stands between the quotes of a string
- `readsAlone_quoted`: a content in its quotes is one string for the scanner
- `Scan.next_string`: every string of the scanner is a content in its quotes
-/

namespace Reflow

/-- The scanner behind the last character of a text in which it met no comments. -/
def Scanner.behind (text : String) : Scanner :=
  { source := .ofString text, position := ({} : Position).over text.toList }

/-- Read in a mode, the text is one token of a kind, from its first character to its last, and then
the end of the input. -/
structure ReadsAlone (mode : ScanMode) (kind : TokenKind) (text : String) : Prop where
  token : Scan.next mode (.start (.ofString text)) =
    (.ok ⟨kind, text, ⟨{}, (Scanner.behind text).position⟩, false⟩, Scanner.behind text)
  ending : Scan.next mode (Scanner.behind text) =
    (.ok ⟨.endOfInput, "", ⟨(Scanner.behind text).position, (Scanner.behind text).position⟩, false⟩,
      Scanner.behind text)

/-- At the start of a text all of it lies ahead. -/
theorem Scanner.rest_start (text : String) :
    (Scanner.start (.ofString text)).rest = text.toList := Source.suffix_eq _ 0

/-- Behind a text there is nothing ahead. -/
theorem Scanner.rest_behind (text : String) : (Scanner.behind text).rest = [] := by
  have hoffset : (Scanner.behind text).position.offset = text.toList.length := by
    show (({} : Position).over text.toList).offset = _
    rw [Position.offset_over]
    exact Nat.zero_add _
  rw [Scanner.rest, Source.suffix_eq, hoffset]
  exact List.drop_length

/-- How the scanner came to the text of a string or of a number. -/
structure Token.Measured (t : Token) : Prop where
  string : t.kind = .string → ∃ quote ahead n, Text.isQuote quote = true ∧
    stringReach quote ahead = .closed n ∧ t.text.toList = quote :: ahead.take n
  number : t.kind = .number → ∃ c ahead n,
    (Text.isDigit c = true ∨ c = '.' ∧ startsWithDigit ahead = true) ∧
    numberReach (c :: ahead) = .closed n ∧ t.text.toList = (c :: ahead).take n

/-- There are two quotes. -/
theorem isQuote_iff {c : Char} : Text.isQuote c = true ↔ c = '"' ∨ c = '\'' := by
  simp [Text.isQuote]

/-- A quote starts nothing but a string. -/
theorem quote_first {quote : Char} (h : Text.isQuote quote = true) :
    isTokenSpace quote = false ∧ quote.toNat ≠ 0 ∧ isNameStart quote = false ∧
      Text.isDigit quote = false ∧ quote ≠ '.' ∧ quote ≠ '/' := by
  rcases isQuote_iff.1 h with rfl | rfl <;> decide

/-- A quote is nothing that is passed over. -/
theorem triviaOf_of_isQuote {quote : Char} (h : Text.isQuote quote = true) (cs : List Char) :
    triviaOf (quote :: cs) = [] := by
  obtain ⟨hspace, -, -, -, -, hslash⟩ := quote_first h
  exact triviaOf_eq_nil hspace fun hc => absurd hc hslash

namespace Scan

variable {s : Scanner}

/-- Where there is nothing to pass over, the token inside a tag is what lies ahead. -/
theorem nextTag_of_rest (html : Bool) (htrivia : triviaOf s.rest = [])
    (hspace : s.rest.takeWhile isTokenSpace = []) :
    nextTag html s = (match s.rest with
      | [] => take .endOfInput 0 false
      | c :: rest =>
        if isNameStart c then
          let part (c : Char) : Bool := isMarkupNamePart c || (html && (c == ':' || c == '.'))
          if html && rest.all part then endless s.position
          else take .markupName ((c :: rest).takeWhile part).length false
        else if c = '\'' || c = '"' then nextQuoted c
        else if ['<', '>', '/', '=', '{', '}', ':', '.'].contains c then take .punctuator 1 false
        else fault (.unexpectedInTag c) s.position : Scan Token) s := by
  -- there is no trivia to skip and no white space either
  have hskip : skipTrivia s = (.ok false, s) := by
    show skipPieces false (triviaOf s.rest) s = _
    rw [htrivia]
    rfl
  have hskipSpace : skipSpace s = (.ok (), s) := by
    show (Except.ok (), s.advance (s.rest.takeWhile isTokenSpace).length) = _
    rw [hspace]
    simp [Scanner.advance]
  -- in HTML only white space is skipped, in other markup comments as well
  cases html with
  | true =>
    show (skipSpace >>= _ : Scan Token) s = _
    rw [Course.bind_apply, hskipSpace]
    rfl
  | false =>
    show ((skipTrivia >>= fun _ => pure ()) >>= (_ : Unit → Scan Token)) s = _
    rw [Course.bind_apply, Course.bind_apply, hskip]
    rfl

/-- Inside a tag a quote starts a value. -/
theorem nextTag_quote {html : Bool} {quote : Char} {cs : List Char}
    (hquote : Text.isQuote quote = true) (hrest : s.rest = quote :: cs) :
    nextTag html s = nextQuoted quote s := by
  obtain ⟨hspace, -, hname, -⟩ := quote_first hquote
  have htrivia : triviaOf s.rest = [] := by
    rw [hrest]
    exact triviaOf_of_isQuote hquote cs
  have hnone : s.rest.takeWhile isTokenSpace = [] := by
    rw [hrest, List.takeWhile_cons_of_neg (by simp [hspace])]
  rw [nextTag_of_rest html htrivia hnone, hrest]
  rcases isQuote_iff.1 hquote with rfl | rfl <;> simp [hname]

/-- At the end there is the end, in every mode but the one of attribute values. -/
theorem next_eof {mode : ScanMode} (hmode : mode ≠ .htmlValue) (hrest : s.rest = []) :
    next mode s = take .endOfInput 0 false s := by
  -- at the end a tag has no trivia, and the end is what it reads
  have htag : ∀ html, nextTag html s = take .endOfInput 0 false s := by
    intro html
    rw [nextTag_of_rest html (by rw [hrest, triviaOf]) (by rw [hrest]; rfl), hrest]
  have hchild : ∀ html, nextChild html s = take .endOfInput 0 false s := by
    intro html
    rw [nextChild, get_bind_apply, hrest]
  -- every mode but one comes to one of these
  cases mode with
  | script => exact nextScript_eof hrest
  | tag => exact htag false
  | htmlTag => exact htag true
  | child => exact hchild false
  | htmlChild => exact hchild true
  | htmlValue => exact absurd rfl hmode

/-- A text reads alone if all of it is taken at once. -/
theorem readsAlone_of_take {mode : ScanMode} {kind : TokenKind} {text : String}
    (hmode : mode ≠ .htmlValue)
    (h : next mode (.start (.ofString text)) =
      take kind text.toList.length false (.start (.ofString text))) :
    ReadsAlone mode kind text := by
  -- behind the whole text the scanner stands at its end
  have hadvance : (Scanner.start (.ofString text)).advance text.toList.length =
      Scanner.behind text := by
    show Scanner.mk _ (({} : Position).over _) _ = _
    rw [Scanner.rest_start, List.take_length]
    rfl
  -- what `take` does, as a pair
  have htake : ∀ (s : Scanner) n, take kind n false s =
      (.ok ⟨kind, String.ofList (s.rest.take n), ⟨s.position, (s.advance n).position⟩, false⟩,
        s.advance n) := fun _ _ => rfl
  -- the token is the whole text, and the end follows it
  constructor
  · rw [h, htake, hadvance, Scanner.rest_start, List.take_length, String.ofList_toList]
    rfl
  · have hstay : (Scanner.behind text).advance 0 = Scanner.behind text := by
      simp [Scanner.advance]
    have hend : take .endOfInput 0 false (Scanner.behind text) =
        (.ok ⟨.endOfInput, "", ⟨_, ((Scanner.behind text).advance 0).position⟩, false⟩,
          (Scanner.behind text).advance 0) := rfl
    rw [next_eof hmode (Scanner.rest_behind text), hend, hstay]

/-! ## Strings and numbers -/

/-- A token that is neither a string nor a number. -/
theorem take_measured {kind : TokenKind} {n : Nat} {newline : Bool} (hstring : kind ≠ .string)
    (hnumber : kind ≠ .number) :
    (Course.free Scanner).Leads (take kind n newline) s fun t _ => t.Measured :=
  .of_ok rfl trivial ⟨fun h => absurd h hstring, fun h => absurd h hnumber⟩

/-- Where there is a fault there is no token. -/
theorem fault_measured (cause : ScanFault) (position : Position) :
    (Course.free Scanner).Leads (fault cause position : Scan Token) s fun t _ => t.Measured :=
  .of_error rfl trivial

/-- A string or number of a script is as long as its reach. -/
theorem scriptToken_measured (newline : Bool) :
    (Course.free Scanner).Leads (scriptToken newline) s fun t _ => t.Measured := by
  refine .get_bind ?_
  split
  · exact take_measured (by decide) (by decide)
  rename_i c rest hrest
  refine .ite (fun _ => fault_measured _ _) fun _ => ?_
  refine .ite (fun _ => take_measured (by decide) (by decide)) fun _ => ?_
  -- numbers and strings are measured; all that is left then is of another kind
  refine .ite (fun hstart => ?_) fun _ => .ite (fun hquote => ?_) fun _ => ?_
  · cases hreach : numberReach (c :: rest) with
    | closed n =>
      refine .of_ok rfl trivial
        ⟨by simp, fun _ => ⟨c, rest, n, by simpa using hstart, hreach, ?_⟩⟩
      rw [String.toList_ofList, hrest]
    | broken n cause => exact .of_error rfl trivial
  · cases hreach : stringReach c rest with
    | closed n =>
      have hc : Text.isQuote c = true := isQuote_iff.2 (by simpa [or_comm] using hquote)
      refine .of_ok rfl trivial ⟨fun _ => ⟨c, rest, n, hc, hreach, ?_⟩, by simp⟩
      rw [String.toList_ofList, hrest, Nat.add_comm, List.take_succ_cons]
    | broken n cause => exact .of_error rfl trivial
  refine .ite (fun _ => take_measured (by decide) (by decide)) fun _ => ?_
  refine .ite (fun _ => take_measured (by decide) (by decide)) fun _ => ?_
  split
  · exact take_measured (by decide) (by decide)
  · exact fault_measured _ _

/-- A value in quotes is no string of a script. -/
theorem nextQuoted_measured (quote : Char) :
    (Course.free Scanner).Leads (nextQuoted quote) s fun t _ => t.Measured := by
  refine .get_bind ?_
  split
  · exact take_measured (by decide) (by decide)
  · exact .of_error rfl trivial

/-- Nor is any token inside a tag. -/
theorem nextTag_measured (html : Bool) :
    (Course.free Scanner).Leads (nextTag html) s fun t _ => t.Measured := by
  unfold nextTag
  extract_lets part token
  -- what the first character starts, token by token
  have htoken : ∀ u s', (Course.free Scanner).Leads (token u) s' fun t _ => t.Measured := by
    intro u s'
    refine .get_bind ?_
    split
    · exact take_measured (by decide) (by decide)
    refine .ite (fun _ => ?_) fun _ => ?_
    · exact .ite (fun _ => .of_error rfl trivial) fun _ => take_measured (by decide) (by decide)
    refine .ite (fun _ => nextQuoted_measured _) fun _ => ?_
    exact .ite (fun _ => take_measured (by decide) (by decide)) fun _ => fault_measured _ _
  -- the skipping in front of the token reads none
  exact .ite (fun _ => Course.free_bind htoken) fun _ => Course.free_bind htoken

/-- Nor is a value in HTML. -/
theorem nextHtmlValue_measured :
    (Course.free Scanner).Leads nextHtmlValue s fun t _ => t.Measured := by
  refine Course.free_bind fun _ s => .get_bind ?_
  split
  · exact .ite (fun _ => fault_measured _ _) fun _ => take_measured (by decide) (by decide)
  refine .ite (fun _ => nextQuoted_measured _) fun _ => ?_
  refine .ite (fun _ => fault_measured _ _) fun _ => ?_
  -- the quotes that are put around a bare value make no string of it
  exact .of_ok rfl trivial ⟨by simp, by simp⟩

/-- Nor is a comment. -/
theorem nextMarkupComment_measured (ending : List Char) :
    (Course.free Scanner).Leads (nextMarkupComment ending) s fun t _ => t.Measured := by
  refine .get_bind ?_
  split
  · exact take_measured (by decide) (by decide)
  · exact fault_measured _ _

/-- Nor is text between tags. -/
theorem nextChild_measured (html : Bool) :
    (Course.free Scanner).Leads (nextChild html) s fun t _ => t.Measured := by
  refine .get_bind ?_
  split
  · exact take_measured (by decide) (by decide)
  rename_i c rest _
  refine .ite (fun _ => nextMarkupComment_measured _) fun _ => ?_
  refine .ite (fun _ => nextMarkupComment_measured _) fun _ => ?_
  refine .ite (fun _ => take_measured (by decide) (by decide)) fun _ => ?_
  cases textReach html (c :: rest) with
  | closed n => exact take_measured (by decide) (by decide)
  | broken n cause => exact .of_error rfl trivial

/-- In every mode the text of a string or of a number is as long as it was measured. -/
theorem next_measured {mode : ScanMode} {t : Token} {s' : Scanner}
    (h : next mode s = (.ok t, s')) : t.Measured := by
  have hleads : (Course.free Scanner).Leads (next mode) s fun t _ => t.Measured := by
    cases mode with
    | script => exact Course.free_bind fun newline _ => scriptToken_measured newline
    | tag => exact nextTag_measured false
    | child => exact nextChild_measured false
    | htmlTag => exact nextTag_measured true
    | htmlValue => exact nextHtmlValue_measured
    | htmlChild => exact nextChild_measured true
  exact (hleads.ok h).2

end Scan

/-! ## The extent of strings -/

/-- What can stand between two quotes: a backslash and any character behind it, and other characters
but the quote and the line feed. -/
inductive Quoted (quote : Char) : List Char → Prop
  | nil : Quoted quote []
  | char {c : Char} {cs : List Char} (hescape : c ≠ '\\') (hline : c ≠ '\n') (hquote : c ≠ quote)
    (h : Quoted quote cs) : Quoted quote (c :: cs)
  | escape (c : Char) {cs : List Char} (h : Quoted quote cs) : Quoted quote ('\\' :: c :: cs)

variable {quote : Char} {body cs : List Char} {n : Nat}

/-- A string is measured from its content to the quote behind it. -/
theorem Quoted.stringReach (h : Quoted quote body) (hquote : Text.isQuote quote = true)
    (rest : List Char) : stringReach quote (body ++ quote :: rest) = .closed (body.length + 1) := by
  induction h with
  | nil => rcases isQuote_iff.1 hquote with rfl | rfl <;> simp [Reflow.stringReach]
  | @char c cs hescape hline hne h ih =>
    rw [List.cons_append,
      Reflow.stringReach.eq_4 quote c _ (by simp) fun d r hc => absurd hc hescape, if_neg hline,
      if_neg hne, ih, Reach.shift, List.length_cons, Nat.add_comm]
  | escape c h ih =>
    rw [List.cons_append, List.cons_append, Reflow.stringReach, ih, Reach.shift, List.length_cons,
      List.length_cons, Nat.add_comm]

/-- What reaches to an end behind some characters reaches to it from them on. -/
theorem Reach.shift_eq_closed {m : Nat} {reach : Reach} (h : reach.shift m = .closed n) :
    ∃ k, reach = .closed k ∧ n = m + k := by
  cases reach with
  | closed k =>
    cases h
    exact ⟨k, rfl, rfl⟩
  | broken k fault => cases h

/-- What was measured as a string is a content and the quote behind it. -/
theorem quoted_of_stringReach (h : stringReach quote cs = .closed n) :
    ∃ body rest, Quoted quote body ∧ cs = body ++ quote :: rest ∧ n = body.length + 1 := by
  fun_induction stringReach quote cs generalizing n with
  | case1 => cases h
  | case2 => cases h
  | case3 c rest ih =>
    obtain ⟨k, hk, rfl⟩ := Reach.shift_eq_closed h
    obtain ⟨body, after, hbody, rfl, rfl⟩ := ih hk
    exact ⟨'\\' :: c :: body, after, .escape c hbody, rfl, by simp; omega⟩
  | case4 => cases h
  | case5 rest =>
    cases h
    exact ⟨[], rest, .nil, rfl, rfl⟩
  | case6 c rest hlast hescape hline hquote ih =>
    obtain ⟨k, hk, rfl⟩ := Reach.shift_eq_closed h
    obtain ⟨body, after, hbody, rfl, rfl⟩ := ih hk
    -- a backslash would have been read together with the character behind it
    have hplain : c ≠ '\\' := by
      rintro rfl
      cases body with
      | nil => exact hescape quote after rfl rfl
      | cons d body => exact hescape d (body ++ quote :: after) rfl rfl
    exact ⟨c :: body, after, .char hplain hline hquote hbody, rfl, by simp; omega⟩

/-- There is one way only to end a string. -/
theorem Quoted.unique {body' rest rest' : List Char} (hquote : Text.isQuote quote = true)
    (h : Quoted quote body) (h' : Quoted quote body')
    (heq : body ++ quote :: rest = body' ++ quote :: rest') : body = body' ∧ rest = rest' := by
  have hreach := h.stringReach hquote rest
  rw [heq, h'.stringReach hquote rest'] at hreach
  have hlength : body.length = body'.length := by
    have hclosed := Reach.closed.inj hreach
    omega
  obtain ⟨hbody, hrest⟩ := List.append_inj heq hlength
  exact ⟨hbody, (List.cons.inj hrest).2⟩

/-! ## Strings of the scanner -/

/-- A content in quotes is one string. -/
theorem readsAlone_quoted (hquote : Text.isQuote quote = true) (h : Quoted quote body) :
    ReadsAlone .script .string (String.ofList (quote :: body ++ [quote])) := by
  refine Scan.readsAlone_of_take nofun ?_
  have hrest := Scanner.rest_start (String.ofList (quote :: body ++ [quote]))
  rw [String.toList_ofList] at hrest ⊢
  -- the scanner stands for any that has the quoted text before it
  generalize Scanner.start (.ofString (String.ofList (quote :: body ++ [quote]))) = s at hrest ⊢
  obtain ⟨-, -, hname, hdigit, -, -⟩ := quote_first hquote
  have htrivia : triviaOf s.rest = [] := by
    rw [hrest]
    exact triviaOf_of_isQuote hquote _
  have hreach := h.stringReach hquote []
  show Scan.nextScript s = _
  rw [Scan.nextScript_of_trivia htrivia, Scan.scriptToken, Scan.get_bind_apply, hrest,
    List.cons_append]
  -- the two quotes have the same branch of the scanner
  rcases isQuote_iff.1 hquote with rfl | rfl <;>
    simp [hname, hdigit, hreach, Scan.takeReach, Reach.shift, Nat.add_comm]

/-- In every mode a string is a content in quotes. -/
theorem Scan.next_string {mode : ScanMode} {s s' : Scanner} {t : Token}
    (h : Scan.next mode s = (.ok t, s')) (ht : t.kind = .string) :
    ∃ quote body, Text.isQuote quote = true ∧ Quoted quote body ∧
      t.text.toList = quote :: body ++ [quote] := by
  obtain ⟨quote, ahead, n, hquote, hreach, htext⟩ := (Scan.next_measured h).string ht
  obtain ⟨body, rest, hbody, rfl, rfl⟩ := quoted_of_stringReach hreach
  refine ⟨quote, body, hquote, hbody, ?_⟩
  rw [htext, List.take_append, List.take_of_length_le (Nat.le_succ _)]
  simp

end Reflow
