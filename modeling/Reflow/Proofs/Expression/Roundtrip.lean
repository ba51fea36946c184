import Reflow.Grammar.Parse
import Reflow.Proofs.Expression.Arrows
import Reflow.Proofs.Expression.Operands
import Reflow.Proofs.Grammar.Parse

/-!
# Written expressions are read back

The rules read every readable expression, by induction on its number of words and, for one number, from
the rule that binds most tightly to the loosest one.  An expression with the parentheses that it needs
is readable, so what is parsed of it shows it, unless it is nested too deeply.

## Key results

- `parseRule_reads`: with enough depth the rules read all expressions up to a number of words
- `Expression.written`: an expression as a statement, with the parentheses that it needs
- `parse_written`: the only statement that is parsed of it shows the expression, if the stack holds the
  calls
-/

namespace Reflow

namespace Grammar

/-! ## Rules -/

section Rules

variable {bound fuel : Nat} {e : Expression}

/-- Expressions of fewer words are read if the depth is enough for them. -/
def EnoughBelow (bound : Nat) : Prop :=
  ∀ fuel, 8 * bound ≤ fuel → ReadsBelow (parseRule fuel) bound

/-- What a rule reads, it reads when another one calls it. -/
theorem Recognizes.called {parse : Rule → Parse Node} {r : Rule} {limit : Nat}
    {caller : Rule} {before : Nat} (h : Recognizes (parse r) e limit) :
    Recognizes (Grammar.called parse caller before r) e limit := fun _ w ws hs hw =>
  .note hs fun s hs => h s w ws hs hw

/-- To note who calls a rule does not change what it reads. -/
theorem ReadsBelow.called {parse : Rule → Parse Node} (h : ReadsBelow parse bound) (caller : Rule)
    (before : Nat) : ReadsBelow (Grammar.called parse caller before) bound where
  expression e he hlength := (h.expression e he hlength).called
  assignment e he hlength hrank := (h.assignment e he hlength hrank).called
  binary e he hlength tier htier hrank := (h.binary e he hlength tier htier hrank).called
  unary e he hlength hrank := (h.unary e he hlength hrank).called
  callMember e he hlength allowCall hrank := (h.callMember e he hlength allowCall hrank).called

/-- Nor does it change what is tried. -/
theorem Tries.called {parse : Rule → Parse Node} (h : Tries parse bound) (caller : Rule)
    (before : Nat) : Tries (Grammar.called parse caller before) bound where
  bindingTarget _ w ws hs hws hw := .note hs fun s hs => h.bindingTarget s w ws hs hws hw
  assignment e he hlength hrank := (h.assignment e he hlength hrank).called

/-- A rule reads what it reads whatever was taken before. -/
theorem recognizes_rule {r : Rule} {limit : Nat}
    (h : ∀ before, Recognizes (rule (called (parseRule fuel) r before) r) e limit) :
    Recognizes (parseRule (fuel + 1) r) e limit := fun _ w ws hs hw =>
  .look _ rfl (.noteDepth hs fun s hs => h _ s w ws hs hw)

/-- A rule is called with one level less. -/
theorem exists_fuel {n : Nat} (hfuel : n + 1 ≤ fuel) : ∃ f, fuel = f + 1 ∧ n ≤ f :=
  ⟨fuel - 1, by omega, by omega⟩

/-- With depth enough, the rule for accesses and calls reads one. -/
theorem callMember_rule (ih : EnoughBelow bound) (hfuel : 8 * bound + 1 ≤ fuel) (h : e.Readable)
    (hlength : e.words.length ≤ bound) (allowCall : Bool) (hrank : callRank allowCall ≤ e.rank) :
    Recognizes (parseRule fuel (.callMember allowCall)) e (callRank allowCall) := by
  obtain ⟨f, rfl, hf⟩ := exists_fuel hfuel
  exact recognizes_rule fun _ => callMember_reads h hrank ((ih f hf).called _ _) hlength

/-- So does the rule for prefix operators. -/
theorem unary_rule (ih : EnoughBelow bound) (hfuel : 8 * bound + 2 ≤ fuel) (h : e.Readable)
    (hlength : e.words.length ≤ bound) (hrank : 16 ≤ e.rank) :
    Recognizes (parseRule fuel .unary) e 16 := by
  obtain ⟨f, rfl, hf⟩ := exists_fuel hfuel
  -- the rule may call those below it, which read what is shorter
  refine recognizes_rule fun before => ?_
  have hbelow := (ih f (by omega)).called .unary before
  -- the two forms with an operator of their own
  rcases Nat.lt_or_ge e.rank 17 with hlt | hge
  · cases h with
    | unary ha hargument =>
      rw [Expression.words_unary, List.length_cons] at hlength
      exact unary_reads (hbelow.unary _ ha hlength hargument)
    | await ha hargument =>
      rw [Expression.words_await, List.length_cons] at hlength
      exact await_reads (hbelow.unary _ ha hlength hargument)
    | @binary operator =>
      have := Operator.precedence_le operator.text
      simp only [Expression.rank] at hrank
      omega
    | dotted _ hobject | computed _ hobject =>
      simp only [Expression.rank, Target.rank] at hlt
      omega
    | name | group | construct | call => simp [Expression.rank, Target.rank] at hlt
    | conditional | assign | sequence => simp [Expression.rank] at hrank
  · -- any other operand is an access or a call
    exact unary_of_callMember h hge (callMember_rule ih hf h hlength true hge).called

/-- So does the rule for operations. -/
theorem binary_rule (ih : EnoughBelow bound) (hfuel : 8 * bound + 3 ≤ fuel) (h : e.Readable)
    (hlength : e.words.length ≤ bound) {least : Nat} (hleast : least ≤ 13)
    (hrank : 3 + least ≤ e.rank) : Recognizes (parseRule fuel (.binary least)) e (3 + least) := by
  obtain ⟨f, rfl, hf⟩ := exists_fuel hfuel
  exact recognizes_rule fun _ => binary_reads h hleast hrank ((ih f (by omega)).called _ _)
    (fun d hd hlong htight => (unary_rule ih hf hd hlong htight).called) hlength

/-- The rules try to read parameters. -/
theorem tries_rule (ih : EnoughBelow bound) (hfuel : 8 * bound ≤ fuel) :
    Tries (parseRule fuel) bound where
  bindingTarget s w ws hs hws hw := by
    cases fuel with
    | zero => exact .of_error rfl trivial
    | succ f => exact .look _ rfl (.noteDepth hs fun _ hs => bindingTarget_tries hs hws hw)
  assignment := (ih fuel hfuel).assignment

/-- So does the rule for assignments. -/
theorem assignment_rule (ih : EnoughBelow bound) (hfuel : 8 * bound + 4 ≤ fuel) (h : e.Readable)
    (hlength : e.words.length ≤ bound) (hrank : 1 ≤ e.rank) :
    Recognizes (parseRule fuel .assignment) e 1 := by
  obtain ⟨f, rfl, hf⟩ := exists_fuel hfuel
  -- the rule may call those below it, and the arrow function that it tries fails
  refine recognizes_rule fun before => ?_
  have hbelow := (ih f (by omega)).called .assignment before
  have hp := called_builds (parseRule_builds f) .assignment before
  have htries := (tries_rule ih (show 8 * bound ≤ f by omega)).called .assignment before
  -- the two forms with an operator of their own
  rcases Nat.lt_or_ge e.rank 3 with hlt | hge
  · cases h with
    | conditional ht htest hc hconsequent ha halternate =>
      have hlong := hlength
      simp only [Expression.words_conditional, List.length_append, List.length_cons] at hlong
      refine assignment_of_conditional hp htries
        (.conditional ht htest hc hconsequent ha halternate) hlength ?_
      exact conditional_reads (hbelow.binary _ ht (by omega) 0 (by decide) htest)
        (hbelow.assignment _ hc (by omega) hconsequent) (hbelow.assignment _ ha (by omega) halternate)
    | assign ht hv hvalue =>
      have hlong := hlength
      simp only [Expression.words_assign, List.length_append, List.length_cons] at hlong
      have htarget := hbelow.binary _ ht (by rw [Expression.words_target]; omega) 0 (by decide)
        (Nat.le_trans (by decide) ht.le_rank_target)
      exact assignment_reads hp htries (.assign ht hv hvalue) hlength
        (conditional_of_binary htarget) (hbelow.assignment _ hv (by omega) hvalue)
    | @binary operator =>
      simp only [Expression.rank] at hlt
      omega
    | dotted _ hobject | computed _ hobject =>
      simp only [Expression.rank, Target.rank] at hlt
      omega
    | name | group | construct | call | unary | await =>
      simp [Expression.rank, Target.rank] at hlt
    | sequence => simp [Expression.rank] at hrank
  · -- any other expression is an operation at least
    have hbinary := binary_rule ih hf h hlength (Nat.zero_le 13) hge
    exact assignment_of_conditional hp htries h hlength
      ((conditional_of_binary hbinary.called).mono (by decide))

/-- So does the rule for expressions. -/
theorem expression_rule (ih : EnoughBelow bound) (hfuel : 8 * bound + 5 ≤ fuel) (h : e.Readable)
    (hlength : e.words.length ≤ bound) : Recognizes (parseRule fuel .expression) e 0 := by
  obtain ⟨f, rfl, hf⟩ := exists_fuel hfuel
  refine recognizes_rule fun before => ?_
  -- a sequence is longer than each of its expressions
  rcases Nat.eq_zero_or_pos e.rank with hzero | hpos
  · cases h with
    | @sequence first second more hf' hfirst hs hsecond hm hmore =>
      have hbelow := (ih f (by omega)).called .expression before
      simp only [Expression.words_sequence, List.length_append, List.length_cons] at hlength
      refine sequence_reads (List.forall_mem_cons.2 ⟨?_, List.forall_mem_cons.2 ⟨?_, fun d hd => ?_⟩⟩)
      · exact hbelow.assignment _ hf' (by omega) (Nat.le_of_succ_le hfirst)
      · exact hbelow.assignment _ hs (by omega) (Nat.le_of_succ_le hsecond)
      · have := Expression.length_words_lt hd
        exact hbelow.assignment _ (hm d hd) (by omega) (Nat.le_of_succ_le (hmore d hd))
    | dotted _ hobject | computed _ hobject =>
      simp only [Expression.rank, Target.rank] at hzero
      omega
    | _ => simp [Expression.rank, Target.rank] at hzero
  · -- any other expression is an assignment at least
    exact expression_of_assignment (assignment_rule ih hf h hlength hpos).called

/-- With enough depth, the rules read all expressions of fewer words than a bound. -/
theorem parseRule_reads (bound : Nat) : EnoughBelow bound := by
  induction bound with
  | zero => exact fun _ _ => ⟨nofun, nofun, nofun, nofun, nofun⟩
  | succ bound ih =>
    intro fuel hfuel
    have hle : ∀ {n : Nat}, n < bound + 1 → n ≤ bound := Nat.le_of_lt_succ
    exact {
      expression := fun _ h hlength => expression_rule ih (by omega) h (hle hlength)
      assignment := fun _ h hlength => assignment_rule ih (by omega) h (hle hlength)
      binary := fun _ h hlength _ htier => binary_rule ih (by omega) h (hle hlength) htier
      unary := fun _ h hlength => unary_rule ih (by omega) h (hle hlength)
      callMember := fun _ h hlength => callMember_rule ih (by omega) h (hle hlength) }

end Rules

/-! ## Statements and sources -/

section Statements

variable {parse : Rule → Parse Node} {e : Expression} {s : State} {w : Word} {ws : List Word}

/-- A semicolon ends a statement. -/
theorem semicolon_reads (hs : Stands s (.mark ";" :: ws)) (hws : ws ≠ []) :
    Gives TooDeep semicolon s fun _ s' => Stands s' ws :=
  .eat_pos hs hws (by decide) fun _ h1 => .pure h1

/-- The node is a statement of the expression. -/
def States (e : Expression) (statement : Node) : Prop :=
  ∃ n, statement.form = .expressionStatement n ∧ e.Shows n

/-- An expression and a semicolon. -/
theorem expressionStatement_reads {start : Position} (he : Recognizes (parse .expression) e 0)
    (hs : Stands s (e.words ++ .mark ";" :: ws)) (hws : ws ≠ []) :
    Gives TooDeep (expressionStatement parse start) s fun n s' => States e n ∧ Stands s' ws := by
  refine (he s _ _ hs (by decide)).bind fun n s1 ⟨hn, h1⟩ => ?_
  refine (semicolon_reads h1 hws).bind fun _ s2 h2 => ?_
  exact .node h2 fun m s3 hm h3 => ⟨⟨n, hm, hn⟩, h3⟩

/-- A word that an expression starts with starts no other statement. -/
theorem wordStatement_eq {token : Token} {start : Position}
    (h : opensExpression token.text = true) :
    wordStatement parse start token = expressionStatement parse start := by
  have hall : ∀ word ∈ unsupportedWords, opensExpression word = false := by decide
  unfold wordStatement
  split
  all_goals try exact absurd h (by rw [‹token.text = _›]; decide)
  rw [if_neg]
  intro hword
  rw [hall _ (List.contains_iff_mem.1 hword)] at h
  cases h

/-- In front of a word that an expression starts with, a statement is an expression. -/
theorem statement_opens {Q : Node → State → Prop} (hw : opensExpression w.text = true)
    (hs : Stands s (w :: ws)) (hQ : ∀ n s' depth, Q n s' → Q n { s' with depth })
    (hx : ∀ depth start, Gives TooDeep (expressionStatement parse start) { s with depth } Q) :
    Gives TooDeep (statement parse) s Q := by
  -- the words that start another statement are no start of an expression
  refine .deeper (fun _ h => h) (fun depth => .look _ rfl (.look _ rfl ?_)) hQ
  have hnone : ∀ values : List String, values.all (fun text => !opensExpression text) = true →
      isOne s.token values = false := fun values hvalues =>
    (hs.isOne_eq values).trans (Word.isOne_of_text hw hvalues)
  show Gives _ (if isOne s.token _ = true then _ else _) _ _
  rw [hnone _ (by decide), hnone _ (by decide), hnone _ (by decide)]
  -- the word may still be one the statement asks for by its text
  simp only [Bool.false_eq_true, if_false]
  split
  · rw [wordStatement_eq (hs.text_eq ▸ hw)]
    exact hx depth _
  · exact hx depth _

/-- A statement of an expression. -/
theorem statement_reads (h : e.Readable) (he : Recognizes (parse .expression) e 0)
    (hs : Stands s (e.words ++ .mark ";" :: ws)) (hws : ws ≠ []) :
    Gives TooDeep (statement parse) s fun n s' => States e n ∧ Stands s' ws := by
  obtain ⟨v, vs, hwords, hv, -⟩ := h.opens
  have hsv : Stands s (v :: (vs ++ .mark ";" :: ws)) := by rwa [hwords] at hs
  refine statement_opens hv hsv (fun _ _ _ ⟨hn, h1⟩ => ⟨hn, h1.congr rfl rfl rfl⟩)
    fun depth start => ?_
  exact expressionStatement_reads he (hs.congr rfl rfl rfl) hws

/-- So does the rule for statements, behind which a semicolon stands. -/
theorem statement_rule {fuel : Nat} (h : e.Readable)
    (he : Recognizes (parseRule fuel .expression) e 0)
    (hs : Stands s (e.words ++ .mark ";" :: ws)) (hws : ws ≠ []) :
    Gives TooDeep (parseRule (fuel + 1) .statement) s fun n s' => States e n ∧ Stands s' ws :=
  .look _ rfl (.noteDepth hs fun _ hs => statement_reads h he.called hs hws)

/-- Is the parser before the end of the input? -/
theorem not_isAtEnd_gives {F : SourceFault → Prop} (hs : Stands s (w :: ws)) :
    Gives F (return !(← isAtEnd)) s fun go s' => go = (w.kind != .endOfInput) ∧ s' = s :=
  .look (s.token.kind == .endOfInput) rfl (.pure ⟨by rw [hs.kind_eq]; rfl, rfl⟩)

/-- A source of one statement. -/
theorem contents_reads (h : e.Readable) (hkind : ∀ w ∈ e.words, w.kind ≠ .endOfInput)
    (hstatement : ∀ s, Stands s (e.words ++ [.mark ";", .eof]) →
      Gives TooDeep (parse .statement) s fun n s' => States e n ∧ Stands s' [.eof])
    (hs : Stands s (e.words ++ [.mark ";", .eof])) :
    Gives TooDeep (contents false parse) s fun ns _ => ∃ n, ns = [n] ∧ States e n := by
  obtain ⟨v, vs, hwords, -⟩ := h.opens
  have hsv : Stands s (v :: (vs ++ [.mark ";", .eof])) := by rwa [hwords] at hs
  have hv : (v.kind != .endOfInput) = true := bne_iff_ne.2 (hkind v (by rw [hwords]; simp))
  -- the contents have one statement, and the end behind it
  refine .look _ rfl (.look _ rfl ((not_isAtEnd_gives hsv).bind ?_))
  rintro go _ ⟨hgo, rfl⟩
  rw [hv] at hgo
  rw [hgo]
  refine .bind (P := fun r s' => r.2 = true ∧ States e r.1 ∧ Stands s' [.eof])
    ((hstatement _ hs).bind fun n s1 h1 => .pure ⟨rfl, h1⟩) ?_
  rintro ⟨n, _⟩ s1 ⟨rfl, hn, h1⟩
  refine .note h1 fun s2 h2 => ?_
  -- the end stops the reading
  refine .bind (P := fun ns _ => ns = []) (.look _ rfl ((not_isAtEnd_gives h2).bind ?_)) ?_
  · rintro _ _ ⟨rfl, rfl⟩
    exact .pure rfl
  · rintro _ _ rfl
    exact .pure ⟨n, rfl, hn⟩

end Statements

end Grammar

/-! ## Written expressions -/

/-- The source of a text has its characters. -/
theorem Source.chars_ofString (s : String) : (Source.ofString s).chars = s.toList := rfl

namespace Expression

/-- The path of an expression that is the only statement of a program. -/
def path (e : Expression) : Path :=
  let statement := Node.ofForm (.expressionStatement e.tree)
  ((Path.ofRoot (.ofForm (.program [statement]))).item .body 0 statement).child .expression e.tree

/-- The text of an expression as a statement: on one line, with exactly the parentheses that the
printer puts. -/
def written (e : Expression) : String :=
  String.ofList (charsOf ((e.path.grouped (e.dressed e.path)).items ++ [.mark ";"]))

/-- The characters that are written are those of the words of the statement. -/
theorem chars_written (e : Expression) : (Source.ofString e.written).chars =
    charsOf ((e.path.grouped (e.dressed e.path)).items ++ [.mark ";"]) := by
  rw [Source.chars_ofString, written, String.toList_ofList]

/-- A readable expression and a semicolon are spelled. -/
theorem Readable.spelled_statement {e : Expression} (h : e.Readable) :
    spelled (e.items ++ [.mark ";"]) = true :=
  h.spelled_append (.bracket (by decide) rfl)

/-- No word of a readable expression is the end of the input. -/
theorem Readable.kind_ne {e : Expression} (h : e.Readable) :
    ∀ w ∈ e.words, w.kind ≠ .endOfInput := fun w hw =>
  kind_ne_of_spelled h.spelled_statement w (by rw [wordsOf_append]; exact List.mem_append_left _ hw)

end Expression

open Grammar

/-- A source of a readable expression and a semicolon holds the words of a statement. -/
theorem yields_statement {e : Expression} (h : e.Readable) {source : Source}
    (hsource : source.chars = charsOf (e.items ++ [.mark ";"])) :
    Yields (.start source) (e.words ++ [.mark ";", .eof]) ∧ e.words.length < source.size := by
  have hwords : wordsOf (e.items ++ [.mark ";"]) = e.words ++ [.mark ";"] := by
    simp [Expression.words, Item.mark]
  have hrest : (Scanner.start source).rest = charsOf (e.items ++ [.mark ";"]) :=
    (source.suffix_eq 0).trans hsource
  constructor
  · have hyields := yields_of_spelled h.spelled_statement hrest
    rwa [hwords, List.append_assoc] at hyields
  · have hlength := length_wordsOf_le h.spelled_statement
    rwa [hwords, List.length_append, ← hsource, ← source.size_eq] at hlength

/-- What is parsed of a source is what is read of its contents behind the first token. -/
theorem root_gives {source : Source} {token : Token} {scanner : Scanner} {Q : List Node → Prop}
    (hnext : Scan.nextScript (.start source) = (.ok token, scanner))
    (hcontents : Gives TooDeep (contents false (parseRule (fuelFor source))) { scanner, token }
      fun ns _ => Q ns) :
    Gives TooDeep (root false) { scanner := .start source } fun n _ =>
      ∃ ns, n.form = .program ns ∧ Q ns := by
  -- the first token is read from the start of the source
  have hscan : scan (Scan.next .script) { scanner := .start source } = (.ok token, { scanner }) := by
    rw [scan_apply]
    show ((Scan.nextScript (.start source)).1, _) = _
    rw [hnext]
    exact congrArg (Prod.mk _) (congrArg (fun scanner => ({ scanner } : State))
      (congrArg Prod.snd hnext))
  refine .bind (P := fun t s' => t = token ∧ s' = { scanner }) (.of_ok hscan ⟨rfl, rfl⟩) ?_
  rintro t _ ⟨ht, rfl⟩
  subst t
  refine .bind (P := fun _ s' => s' = { scanner, token }) (.of_ok rfl rfl) ?_
  rintro _ _ rfl
  refine .look _ rfl ?_
  -- the fuel is that of the source
  have hsource : scanner.source = source := Scan.nextScript_source hnext
  show Gives _ (contents false (parseRule (fuelFor scanner.source)) >>= _) _ _
  rw [hsource]
  refine hcontents.bind fun ns s1 hns => .look _ rfl ?_
  refine .bind (P := fun n _ => n.form = .program ns) (.of_ok rfl rfl) fun n s2 hn => ?_
  -- the tree may be too deep, which is the fault that is allowed
  split
  · exact .of_error rfl ⟨_, rfl⟩
  · exact .pure ⟨ns, hn, hns⟩

/-- What is parsed of a readable expression and a semicolon. -/
theorem root_reads {e : Expression} (h : e.Readable) {source : Source}
    (hsource : source.chars = charsOf (e.items ++ [.mark ";"])) :
    Gives TooDeep (root false) { scanner := .start source } fun n _ =>
      ∃ statement, n.form = .program [statement] ∧ States e statement := by
  obtain ⟨hyields, hlength⟩ := yields_statement h hsource
  -- the first word is read as the first token
  obtain ⟨v, vs, hwords, -⟩ := h.opens
  have hyields' := hyields
  rw [hwords] at hyields'
  obtain ⟨token, scanner, hnext, rfl, hrest⟩ := hyields'
  -- there is a word for each of at most as many characters
  have hroom : (vs ++ [Word.mark ";", Word.eof]).length ≤ source.size := by
    rw [hwords, List.length_cons] at hlength
    simp
    omega
  have hs : Stands { scanner, token } (e.words ++ [.mark ";", .eof]) := by
    rw [hwords]
    exact .start hnext hrest hroom
  -- the fuel is enough for the statement
  have hfuel : 8 * (e.words.length + 1) + 1 ≤ fuelFor source := by
    rw [fuelFor]
    omega
  obtain ⟨fuel, hf, hfuel⟩ := exists_fuel hfuel
  have hread := (parseRule_reads (e.words.length + 1) fuel hfuel).expression e h (Nat.lt_succ_self _)
  have hcontents : Gives TooDeep (contents false (parseRule (fuelFor source))) { scanner, token }
      fun ns _ => ∃ statement, ns = [statement] ∧ States e statement := by
    rw [hf]
    exact contents_reads h h.kind_ne (fun s1 h1 => statement_rule h hread h1 (by simp)) hs
  refine (root_gives hnext hcontents).mono (fun _ h => h) ?_
  rintro n _ ⟨_, hn, statement, rfl, hstatement⟩
  exact ⟨statement, hn, hstatement⟩

/-- What is parsed of a written expression is one statement that shows the expression, unless the
expression is nested too deeply. -/
theorem parse_dressed (e : Expression) :
    match parse (.ofString e.written) false with
    | .ok parsed => ∃ statement n, parsed.root.form = .program [statement] ∧
        statement.form = .expressionStatement n ∧ e.Shows n
    | .error fault => ∃ span, fault = .grammar .nestedTooDeeply span := by
  -- what is written is readable, with the parentheses its place asks for
  have h : (e.path.grouped (e.dressed e.path)).Readable :=
    Path.readable_grouped (e.dressed_readable e.path rfl)
  -- the root is the program of the statement, or the parser gave up
  have hroot := root_reads h e.chars_written
  rw [parse]
  rcases hr : root false { scanner := .start (.ofString e.written) } with ⟨fault | n, s⟩
  · exact hroot.error hr
  · obtain ⟨statement, hn, m, hstatement, hm⟩ := hroot.ok hr
    exact ⟨statement, m, hn, hstatement, Expression.shows_of_dressed (Path.shows_of_grouped hm)⟩

/-- A written expression is parsed as one statement that shows it, or rejected because it is nested too
deeply, if the stack holds the calls.  How many these are is not bounded: `await`, `new` and powers
take one more for each. -/
theorem parse_written (e : Expression) (stack : Nat) :
    match parseOn stack (.ofString e.written) false with
    | some (.ok parsed) => ∃ statement n, parsed.root.form = .program [statement] ∧
        statement.form = .expressionStatement n ∧ e.Shows n
    | some (.error fault) => ∃ span, fault = .grammar .nestedTooDeeply span
    | none => stack < callsOf (.ofString e.written) false := by
  have hparse := parse_dressed e
  -- the fault that stands for the stack is not among those
  have hends : ∀ span, parse (.ofString e.written) false ≠ .error (.grammar .exhausted span) := by
    intro span h
    rw [h] at hparse
    obtain ⟨_, heq⟩ := hparse
    cases heq
  -- on a stack the parser answers as without one, if the stack is enough
  rw [parseOn_eq hends]
  by_cases hcalls : callsOf (.ofString e.written) false ≤ stack
  · rw [if_pos hcalls]
    cases h : parse (.ofString e.written) false with
    | error fault => simpa only [h] using hparse
    | ok parsed => simpa only [h] using hparse
  · rw [if_neg hcalls]
    exact Nat.lt_of_not_le hcalls

end Reflow
