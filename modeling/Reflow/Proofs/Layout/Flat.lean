import Reflow.Proofs.Doc.Pieces
import Reflow.Proofs.Layout.Width

/-!
# One-line forms

The engine prints the pieces of its commands and nothing else in two cases: if all of them are flat
and have room, and if no part of them looks at how the lines around it are laid out.  The first is
so for a document in a group on a line that is long enough, the second for the document without its
lines, on any line.  Both have the same pieces.

## Key results

- `fits_of_room`: flat commands fit where there is room for all their pieces
- `step_advances`, `run_writes`: a step, and a whole run, print the pieces
- `render_removeLines`: the statement about documents
-/

namespace Reflow.Layout

open Doc (Piece)

/-! ## Printing pieces -/

section Writes

variable (margin : Indentation → Margin)

/-- Pieces still to be printed, and those of deferred parts, the last one first, lead from one
output to another. -/
inductive Writes : List Piece → List (List Piece) → List Chunk → List Chunk → Prop
  | done (output : List Chunk) : Writes [] [] output output
  /-- Deferred parts come at the end. -/
  | flush {waiting : List (List Piece)} {output result : List Chunk} (hw : waiting ≠ [])
    (h : Writes waiting.reverse.flatten [] output result) : Writes [] waiting output result
  | text {s : String} {todo : List Piece} {waiting : List (List Piece)}
    {output result : List Chunk} (h : Writes todo waiting (.text s :: output) result) :
    Writes (.text s :: todo) waiting output result
  | cursor {todo : List Piece} {waiting : List (List Piece)} {output result : List Chunk}
    (h : Writes todo waiting (.cursor :: output) result) :
    Writes (.cursor :: todo) waiting output result
  | deferred {pieces todo : List Piece} {waiting : List (List Piece)}
    {output result : List Chunk} (h : Writes todo (pieces :: waiting) output result) :
    Writes (.deferred pieces :: todo) waiting output result
  /-- A boundary without deferred parts in front of it prints nothing. -/
  | pass {i : Indentation} {todo : List Piece} {output result : List Chunk}
    (h : Writes todo [] output result) : Writes (.boundary i :: todo) [] output result
  | boundary {i : Indentation} {todo : List Piece} {waiting : List (List Piece)}
    {output result : List Chunk} (hw : waiting ≠ [])
    (h : Writes (.lineEnd i :: todo) waiting output result) :
    Writes (.boundary i :: todo) waiting output result
  | lineEnd {i : Indentation} {todo : List Piece} {output result : List Chunk}
    (h : Writes todo [] (.text ("\n" ++ (margin i).text) :: trimOutput output) result) :
    Writes (.lineEnd i :: todo) [] output result
  /-- Deferred parts come before the line ends. -/
  | flushLine {i : Indentation} {todo : List Piece} {waiting : List (List Piece)}
    {output result : List Chunk} (hw : waiting ≠ [])
    (h : Writes (waiting.reverse.flatten ++ .lineEnd i :: todo) [] output result) :
    Writes (.lineEnd i :: todo) waiting output result

variable {margin}

/-- What pieces lead to is determined. -/
theorem Writes.unique {todo : List Piece} {waiting : List (List Piece)}
    {output a b : List Chunk} (h : Writes margin todo waiting output a)
    (h' : Writes margin todo waiting output b) : a = b := by
  -- induction on how the first output is written, where each piece has but one rule
  induction h with
  | done =>
    cases h' with
    | done => rfl
    -- a flush needs something that waits
    | flush hw => exact absurd rfl hw
  | flush hw _ ih =>
    cases h' with
    | done => exact absurd rfl hw
    | flush _ h' => exact ih h'
  | text _ ih | cursor _ ih | deferred _ ih =>
    cases h' with
    | _ h' => exact ih h'
  | pass _ ih =>
    cases h' with
    | pass h' => exact ih h'
    -- a boundary is passed when nothing waits, and breaks the line when something does
    | boundary hw => exact absurd rfl hw
  | boundary hw _ ih =>
    cases h' with
    | pass => exact absurd rfl hw
    | boundary _ h' => exact ih h'
  | lineEnd _ ih =>
    cases h' with
    | lineEnd h' => exact ih h'
    -- a line end that flushes needs something that waits
    | flushLine hw => exact absurd rfl hw
  | flushLine hw _ ih =>
    cases h' with
    | lineEnd => exact absurd rfl hw
    | flushLine _ h' => exact ih h'

end Writes

/-! ## Room -/

/-- The columns of characters, none of them counted as negative. -/
def charsReach (tabWidth : Int) : List Char → Nat
  | [] => 0
  | c :: cs => (Text.charColumns tabWidth c).natAbs + charsReach tabWidth cs

mutual
/-- A bound on the columns that a piece takes. -/
def pieceReach (settings : Settings) : Piece → Nat
  | .text s => charsReach settings.tabWidth s.toList
  | .cursor => 0
  | .lineEnd i | .boundary i => (i.margin settings).columns.natAbs
  | .deferred pieces => reach settings pieces

/-- A bound on the columns that pieces take together, on whatever lines they stand. -/
def reach (settings : Settings) : List Piece → Nat
  | [] => 0
  | piece :: rest => pieceReach settings piece + reach settings rest
end

section Reach

variable {tabWidth : Int} {settings : Settings}

@[simp] theorem reach_append (a b : List Piece) :
    reach settings (a ++ b) = reach settings a + reach settings b := by
  induction a with
  | nil => simp [reach]
  | cons piece a ih => simp [reach, ih, Nat.add_assoc]

variable (tabWidth) in
/-- Characters are no wider than they reach. -/
theorem natAbs_charsColumns_le (cs : List Char) :
    (Text.charsColumns tabWidth cs).natAbs ≤ charsReach tabWidth cs := by
  induction cs with
  | nil => simp [Text.charsColumns]
  | cons c cs ih =>
    simp only [Text.charsColumns, charsReach] at ih ⊢
    omega

variable (tabWidth) in
/-- A part of a text takes no more than the text. -/
theorem charsReach_le {a b : List Char} (h : a.Sublist b) :
    charsReach tabWidth a ≤ charsReach tabWidth b := by
  induction h with
  | slnil => exact Nat.le_refl _
  | cons c _ ih | cons_cons c _ ih =>
    simp only [charsReach]
    omega

/-- The column behind a text is no further than the text reaches. -/
theorem natAbs_columnAfter_le (column : Int) (s : String) :
    (columnAfter tabWidth column s).natAbs ≤ column.natAbs + charsReach tabWidth s.toList := by
  have hline : (s.toList.reverse.takeWhile (· != '\n')).reverse.Sublist s.toList := by
    have hsub := (List.takeWhile_sublist (fun c => c != '\n') (l := s.toList.reverse)).reverse
    rwa [List.reverse_reverse] at hsub
  have hcolumns := natAbs_charsColumns_le tabWidth
    (s.toList.reverse.takeWhile (· != '\n')).reverse
  have hreach := charsReach_le tabWidth hline
  unfold columnAfter
  dsimp only
  split <;> omega

/-- The pieces of a text reach as far as its characters. -/
theorem reach_textPieces (s : String) :
    reach settings (Doc.textPieces s) = charsReach settings.tabWidth s.toList := by
  unfold Doc.textPieces
  split
  · rename_i hs
    simp [hs, reach, charsReach]
  · simp [reach, pieceReach]

/-- What waits reaches as far in either order. -/
theorem reach_flatten_reverse (waiting : List (List Piece)) :
    reach settings waiting.reverse.flatten = reach settings waiting.flatten := by
  induction waiting with
  | nil => rfl
  | cons pieces waiting ih => simp [ih, Nat.add_comm]

variable (settings) in
/-- A space reaches one column. -/
theorem reach_space : reach settings [.text " "] = 1 := by
  have hspace : Text.charsColumns settings.tabWidth [' '] = 1 := columns_space settings.tabWidth
  have hchar : Text.charColumns settings.tabWidth ' ' = 1 := by
    simpa [Text.charsColumns] using hspace
  simp [reach, pieceReach, charsReach, hchar]

end Reach

/-! ## Commands -/

/-- The pieces of a command. -/
def Command.pieces (c : Command) : List Piece := c.doc.pieces c.indentation

/-- The pieces of a stack of commands. -/
def piecesOf (cs : List Command) : List Piece := cs.flatMap Command.pieces

@[simp] theorem piecesOf_nil : piecesOf [] = [] := rfl

@[simp] theorem piecesOf_cons (c : Command) (cs : List Command) :
    piecesOf (c :: cs) = c.pieces ++ piecesOf cs := rfl

@[simp] theorem piecesOf_append (a b : List Command) :
    piecesOf (a ++ b) = piecesOf a ++ piecesOf b := by
  simp [piecesOf]

/-- Commands for the parts of a sequence have its pieces. -/
theorem piecesOf_parts (i : Indentation) (mode : Mode) (parts : List Doc) :
    piecesOf (parts.map fun d => ⟨i, mode, d⟩) = Doc.piecesAll i parts := by
  induction parts with
  | nil => rfl
  | cons d parts ih => simp [Doc.piecesAll, Command.pieces, ih]

/-- A command about which nothing is to be decided: if it is `roomy`, because it is flat and has
room, and otherwise because it is the same flat and broken. -/
structure Command.Decided (roomy : Bool) (c : Command) : Prop where
  soft : c.doc.every Doc.isSoft = true
  flat : roomy = true → c.mode = .flat
  plain : roomy = false → c.doc.every Doc.isPlain = true

/-- A decided command, or the line end that a boundary has become. -/
def Command.Settled (roomy : Bool) (c : Command) : Prop :=
  c.doc = .line .hard ∨ c.Decided roomy

/-- The parts of a decided command are decided. -/
theorem Command.Decided.child {roomy : Bool} {c : Command} (h : c.Decided roomy) {e : Doc}
    (he : e ∈ c.doc.children) (i : Indentation) {mode : Mode}
    (hmode : roomy = true → mode = .flat) : Command.Decided roomy ⟨i, mode, e⟩ :=
  ⟨Doc.every_child h.soft he, hmode, fun hr => Doc.every_child (h.plain hr) he⟩

/-! ## Measuring -/

section Measuring

variable {settings : Settings} {mustBeFlat : Bool} {p : Probe} {c : Command}

variable (mustBeFlat) in
/-- Measuring a flat command uses up no more than its pieces take. -/
theorem probe_step (hc : c.Settled true) (hp : ∀ d ∈ p.commands, d.Settled true)
    (hroom : (reach settings (c.pieces ++ piecesOf p.commands) : Int) ≤ p.width) :
    p.step settings.tabWidth mustBeFlat c = .known true ∨
      ∃ q, p.step settings.tabWidth mustBeFlat c = .more q ∧ (∀ d ∈ q.commands, d.Settled true) ∧
        (reach settings (piecesOf q.commands) : Int) ≤ q.width := by
  -- a hard line ends the measurement
  rcases hc with hline | hc
  · simp [Probe.step, hline, LineKind.isHard]
  have hmode := hc.flat rfl
  have hself := Doc.every_self hc.soft
  -- parts that are measured in the place of the command
  have hparts : ∀ (i : Indentation) (mode : Mode) (parts : List Doc), mode = .flat →
      (∀ e ∈ parts, e ∈ c.doc.children) → c.pieces = Doc.piecesAll i parts →
      (∀ d ∈ (parts.map fun e => ⟨i, mode, e⟩) ++ p.commands, d.Settled true) ∧
        (reach settings (piecesOf ((parts.map fun e => ⟨i, mode, e⟩) ++ p.commands)) : Int) ≤
          p.width := by
    intro i mode parts hflat hsub hpieces
    refine ⟨fun d hd => ?_, ?_⟩
    · rcases List.mem_append.1 hd with hd | hd
      · obtain ⟨e, he, rfl⟩ := List.mem_map.1 hd
        exact .inr (hc.child (hsub e he) i fun _ => hflat)
      · exact hp d hd
    · rwa [piecesOf_append, piecesOf_parts, ← hpieces]
  -- case by case through what is measured, in the order of the turn
  unfold Probe.step
  split
  case h_1 t hdoc =>
    rw [Command.pieces, hdoc, Doc.pieces, reach_append, reach_textPieces] at hroom
    -- the part up to the line end is not wider than the room
    have hline := charsReach_le settings.tabWidth
      (List.takeWhile_sublist (fun c => c != '\n') (l := t.toList))
    have hcolumns := natAbs_charsColumns_le settings.tabWidth (t.toList.takeWhile (· != '\n'))
    dsimp only
    -- a line end in the text is an answer, a text without one takes its columns from the room
    split
    · refine .inl (congrArg _ (decide_eq_true ?_))
      omega
    · refine .inr ⟨_, rfl, hp, ?_⟩
      dsimp only
      omega
  case h_2 parts hdoc =>
    exact .inr ⟨_, rfl, hparts c.indentation c.mode parts hmode (by simp [hdoc, Doc.children])
      (by simp [Command.pieces, hdoc, Doc.pieces])⟩
  case h_3 parts hdoc =>
    exact .inr ⟨_, rfl, hparts c.indentation c.mode parts hmode (by simp [hdoc, Doc.children])
      (by simp [Command.pieces, hdoc, Doc.pieces])⟩
  case h_4 body hdoc =>
    exact .inr ⟨_, rfl, hparts c.indentation.indent c.mode [body] hmode
      (by simp [hdoc, Doc.children]) (by simp [Command.pieces, hdoc, Doc.pieces, Doc.piecesAll])⟩
  case h_5 amount body hdoc =>
    exact .inr ⟨_, rfl, hparts (c.indentation.align amount) c.mode [body] hmode
      (by simp [hdoc, Doc.children]) (by simp [Command.pieces, hdoc, Doc.pieces, Doc.piecesAll])⟩
  case h_6 body broken hdoc =>
    -- a decided group is not marked broken
    have hbroken : broken = false := by simpa [hdoc, Doc.isSoft] using hself
    subst hbroken
    rw [Bool.and_false, if_neg Bool.false_ne_true]
    exact .inr ⟨_, rfl, hparts c.indentation c.mode [body] hmode
      (by simp [hdoc, Doc.children]) (by simp [Command.pieces, hdoc, Doc.pieces, Doc.piecesAll])⟩
  case h_7 hdoc => simp [hdoc, Doc.isSoft] at hself
  case h_8 broken flat hdoc =>
    rw [if_neg (by simp [hmode])]
    exact .inr ⟨_, rfl, hparts c.indentation c.mode [flat] hmode
      (by simp [hdoc, Doc.children]) (by simp [Command.pieces, hdoc, Doc.pieces, Doc.piecesAll])⟩
  -- a blank takes its column, a soft line takes none
  case h_9 kind hdoc =>
    have hkind : kind.isHard = false := by simpa [hdoc, Doc.isSoft] using hself
    rw [if_neg (by simp [hmode, hkind])]
    refine .inr ⟨_, rfl, hp, ?_⟩
    rw [reach_append] at hroom
    cases kind with
    | space =>
      have hpieces : c.pieces = [.text " "] := by rw [Command.pieces, hdoc, Doc.pieces]
      rw [hpieces, reach_space] at hroom
      rw [if_neg (by decide)]
      dsimp only
      omega
    | soft =>
      rw [if_pos rfl]
      dsimp only
      omega
    | hard | literal => cases hkind
  case h_10 hdoc =>
    refine .inr ⟨_, rfl, hp, ?_⟩
    rw [reach_append] at hroom
    dsimp only
    omega
  case h_11 hdoc =>
    -- the boundary is an answer when something waits for it
    rw [reach_append] at hroom
    split
    · exact .inl rfl
    · refine .inr ⟨_, rfl, hp, ?_⟩
      omega
  case h_12 hdoc => simp [hdoc, Doc.isSoft] at hself
  case h_13 hdoc =>
    refine .inr ⟨_, rfl, hp, ?_⟩
    rw [reach_append] at hroom
    omega

/-- Flat commands fit where there is room for all their pieces. -/
theorem fits_of_room (settings : Settings) (mustBeFlat : Bool) (p : Probe)
    (hp : ∀ d ∈ p.commands, d.Settled true)
    (hroom : (reach settings (piecesOf p.commands) : Int) ≤ p.width) :
    p.fits settings.tabWidth mustBeFlat = true := by
  -- induction along the measurement, whose room stays as wide as what is left
  fun_induction Probe.fits settings.tabWidth mustBeFlat p with
  -- without room nothing is left to print
  | case1 p hwidth => omega
  | case2 => rfl
  -- an answer that is known can only be yes
  | case3 p hwidth c rest hc answer hknown =>
    rw [hc] at hp hroom
    obtain ⟨hfirst, hrest⟩ := List.forall_mem_cons.1 hp
    rcases probe_step mustBeFlat (p := { p with commands := rest }) hfirst hrest hroom with
      h | ⟨q, h, -⟩
    · rw [hknown] at h
      cases h
      rfl
    · rw [hknown] at h
      cases h
  -- another turn goes on with the parts and the room of `probe_step`
  | case4 p hwidth c rest hc q hmore ih =>
    rw [hc] at hp hroom
    obtain ⟨hfirst, hrest⟩ := List.forall_mem_cons.1 hp
    rcases probe_step mustBeFlat (p := { p with commands := rest }) hfirst hrest hroom with
      h | ⟨q', h, hq, hroom'⟩
    · rw [hmore] at h
      cases h
    · rw [hmore] at h
      cases h
      exact ih hq hroom'

end Measuring

/-! ## Printing -/

/-- The pieces that a state is to print. -/
def State.pieces (s : State) : List Piece := piecesOf s.commands

/-- The pieces of the deferred parts, the last one first. -/
def State.waiting (s : State) : List (List Piece) := s.suffixes.map Command.pieces

/-- An output without its empty texts. -/
def solidOutput (output : List Chunk) : List Chunk := output.filter (· ≠ .text "")

/-- A text that is not empty stays in the output. -/
theorem solidOutput_text {x : String} (hx : x ≠ "") (output : List Chunk) :
    solidOutput (.text x :: output) = .text x :: solidOutput output := by
  simp [solidOutput, hx]

/-- Empty texts do not matter to trimming. -/
theorem solidOutput_trimOutput (output : List Chunk) :
    solidOutput (trimOutput output) = trimOutput (solidOutput output) := by
  -- induction on the output, from its last chunk back
  induction output with
  | nil => rfl
  | cons piece output ih =>
    cases piece with
    | cursor => rfl
    | text s =>
      -- an empty text is dropped on both sides
      by_cases hs : s = ""
      · subst hs
        simpa [trimOutput, solidOutput, Text.dropEndWhile] using ih
      · rw [solidOutput_text hs]
        simp only [trimOutput]
        -- blanks alone are trimmed away, and the trimming goes on
        split
        · exact ih
        · -- a text that keeps something has it on both sides
          rename_i hkept
          have hne : String.ofList (Text.dropEndWhile Text.isBlank s.toList) ≠ "" := by
            intro h
            have hnil := congrArg String.toList h
            rw [String.toList_ofList] at hnil
            exact hkept (by simp [hnil])
          rw [solidOutput_text hne]

/-- Without the empty texts the output has the same text. -/
theorem outputText_solidOutput (output : List Chunk) :
    outputText (solidOutput output).reverse = outputText output.reverse := by
  induction output with
  | nil => rfl
  | cons piece output ih =>
    by_cases hpiece : piece = .text ""
    · subst hpiece
      simpa [solidOutput, outputText_append, outputText] using ih
    · have hsolid : solidOutput (piece :: output) = piece :: solidOutput output := by
        simp [solidOutput, hpiece]
      rw [hsolid, List.reverse_cons, List.reverse_cons, outputText_append, outputText_append, ih]

section Printing

variable {settings : Settings} {roomy : Bool} {s t : State} {c : Command} {rest : List Command}

/-- A bound on the columns that a state comes to. -/
def State.reach (settings : Settings) (s : State) : Nat :=
  s.column.natAbs + Layout.reach settings s.pieces + Layout.reach settings s.waiting.flatten

/-- A state about which nothing is to be decided. -/
structure State.Settled (settings : Settings) (roomy : Bool) (s : State) : Prop where
  commands : ∀ c ∈ s.commands, c.Settled roomy
  suffixes : ∀ c ∈ s.suffixes, c.Settled roomy
  room : roomy = true → (s.reach settings : Int) ≤ settings.width

/-- From one state to another nothing but pieces is printed, and nothing is to be decided. -/
structure State.Advances (settings : Settings) (roomy : Bool) (s t : State) : Prop where
  commands : ∀ c ∈ t.commands, c.Settled roomy
  suffixes : ∀ c ∈ t.suffixes, c.Settled roomy
  reach : t.reach settings ≤ s.reach settings
  writes {result : List Chunk} :
    Writes (·.margin settings) t.pieces t.waiting (solidOutput t.output) result →
      Writes (·.margin settings) s.pieces s.waiting (solidOutput s.output) result

/-- The commands below the first one. -/
theorem State.Settled.below (hs : s.Settled settings roomy) (hc : s.commands = c :: rest) :
    ∀ d ∈ rest, d.Settled roomy :=
  fun d hd => hs.commands d (hc ▸ List.mem_cons_of_mem c hd)

/-- The pieces of a state start with those of its first command. -/
theorem State.pieces_of_commands (hc : s.commands = c :: rest) :
    s.pieces = c.pieces ++ piecesOf rest := by
  rw [State.pieces, hc, piecesOf_cons]

/-- A state that advances stays settled. -/
theorem State.Advances.settled (h : s.Advances settings roomy t) (hs : s.Settled settings roomy) :
    t.Settled settings roomy :=
  ⟨h.commands, h.suffixes, fun hr => Int.le_trans (Int.ofNat_le.2 h.reach) (hs.room hr)⟩

/-- A command that is replaced by others with the same pieces. -/
theorem advances_replace (hs : s.Settled settings roomy) (hc : s.commands = c :: rest)
    (cs : List Command) (hcommands : t.commands = cs ++ rest) (hpieces : piecesOf cs = c.pieces)
    (hcs : ∀ d ∈ cs, d.Settled roomy) (hcolumn : t.column = s.column)
    (houtput : t.output = s.output) (hsuffixes : t.suffixes = s.suffixes) :
    s.Advances settings roomy t := by
  -- what is pushed in the place of the command prints what the command prints
  have hsame : t.pieces = s.pieces := by
    rw [State.pieces_of_commands hc, State.pieces, hcommands, piecesOf_append, hpieces]
  have hwaiting : t.waiting = s.waiting := by rw [State.waiting, State.waiting, hsuffixes]
  refine ⟨fun d hd => ?_, fun d hd => hs.suffixes d (hsuffixes ▸ hd), ?_,
    fun h => by rwa [hsame, hwaiting, houtput] at h⟩
  · rw [hcommands] at hd
    rcases List.mem_append.1 hd with hd | hd
    · exact hcs d hd
    · exact hs.below hc d hd
  · -- the line reaches as far as before
    apply Nat.le_of_eq
    rw [State.reach, State.reach, hsame, hwaiting, hcolumn]

/-- A text that is printed. -/
theorem advances_print (hs : s.Settled settings roomy) (hc : s.commands = c :: rest) {x : String}
    {column : Int} (hpieces : c.pieces = Doc.textPieces x)
    (hcolumn : column.natAbs ≤ s.column.natAbs + charsReach settings.tabWidth x.toList) :
    s.Advances settings roomy
      { s with commands := rest, output := .text x :: s.output, column } := by
  -- the text is the first piece that is still to print
  have htodo : s.pieces = Doc.textPieces x ++ piecesOf rest := by
    rw [State.pieces_of_commands hc, hpieces]
  refine ⟨hs.below hc, hs.suffixes, ?_, ?_⟩
  · -- what the text adds to the column it takes from the reach
    simp only [State.reach, htodo, reach_append, reach_textPieces]
    simp only [State.pieces, State.waiting]
    omega
  · intro result h
    change Writes _ (piecesOf rest) s.waiting _ _ at h
    rw [htodo, Doc.textPieces]
    -- an empty text is no piece and no chunk
    by_cases hx : x = ""
    · simpa [hx, solidOutput] using h
    · rw [if_neg hx]
      apply Writes.text
      simpa [solidOutput, hx] using h

/-- A mark is passed over. -/
theorem advances_cursor (hs : s.Settled settings roomy) (hc : s.commands = c :: rest)
    (hdoc : c.doc = .cursor) :
    s.Advances settings roomy { s with commands := rest, output := .cursor :: s.output } := by
  -- the mark is the next piece, and has no width
  have hpieces : s.pieces = .cursor :: piecesOf rest := by
    rw [State.pieces_of_commands hc, Command.pieces, hdoc, Doc.pieces]
    rfl
  refine ⟨hs.below hc, hs.suffixes, ?_, ?_⟩
  · simp only [State.reach, hpieces, Layout.reach, pieceReach]
    simp only [State.pieces, State.waiting]
    omega
  · intro result h
    have hsolid : solidOutput (.cursor :: s.output) = .cursor :: solidOutput s.output := rfl
    change Writes _ (piecesOf rest) s.waiting (solidOutput (.cursor :: s.output)) _ at h
    rw [hsolid] at h
    rw [hpieces]
    exact .cursor h

/-- A part that is deferred. -/
theorem advances_defer (hs : s.Settled settings roomy) (hc : s.commands = c :: rest)
    (hdecided : c.Decided roomy) {body : Doc} (hdoc : c.doc = .lineSuffix body) :
    s.Advances settings roomy
      { s with commands := rest, suffixes := c.on body :: s.suffixes } := by
  -- what is deferred is a piece of its own until a line end comes
  have hpieces : s.pieces = .deferred (c.on body).pieces :: piecesOf rest := by
    rw [State.pieces_of_commands hc, Command.pieces, hdoc, Doc.pieces]
    rfl
  refine ⟨hs.below hc, ?_, ?_, ?_⟩
  · intro d hd
    rcases List.mem_cons.1 hd with rfl | hd
    · exact .inr (hdecided.child (by simp [hdoc, Doc.children]) _ hdecided.flat)
    · exact hs.suffixes d hd
  · simp only [State.reach, hpieces, Layout.reach, pieceReach]
    simp only [State.pieces, State.waiting, List.map_cons, List.flatten_cons, reach_append]
    omega
  · intro result h
    rw [hpieces]
    exact .deferred h

/-- A boundary becomes the end of a line if parts are deferred. -/
theorem advances_boundary (hs : s.Settled settings roomy) (hc : s.commands = c :: rest)
    (hdoc : c.doc = .suffixBoundary) :
    s.Advances settings roomy (if s.suffixes.isEmpty then { s with commands := rest }
      else { s with commands := c.on (.line .hard) :: rest }) := by
  -- the boundary is the next piece, of which what waits decides the rule
  have hpieces : s.pieces = .boundary c.indentation :: piecesOf rest := by
    rw [State.pieces_of_commands hc, Command.pieces, hdoc, Doc.pieces]
    rfl
  by_cases hsuffixes : s.suffixes = []
  · -- nothing waits, and the boundary is passed
    have hwaiting : s.waiting = [] := by rw [State.waiting, hsuffixes, List.map_nil]
    rw [if_pos (by simp [hsuffixes])]
    refine ⟨hs.below hc, hs.suffixes, ?_, ?_⟩
    · simp only [State.reach, hpieces, Layout.reach, pieceReach]
      simp only [State.pieces, State.waiting]
      omega
    · intro result h
      change Writes _ (piecesOf rest) s.waiting (solidOutput s.output) _ at h
      rw [hwaiting] at h
      rw [hpieces, hwaiting]
      exact .pass h
  · -- something waits, and a line break takes the place of the boundary
    rw [if_neg (by simpa using hsuffixes)]
    refine ⟨?_, hs.suffixes, ?_, ?_⟩
    · intro d hd
      rcases List.mem_cons.1 hd with rfl | hd
      · exact .inl rfl
      · exact hs.below hc d hd
    · simp only [State.reach, hpieces, Layout.reach, pieceReach]
      simp [State.pieces, State.waiting, Command.pieces, Command.on, Doc.pieces, Layout.reach,
        pieceReach]
    · intro result h
      rw [hpieces]
      exact .boundary (by simpa [State.waiting] using hsuffixes) h

/-- A line ends behind all deferred parts. -/
theorem advances_lineEnd (hs : s.Settled settings roomy) (hc : s.commands = c :: rest)
    (hline : c.doc = .line .hard) :
    s.Advances settings roomy
      (({ s with commands := rest } : State).breakLine settings c .hard) := by
  have hpieces : c.pieces = [.lineEnd c.indentation] := by rw [Command.pieces, hline, Doc.pieces]
  -- the line end is the next piece
  have htodo : s.pieces = .lineEnd c.indentation :: piecesOf rest := by
    rw [State.pieces_of_commands hc, hpieces]
    rfl
  -- nothing waits, and the line ends here
  by_cases hsuffixes : s.suffixes = []
  · rw [breakLine_ends (s := { s with commands := rest }) hsuffixes, if_neg (by decide),
      if_neg (by decide)]
    refine ⟨hs.below hc, hs.suffixes, ?_, ?_⟩
    · simp only [State.reach, htodo, Layout.reach, pieceReach]
      simp only [State.pieces, State.waiting]
      omega
    · intro result h
      change Writes _ (piecesOf rest) s.waiting
        (solidOutput (.text _ :: trimOutput s.output)) _ at h
      have hwaiting : s.waiting = [] := by rw [State.waiting, hsuffixes, List.map_nil]
      rw [htodo, hwaiting]
      rw [hwaiting] at h
      apply Writes.lineEnd
      have hne : "\n" ++ (c.indentation.margin settings).text ≠ "" := by simp
      rwa [solidOutput_text hne, solidOutput_trimOutput] at h
  · -- something waits, and is put on the stack with the line end behind it
    rw [breakLine_flushes (s := { s with commands := rest }) hsuffixes]
    have hflushed : piecesOf (s.suffixes.reverse ++ c :: rest) =
        s.waiting.reverse.flatten ++ .lineEnd c.indentation :: piecesOf rest := by
      rw [piecesOf_append, piecesOf_cons, hpieces, piecesOf, List.flatMap_def, List.map_reverse]
      rfl
    refine ⟨fun d hd => ?_, by simp, ?_, ?_⟩
    · rcases List.mem_append.1 hd with hd | hd
      · exact hs.suffixes d (List.mem_reverse.1 hd)
      · exact hs.commands d (hc ▸ hd)
    · simp only [State.reach, htodo]
      simp only [State.pieces, State.waiting, hflushed, reach_append, reach_flatten_reverse]
      simp [Layout.reach]
      omega
    · intro result h
      change Writes _ (piecesOf (s.suffixes.reverse ++ c :: rest)) [] (solidOutput s.output) _ at h
      rw [hflushed] at h
      rw [htodo]
      exact .flushLine (by simpa [State.waiting] using hsuffixes) h

/-- Where there is room, flat parts of a command fit, with what is behind them or without it. -/
theorem fits_of_settled (hs : s.Settled settings true) (hc : s.commands = c :: rest)
    (mustBeFlat : Bool) (p : Probe) (hp : ∀ d ∈ p.commands, d.Settled true)
    (hwidth : p.width = settings.width - s.column)
    (hreach : reach settings (piecesOf p.commands) ≤
      reach settings c.pieces + reach settings (piecesOf rest)) :
    p.fits settings.tabWidth mustBeFlat = true := by
  have hroom := hs.room rfl
  simp only [State.reach, State.pieces_of_commands hc, reach_append] at hroom
  apply fits_of_room settings mustBeFlat p hp
  omega

/-- A group becomes a command for its body, which is flat where there is room. -/
theorem groupCommand_settled (hs : s.Settled settings roomy) (hc : s.commands = c :: rest)
    (hdecided : c.Decided roomy) {body : Doc} (hdoc : c.doc = .group body false) :
    ∃ mode, (roomy = true → mode = .flat) ∧
      groupCommand settings { s with commands := rest } c body false = c.as mode body := by
  cases roomy with
  -- outside of the room any mode will do
  | false =>
    unfold groupCommand
    split
    · exact ⟨_, by simp, rfl⟩
    split <;> exact ⟨_, by simp, rfl⟩
  | true =>
    -- with room the body fits as it is measured flat
    refine ⟨.flat, fun _ => rfl, ?_⟩
    have hbody : (c.as .flat body).Settled true :=
      .inr (hdecided.child (by simp [hdoc, Doc.children]) _ fun _ => rfl)
    have hpieces : (c.as .flat body).pieces = c.pieces := by
      simp [Command.pieces, Command.as, hdoc, Doc.pieces]
    have hfits : State.fitsNext settings { s with commands := rest } (c.as .flat body) = true := by
      refine fits_of_settled hs hc false _ ?_ rfl ?_
      · intro d hd
        rcases List.mem_cons.1 hd with rfl | hd
        · exact hbody
        · exact hs.below hc d hd
      · simp [State.probe, hpieces]
    unfold groupCommand
    split
    · rfl
    · rw [if_pos (by simp [hfits])]

/-- The rest of a fill is decided like the fill. -/
theorem Command.Decided.restOfFill {parts more : List Doc} (h : c.Decided roomy)
    (hdoc : c.doc = .fill parts) (hmore : ∀ d ∈ more, d ∈ parts) :
    (c.on (.fill more)).Decided roomy := by
  have hchild : ∀ d ∈ more, d ∈ c.doc.children := by simpa [hdoc, Doc.children] using hmore
  refine ⟨?_, h.flat, fun hr => ?_⟩
  · exact Doc.every_of_children rfl fun d hd => Doc.every_child h.soft (hchild d hd)
  · exact Doc.every_of_children rfl fun d hd => Doc.every_child (h.plain hr) (hchild d hd)

/-- The commands of a fill have its pieces. -/
theorem piecesOf_fillCommands (column : Int) (parts : List Doc) :
    piecesOf (fillCommands settings column c parts) = Doc.piecesAll c.indentation parts := by
  match parts with
  | [] => rfl
  | [d] => simp [fillCommands, Command.pieces, Command.as, Doc.piecesAll]
  | [d, e] => simp [fillCommands, Command.pieces, Command.as, Doc.piecesAll]
  | d :: e :: f :: more =>
    unfold fillCommands
    dsimp only
    split <;> simp [Command.pieces, Command.as, Command.on, Doc.pieces, Doc.piecesAll]

/-- The commands of a fill are decided like the fill. -/
theorem fillCommands_settled (hs : s.Settled settings roomy) (hc : s.commands = c :: rest)
    (hdecided : c.Decided roomy) {parts : List Doc} (hdoc : c.doc = .fill parts) :
    ∀ d ∈ fillCommands settings s.column c parts, d.Settled roomy := by
  have hchild : ∀ e ∈ parts, e ∈ c.doc.children := by simp [hdoc, Doc.children]
  -- where there is room the first parts of a fill fit
  have hfits : ∀ ds more, parts = ds ++ more → roomy = true →
      (fillProbe settings s.column c ds).fits settings.tabWidth true = true := by
    rintro ds more rfl rfl
    refine fits_of_settled hs hc true _ ?_ rfl ?_
    · intro d hd
      obtain ⟨e, he, rfl⟩ := List.mem_map.1 hd
      exact .inr (hdecided.child (hchild e (List.mem_append_left _ he)) _ fun _ => rfl)
    · have hall : c.pieces =
          Doc.piecesAll c.indentation ds ++ Doc.piecesAll c.indentation more := by
        rw [Command.pieces, hdoc, Doc.pieces, Doc.piecesAll_append]
      have hds : piecesOf (ds.map (c.as .flat)) = Doc.piecesAll c.indentation ds :=
        piecesOf_parts c.indentation .flat ds
      simp only [fillProbe, hall, hds, reach_append]
      omega
  have hpart : ∀ e ∈ parts, ∀ mode, (roomy = true → mode = .flat) → (c.as mode e).Settled roomy :=
    fun e he mode hm => .inr (hdecided.child (hchild e he) _ hm)
  obtain _ | ⟨d, _ | ⟨e, _ | ⟨f, more⟩⟩⟩ := parts
  · simp [fillCommands]
  · simp only [fillCommands, List.forall_mem_singleton]
    exact hpart d (by simp) _ fun hr => if_pos (hfits [d] [] rfl hr)
  · simp only [fillCommands, List.forall_mem_cons, List.not_mem_nil, false_implies, implies_true,
      and_true]
    exact ⟨hpart d (by simp) _ fun hr => if_pos (hfits [d] [e] rfl hr),
      hpart e (by simp) _ fun hr => if_pos (hfits [d] [e] rfl hr)⟩
  · have hlast : (c.on (.fill (f :: more))).Settled roomy :=
      .inr (hdecided.restOfFill hdoc fun x hx => List.mem_cons_of_mem _ (List.mem_cons_of_mem _ hx))
    unfold fillCommands
    dsimp only
    split
    · simp only [List.forall_mem_cons, List.not_mem_nil, false_implies, implies_true, and_true]
      exact ⟨hpart d (by simp) _ fun _ => rfl, hpart e (by simp) _ fun _ => rfl, hlast⟩
    · rename_i hpair
      -- the first parts do not fit, so there is not known to be room
      have hr : roomy = false :=
        Bool.eq_false_iff.2 fun hr => hpair (hfits [d, e, f] more rfl hr)
      simp only [List.forall_mem_cons, List.not_mem_nil, false_implies, implies_true, and_true]
      exact ⟨hpart d (by simp) _ (by simp [hr]), hpart e (by simp) _ (by simp [hr]), hlast⟩

/-- A step prints pieces, and leaves nothing to be decided. -/
theorem step_advances (hs : s.Settled settings roomy) (hc : s.commands = c :: rest) :
    s.Advances settings roomy (({ s with commands := rest } : State).step settings c) := by
  -- a hard line is the only command that need not be decided
  rcases hs.commands c (hc ▸ List.mem_cons_self) with hline | hdecided
  · have hstep : ({ s with commands := rest } : State).step settings c =
        ({ s with commands := rest } : State).breakLine settings c .hard := by
      simp [State.step, hline, LineKind.isHard]
    rw [hstep]
    exact advances_lineEnd hs hc hline
  have hself := Doc.every_self hdecided.soft
  have hplain := fun hr => Doc.every_self (hdecided.plain hr)
  -- parts that are printed in the place of the command
  have hparts : ∀ (t : State) (i : Indentation) (mode : Mode) (parts : List Doc),
      t.commands = (parts.map fun e => ⟨i, mode, e⟩) ++ rest → (roomy = true → mode = .flat) →
      (∀ e ∈ parts, e ∈ c.doc.children) → c.pieces = Doc.piecesAll i parts →
      t.column = s.column → t.output = s.output → t.suffixes = s.suffixes →
      s.Advances settings roomy t := by
    intro t i mode parts hcommands hmode hsub hpieces hcolumn houtput hsuffixes
    refine advances_replace hs hc _ hcommands ?_ (fun d hd => ?_) hcolumn houtput hsuffixes
    · rw [piecesOf_parts, hpieces]
    · obtain ⟨e, he, rfl⟩ := List.mem_map.1 hd
      exact .inr (hdecided.child (hsub e he) i hmode)
  -- case by case through what the command is, in the order of the step
  unfold State.step
  split
  case h_1 t hdoc =>
    refine advances_print hs hc (by rw [Command.pieces, hdoc, Doc.pieces]) ?_
    exact natAbs_columnAfter_le _ _
  case h_2 hdoc => exact advances_cursor hs hc hdoc
  case h_3 parts hdoc =>
    exact hparts _ c.indentation c.mode parts rfl hdecided.flat (by simp [hdoc, Doc.children])
      (by rw [Command.pieces, hdoc, Doc.pieces]) rfl rfl rfl
  case h_4 body hdoc =>
    exact hparts _ c.indentation.indent c.mode [body] rfl hdecided.flat
      (by simp [hdoc, Doc.children]) (by simp [Command.pieces, hdoc, Doc.pieces, Doc.piecesAll])
      rfl rfl rfl
  case h_5 amount body hdoc =>
    exact hparts _ (c.indentation.align amount) c.mode [body] rfl hdecided.flat
      (by simp [hdoc, Doc.children]) (by simp [Command.pieces, hdoc, Doc.pieces, Doc.piecesAll])
      rfl rfl rfl
  -- a decided group is not marked, and its body goes on in the mode that is chosen
  case h_6 body broken hdoc =>
    have hbroken : broken = false := by simpa [hdoc, Doc.isSoft] using hself
    subst hbroken
    obtain ⟨mode, hmode, hcommand⟩ := groupCommand_settled hs hc hdecided hdoc
    refine hparts _ c.indentation mode [body] ?_ hmode
      (by simp [hdoc, Doc.children]) (by simp [Command.pieces, hdoc, Doc.pieces, Doc.piecesAll])
      rfl rfl rfl
    rw [hcommand]
    rfl
  case h_7 hdoc => simp [hdoc, Doc.isSoft] at hself
  -- the commands of the fill print what the fill prints
  case h_8 parts hdoc =>
    refine advances_replace hs hc _ rfl ?_ (fillCommands_settled hs hc hdecided hdoc) rfl rfl rfl
    rw [piecesOf_fillCommands, Command.pieces, hdoc, Doc.pieces]
  -- outside of the room there is no branch, and with room the flat one is taken
  case h_9 broken flat hdoc =>
    cases roomy with
    | false => simp [hdoc, Doc.isPlain] at hplain
    | true =>
      rw [if_neg (by simp [hdecided.flat rfl])]
      exact hparts _ c.indentation c.mode [flat] rfl hdecided.flat
        (by simp [hdoc, Doc.children]) (by simp [Command.pieces, hdoc, Doc.pieces, Doc.piecesAll])
        rfl rfl rfl
  case h_10 body hdoc => exact advances_defer hs hc hdecided hdoc
  case h_11 hdoc => exact advances_boundary hs hc hdoc
  -- a soft line is flat where there is room, and there is none elsewhere
  case h_12 kind hdoc =>
    have hkind : kind.isHard = false := by simpa [hdoc, Doc.isSoft] using hself
    cases roomy with
    | false => simp [hdoc, Doc.isPlain] at hplain
    | true =>
      rw [if_pos (by simp [hdecided.flat rfl, hkind])]
      cases kind with
      | space =>
        rw [if_neg (by decide)]
        refine advances_print hs hc (by rw [Command.pieces, hdoc, Doc.pieces]; rfl) ?_
        have hspace : charsReach settings.tabWidth " ".toList = 1 := by
          simpa [Layout.reach, pieceReach] using reach_space settings
        simp only
        omega
      | soft =>
        rw [if_pos rfl]
        refine advances_replace hs hc [] rfl ?_ (by simp) rfl rfl rfl
        rw [Command.pieces, hdoc, Doc.pieces]
        rfl
      | hard | literal => cases hkind
  case h_13 hdoc => simp [hdoc, Doc.isSoft] at hself

/-- The deferred parts that are printed at the end. -/
theorem advances_flush (hs : s.Settled settings roomy) (hc : s.commands = [])
    (hsuffixes : s.suffixes ≠ []) :
    s.Advances settings roomy { s with commands := s.suffixes.reverse, suffixes := [] } := by
  -- nothing is on the stack, so that all that is still to print waits
  have htodo : s.pieces = [] := by rw [State.pieces, hc, piecesOf_nil]
  have hflushed : piecesOf s.suffixes.reverse = s.waiting.reverse.flatten := by
    rw [State.waiting, ← List.map_reverse, piecesOf, List.flatMap_def]
  refine ⟨fun d hd => hs.suffixes d (List.mem_reverse.1 hd), by simp, ?_, ?_⟩
  · simp only [State.reach, htodo]
    simp only [State.pieces, State.waiting, hflushed, reach_flatten_reverse]
    simp [Layout.reach]
  · intro result h
    change Writes _ (piecesOf s.suffixes.reverse) [] (solidOutput s.output) _ at h
    rw [hflushed] at h
    rw [htodo]
    exact .flush (by simpa [State.waiting] using hsuffixes) h

variable (settings) in
/-- A run prints all the pieces. -/
theorem run_writes (s : State) (hs : s.Settled settings roomy) :
    Writes (·.margin settings) s.pieces s.waiting (solidOutput s.output)
      (solidOutput (s.run settings).output) := by
  -- induction along the run
  fun_induction State.run settings s with
  -- what the rest of the run writes is what the state writes after the step
  | case1 s c rest hc ih =>
    have hstep := step_advances hs hc
    exact hstep.writes (ih (hstep.settled hs))
  -- nothing is left to write
  | case2 s hc hsuffixes =>
    have htodo : s.pieces = [] := by rw [State.pieces, hc, piecesOf_nil]
    have hwaiting : s.waiting = [] := by
      rw [State.waiting, List.isEmpty_iff.1 hsuffixes, List.map_nil]
    rw [htodo, hwaiting]
    exact .done _
  -- what waits is written as the rest of the run
  | case3 s hc hsuffixes ih =>
    rw [List.unattach_reverse, List.unattach_attach] at ih
    have hstep := advances_flush hs hc (by simpa using hsuffixes)
    exact hstep.writes (ih (hstep.settled hs))

end Printing

/-! ## Documents -/

section Documents

variable {settings : Settings} {d : Doc}

mutual
/-- The width does not count for the bound of a piece. -/
theorem pieceReach_width (settings : Settings) (w : Int) (piece : Piece) :
    pieceReach { settings with width := w } piece = pieceReach settings piece := by
  match piece with
  | .text _ | .cursor | .lineEnd _ | .boundary _ => rfl
  | .deferred pieces => exact reach_width settings w pieces

/-- `pieceReach_width` for several pieces. -/
theorem reach_width (settings : Settings) (w : Int) (pieces : List Piece) :
    reach { settings with width := w } pieces = reach settings pieces := by
  match pieces with
  | [] => rfl
  | piece :: rest => rw [reach, reach, pieceReach_width, reach_width]
end

/-- A document without lines prints its pieces, whatever the width. -/
theorem chunks_of_isPlain (settings : Settings) (h : d.every Doc.isPlain = true) :
    Writes (·.margin settings) (d.pieces {}) [] [] (solidOutput (chunks settings d).reverse) := by
  have hsoft := Doc.every_mono Doc.isSoft_of_isPlain h
  -- no group is marked, and the run starts with the document itself
  have hstart : State.start d = { commands := [⟨{}, .broken, d⟩] } := by
    rw [State.start, Doc.breakGroups_of_willBreak ((Doc.every_isSoft d).1 hsoft).1]
  have hsettled : (State.start d).Settled settings false := by
    rw [hstart]
    refine ⟨fun c hc => ?_, by simp, by simp⟩
    rw [List.mem_singleton.1 hc]
    exact .inr ⟨hsoft, by simp, fun _ => h⟩
  -- without room no mode is asked for, because a plain document has no choice
  have hwrites := run_writes settings _ hsettled
  rw [chunks, List.reverse_reverse]
  rw [hstart] at hwrites ⊢
  simpa [State.pieces, State.waiting, Command.pieces, solidOutput] using hwrites

/-- A group prints the pieces of its body where there is room for them. -/
theorem chunks_grouped (settings : Settings) (h : d.every Doc.isSoft = true)
    (hroom : (reach settings (d.pieces {}) : Int) ≤ settings.width) :
    Writes (·.margin settings) (d.pieces {}) []
      [] (solidOutput (chunks settings d.grouped).reverse) := by
  have hgroup : d.grouped.every Doc.isSoft = true := by
    simpa [Doc.grouped, Doc.every, Doc.isSoft] using h
  have hstart : State.start d.grouped = { commands := [⟨{}, .broken, d.grouped⟩] } := by
    rw [State.start, Doc.breakGroups_of_willBreak ((Doc.every_isSoft _).1 hgroup).1]
  -- the body becomes flat, because it fits
  have hflat : ∀ c ∈ [(⟨{}, .flat, d⟩ : Command)], c.Settled true := by
    intro c hc
    rw [List.mem_singleton.1 hc]
    exact .inr ⟨h, fun _ => rfl, by simp⟩
  have hfits : State.fitsNext settings { commands := [] } ⟨{}, .flat, d⟩ = true := by
    refine fits_of_room settings false _ hflat ?_
    simpa [State.probe, Command.pieces] using hroom
  -- one step makes the group its body, which is flat
  have hstep : ({ commands := [] } : State).step settings ⟨{}, .broken, d.grouped⟩ =
      { commands := [⟨{}, .flat, d⟩] } := by
    have hcommand : groupCommand settings { commands := [] } ⟨{}, .broken, d.grouped⟩ d false =
        ⟨{}, .flat, d⟩ := by
      unfold groupCommand
      rw [if_neg (by simp [State.isSettled])]
      exact if_pos (by simpa [Command.as] using hfits)
    rw [State.step, Doc.grouped]
    rw [Doc.grouped] at hcommand
    simp only [hcommand]
  have hsettled : ({ commands := [⟨{}, .flat, d⟩] } : State).Settled settings true :=
    ⟨hflat, by simp, fun _ => by
      simpa [State.reach, State.pieces, State.waiting, Command.pieces, reach] using hroom⟩
  -- with room from the start the rest of the run is flat
  have hwrites := run_writes settings _ hsettled
  rw [chunks, List.reverse_reverse, hstart, State.run_cons rfl, hstep]
  simpa [State.pieces, State.waiting, Command.pieces, solidOutput] using hwrites

/-- A document without its lines is laid out, at whatever width, as the document in a group is laid
out on a line that is long enough. -/
theorem render_removeLines (settings : Settings) (d : Doc) (hbreak : d.willBreak = false)
    (hshapes : d.every Doc.hasOneShape = true) :
    ∃ bound : Int, ∀ w W, bound < W →
      render { settings with width := w } d.removeLines =
        render { settings with width := W } d.grouped := by
  have hsoft : d.every Doc.isSoft = true := (Doc.every_isSoft d).2 ⟨hbreak, hshapes⟩
  refine ⟨reach settings (d.pieces {}), fun w W hW => ?_⟩
  have hleft := chunks_of_isPlain { settings with width := w } (Doc.every_removeLines d hsoft)
  have hright := chunks_grouped { settings with width := W } hsoft (by
    rw [reach_width]
    exact Int.le_of_lt hW)
  rw [Doc.pieces_removeLines] at hleft
  -- a margin does not depend on the width
  have hmargin : ∀ v : Int, (fun i : Indentation => i.margin { settings with width := v }) =
      fun i => i.margin settings := fun v => rfl
  rw [hmargin] at hleft hright
  have hsame := hleft.unique hright
  have htext := congrArg (fun output => outputText output.reverse) hsame
  simpa [outputText_solidOutput, render, renderWithCursor] using htext

/-- A fill with a choice, deferred parts, a boundary and an alignment, in a group that breaks on a
short line. -/
theorem render_removeLines_fill :
    let d := Doc.concat [
      .fill [.text "one", .space, .ifBreak (.text "two,") (.text "two"), .softline, .text "three"],
      .lineSuffix (.concat [.text " //", .space, .text "last"]),
      .align (.columns 3) (.concat [.suffixBoundary, .group (.indent (.concat [.space,
        .text "four"])) false])]
    d.willBreak = false ∧ d.every Doc.hasOneShape = true ∧
      ∃ bound : Int, ∀ w W, bound < W →
        render { tabWidth := 4, width := w } d.removeLines =
          render { tabWidth := 4, width := W } d.grouped :=
  ⟨rfl, rfl, render_removeLines { tabWidth := 4 } _ rfl rfl⟩

end Documents

end Reflow.Layout
