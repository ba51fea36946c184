import Reflow.Format.Text
import Reflow.Proofs.Source.Places

/-!
# Faults of a stylesheet lie in the source

The reader keeps the offset of what lies ahead, and reports faults where a statement, a block, a
string or a comment starts that it has seen.  None of these lies behind the end, so their positions
are those of places of the source.  (A string that breaks off behind a backslash ends one character
behind the end; only the starts are claimed here.)

## Key results

- `readPrelude_reports`, `readStatements_reports`: the reader keeps to the source
- `read_fault`: what is wrong with a stylesheet starts at a place of it
- `textToDoc_apply`: what comes of a stylesheet on the stack
-/

namespace Reflow.Stylesheet

variable {α β : Type} {size : Nat}

/-- What lies ahead goes up to the end of a source of a size. -/
def Ahead.UpTo (size : Nat) (a : Ahead) : Prop := a.offset + a.rest.length = size

/-- The offset lies within the source. -/
theorem Ahead.UpTo.offset_le {a : Ahead} (h : a.UpTo size) : a.offset ≤ size := by
  rw [UpTo] at h
  omega

/-- So does that behind characters which are passed over. -/
theorem Ahead.UpTo.drop {a : Ahead} (h : a.UpTo size) {n : Nat} (hn : n ≤ a.rest.length) :
    (a.drop n).UpTo size := by
  rw [UpTo] at h
  show a.offset + n + (a.rest.drop n).length = size
  rw [List.length_drop]
  omega

/-- A result has the property `Q`; a fault does not start behind the end of a source of a size. -/
def Reports (size : Nat) (Q : α → Prop) : Except Fault α → Prop
  | .ok a => Q a
  | .error fault => fault.start ≤ size

/-- Faults of either step start within the source. -/
theorem Reports.bind {x : Except Fault α} {f : α → Except Fault β} {P : α → Prop} {Q : β → Prop}
    (hx : Reports size P x) (hf : ∀ a, P a → Reports size Q (f a)) : Reports size Q (x >>= f) := by
  cases x with
  | error fault => exact hx
  | ok a => exact hf a hx

/-- Where the string or comment starts that the reader is in. -/
def PreludeMode.start? : PreludeMode → Option Nat
  | .plain => none
  | .string _ start _ | .commentOpen start | .comment start _ => some start

/-- Where a statement ends. -/
structure Prelude.EndsIn (size : Nat) (p : Prelude) : Prop where
  upTo : p.ahead.UpTo size
  ending : p.ahead.rest.head? = p.ending

/-- What is behind the character that ends a statement. -/
theorem Prelude.EndsIn.behind {p : Prelude} (h : p.EndsIn size) {c : Char}
    (hc : p.ending = some c) : (p.ahead.drop 1).UpTo size := by
  refine h.upTo.drop ?_
  have hne : p.ahead.rest ≠ [] := by
    intro hnil
    have hend := h.ending
    rw [hnil, hc] at hend
    cases hend
  exact List.length_pos_iff.2 hne

/-- The reader goes up to where a statement ends, or reports the string or comment that it is in. -/
theorem readPrelude_reports {depth : Nat} {mode : PreludeMode} {read cs : List Char} {offset : Nat}
    (hsize : offset + cs.length = size) (hmode : ∀ start ∈ mode.start?, start ≤ size) :
    Reports size (Prelude.EndsIn size) (readPrelude depth mode read offset cs) := by
  -- by induction on the text ahead
  induction cs generalizing depth mode read offset with
  | nil =>
    cases mode with
    | plain => exact ⟨hsize, rfl⟩
    | string quote start escaped => exact hmode start rfl
    | commentOpen start => exact hmode start rfl
    | comment start star => exact hmode start rfl
  | cons c rest ih =>
    rw [List.length_cons] at hsize
    -- a character that is passed over moves the offset on
    have hgo : ∀ {depth : Nat} {mode : PreludeMode}, (∀ start ∈ mode.start?, start ≤ size) →
        Reports size (Prelude.EndsIn size)
          (readPrelude depth mode (c :: read) (offset + 1) rest) :=
      fun hmode => ih (by omega) hmode
    -- what is opened here starts at the offset that the reader has come to
    have hhere : ∀ start ∈ some offset, start ≤ size := by
      rintro _ ⟨⟩
      omega
    cases mode with
    | string quote start escaped =>
      -- a string goes on, ends, or has a fault where it started
      simp only [readPrelude]
      repeat' split
      all_goals first | exact hgo hmode | exact hgo nofun | exact hmode start rfl
    | commentOpen start => exact hgo hmode
    | comment start star =>
      simp only [readPrelude]
      split
      · exact hgo nofun
      · exact hgo hmode
    | plain =>
      -- where the statement ends is where the reader has come to
      have hend : Ahead.UpTo size ⟨offset, c :: rest⟩ := by
        rw [Ahead.UpTo, List.length_cons]
        omega
      simp only [readPrelude]
      repeat' split
      all_goals first | exact hgo hhere | exact hgo nofun | exact ⟨hend, rfl⟩

/-- The fault of a statement without a block starts where the statement does. -/
theorem simpleStatement_reports {start : Nat} (hstart : start ≤ size) (text : List Char)
    (semicolon blank : Bool) :
    Reports size (fun _ => True) (simpleStatement start text semicolon blank) := by
  unfold simpleStatement
  repeat' split
  all_goals first | exact trivial | exact hstart

/-- So does that of one with a block. -/
theorem blockStatement_reports {start : Nat} (hstart : start ≤ size) (text : List Char)
    (block : List Statement) (blank : Bool) :
    Reports size (fun _ => True) (blockStatement start text block blank) := by
  unfold blockStatement
  repeat' split
  all_goals first | exact trivial | exact hstart

/-- A block comment that ends does so before the end of the source. -/
theorem le_of_blockCommentLength? {body : List Char} {n : Nat}
    (h : blockCommentLength? body = some n) : n ≤ body.length := by
  induction body generalizing n with
  | nil => cases h
  | cons c body ih =>
    -- by the cases of the reader of comments
    rw [blockCommentLength?.eq_def] at h
    split at h
    · cases h
    · rename_i heq
      cases heq
      cases h
      simp
    · rename_i heq
      cases heq
      obtain ⟨m, hm, rfl⟩ := Option.map_eq_some_iff.1 h
      have := ih hm
      simpa using this

/-- The reader stops in the source, or reports something that starts in it. -/
theorem readStatements_reports {fuel : Nat} {opened : Option Nat} {read : List Statement}
    {ahead : Ahead} (hahead : ahead.UpTo size) (hopened : ∀ brace ∈ opened, brace ≤ size) :
    Reports size (fun r => r.2.UpTo size) (readStatements fuel opened read ahead) := by
  induction fuel generalizing opened read ahead with
  | zero => exact hahead.offset_le
  | succ fuel ih =>
    have hstart := hahead.drop (List.takeWhile_prefix Text.isSpace).length_le
    unfold readStatements
    simp only
    generalize ahead.drop (ahead.rest.takeWhile Text.isSpace).length = start at hstart ⊢
    split
    next => -- the end of the source
      cases opened with
      | some brace => exact hopened brace rfl
      | none => exact hstart
    next hrest => -- the end of a block
      cases opened with
      | none => exact hstart.offset_le
      | some brace => exact hstart.drop (by simp [hrest])
    next hrest => exact ih (hstart.drop (by simp [hrest])) hopened
    next body hrest => -- a block comment
      split
      next => exact hstart.offset_le
      next n hn =>
        have := le_of_blockCommentLength? hn
        exact ih (hstart.drop (by simp [hrest]; omega)) hopened
    next => -- a comment up to the end of its line
      exact ih (hstart.drop (List.takeWhile_prefix _).length_le) hopened
    next => -- any other statement
      have hplain : ∀ start ∈ PreludeMode.plain.start?, start ≤ size := nofun
      refine (readPrelude_reports hstart hplain).bind fun p hp => ?_
      split
      next hend =>
        have hbrace : ∀ brace ∈ some p.ahead.offset, brace ≤ size := by
          rintro _ ⟨⟩
          exact hp.upTo.offset_le
        refine (ih (hp.behind hend) hbrace).bind fun r hr => ?_
        refine (blockStatement_reports hstart.offset_le _ _ _).bind fun s _ => ?_
        exact ih hr hopened
      next =>
        refine (simpleStatement_reports hstart.offset_le _ _ _).bind fun s _ => ?_
        refine ih ?_ hopened
        split
        next hsemicolon => exact hp.behind (by simpa using hsemicolon)
        next => exact hp.upTo

/-- What is wrong with a stylesheet starts at a place of it. -/
theorem read_fault {source : Source} {fault : SourceFault}
    (h : Stylesheet.read source = .error fault) : source.Locates fault.span.start := by
  have hall : Ahead.UpTo source.size ⟨0, source.chars⟩ := by
    rw [Ahead.UpTo, source.size_eq, Nat.zero_add]
  -- the room that the reader has is more than the source is long
  have hreports : Reports source.size (fun r => r.2.UpTo source.size)
      (readStatements (source.size + 1) none [] ⟨0, source.chars⟩) :=
    readStatements_reports hall nofun
  rw [Stylesheet.read] at h
  split at h
  next => cases h
  -- the fault starts within the source, so that it has a position
  next f hf =>
    rw [hf] at hreports
    cases h
    exact Source.counts_positionAt hreports

/-- On a stack that holds the calls, what is read is what would be read on any. -/
theorem read_of_readOn {stack : Nat} {source : Source}
    {outcome : Except SourceFault (List Statement)} (h : readOn stack source = some outcome) :
    Stylesheet.read source = outcome := by
  unfold readOn at h
  -- a fault is told on any stack
  cases hread : Stylesheet.read source with
  | error fault =>
    rw [hread] at h
    exact Option.some.inj h
  -- statements are given only when the stack is deep enough
  | ok statements =>
    rw [hread] at h
    dsimp only at h
    split at h
    next => exact Option.some.inj h
    next => cases h

/-- The outcome of a stylesheet on the stack: its document, a fault, or none. -/
def outcomeOf (source : Source) : Except FormatFault Doc :=
  match readOn Format.stackSize source with
  | some (.ok statements) => match printOn Format.stackSize statements with
    | some doc => .ok doc
    | none => .error .tooDeep
  | some (.error fault) => .error (.unreadable fault source)
  | none => .error .tooDeep

/-- Printing a stylesheet leaves the notes as they are. -/
theorem stylesheetToDoc_apply (source : Source) (notes : List Note) :
    Format.stylesheetToDoc source notes = (outcomeOf source, notes) := by
  unfold Format.stylesheetToDoc outcomeOf
  rcases readOn Format.stackSize source with _ | _ | statements
  · rfl
  · rfl
  · show Run.ofStack (printOn Format.stackSize statements) notes =
      (match printOn Format.stackSize statements with
        | some doc => .ok doc
        | none => .error .tooDeep, notes)
    cases printOn Format.stackSize statements <;> rfl

/-- The document of a text that is a stylesheet is the one of the stylesheet. -/
theorem textToDoc_apply {options : Options} (hcss : options.parser = .css) (text : String)
    (notes : List Note) :
    Format.textToDoc options text notes =
      (outcomeOf (.ofString text), notes ++ [.readingStylesheet (Source.ofString text).size]) := by
  have hdoc : Format.textToDoc { options with parser := .css } text notes =
      Format.stylesheetToDoc (.ofString text)
        (notes ++ [.readingStylesheet (Source.ofString text).size]) := rfl
  rw [stylesheetToDoc_apply, ← hcss] at hdoc
  exact hdoc

/-- The document of statements, if the stack holds the calls that print them. -/
theorem outcomeOf_ok {source : Source} {statements : List Statement}
    (hread : Stylesheet.read source = .ok statements)
    (hdeep : 3 * depthOf statements ≤ Format.stackSize) :
    outcomeOf source = .ok (print statements) := by
  have hreadOn : readOn Format.stackSize source = some (.ok statements) := by
    rw [readOn, hread]
    exact if_pos (by omega)
  rw [outcomeOf, hreadOn]
  simp only [printOn, if_pos hdeep]

/-- A stylesheet has a document if it can be read, and is unreadable if not, unless the stack does not
hold the calls. -/
theorem outcomeOf_reads (source : Source) :
    match outcomeOf source with
    | .ok doc => ∃ statements, Stylesheet.read source = .ok statements ∧
        3 * depthOf statements ≤ Format.stackSize ∧ doc = print statements
    | .error (.unreadable fault place) => Stylesheet.read source = .error fault ∧ place = source
    | .error .tooDeep => ∃ statements, Stylesheet.read source = .ok statements ∧
        Format.stackSize < 3 * depthOf statements
    | .error _ => False := by
  unfold outcomeOf readOn
  cases Stylesheet.read source with
  | error fault => exact ⟨rfl, rfl⟩
  -- a fault is told on any stack
  | ok statements =>
    -- printing takes more calls than reading
    by_cases hprint : 3 * depthOf statements ≤ Format.stackSize
    · have hread : 2 * depthOf statements ≤ Format.stackSize := by omega
      simp only [if_pos hread, printOn, if_pos hprint]
      exact ⟨statements, rfl, hprint, rfl⟩
    · -- too deep to print, whether it is read or not
      have hdeep : Format.stackSize < 3 * depthOf statements := Nat.lt_of_not_le hprint
      by_cases hread : 2 * depthOf statements ≤ Format.stackSize
      · simp only [if_pos hread, printOn, if_neg hprint]
        exact ⟨statements, rfl, hdeep⟩
      · simp only [if_neg hread]
        exact ⟨statements, rfl, hdeep⟩

end Reflow.Stylesheet
