import Reflow.Doc.Basic
import Reflow.Text.Trim

/-! # Indentation

The steps that lead to the start of a line, so that a step can be taken back, and the text that
they stand for. -/

namespace Reflow.Layout

/-- How documents are laid out: the columns of a line, the columns of an indentation step, and
whether a step is a tab. -/
structure Settings where
  width : Int := 80
  tabWidth : Int := 2
  useTabs : Bool := false
  deriving Repr, DecidableEq

/-- One step of indentation. -/
inductive IndentStep where
  /-- One unit. -/
  | unit
  /-- A number of columns. -/
  | columns (n : Int)
  /-- A text. -/
  | text (s : String)
  deriving Repr, DecidableEq

/-- The steps to the start of a line, the last one first. -/
structure Indentation where
  steps : List IndentStep := []
  deriving Repr, DecidableEq, Inhabited

namespace Indentation

/-- One unit more. -/
def indent (i : Indentation) : Indentation := ⟨.unit :: i.steps⟩

/-- Moved by an alignment; a negative number of columns takes back the last step. -/
def align (i : Indentation) : Alignment → Indentation
  | .columns n =>
    if n = 0 then i
    else if n < 0 then ⟨i.steps.tail⟩
    else ⟨.columns n :: i.steps⟩
  | .text s => ⟨.text s :: i.steps⟩

end Indentation

/-! ## Margins -/

/-- The text in front of a line, and its columns. -/
structure Margin where
  text : String := ""
  columns : Int := 0
  deriving Repr, DecidableEq

/-- Alignment that is not yet written: its number of steps and of columns. -/
structure Pending where
  steps : Nat := 0
  columns : Int := 0
  deriving Repr, DecidableEq

/-- Is the alignment written as tabs when another step follows? -/
def Pending.isTabs (settings : Settings) (p : Pending) : Bool := settings.useTabs && p.steps != 0

/-- One step more of a number of columns. -/
def Pending.add (p : Pending) (n : Int) : Pending := ⟨p.steps + 1, p.columns + n⟩

/-- The margin of the steps read so far, with the alignment that is not yet written. -/
structure Unfinished extends Margin where
  pending : Pending := {}

/-- Spaces for a number of columns. -/
def spaces (n : Int) : String := Text.repeated n.toNat " "

/-- Writes the pending alignment: a tab for each step, or its columns in spaces. -/
def Unfinished.flush (settings : Settings) (u : Unfinished) : Margin :=
  if u.pending.isTabs settings then
    { text := u.text ++ Text.repeated u.pending.steps "\t"
      columns := u.columns + settings.tabWidth * u.pending.steps }
  else
    { text := u.text ++ spaces u.pending.columns, columns := u.columns + u.pending.columns }

/-- Adds one step. -/
def Unfinished.add (settings : Settings) (u : Unfinished) : IndentStep → Unfinished
  | .unit =>
    let m := u.flush settings
    { text := m.text ++ if settings.useTabs then "\t" else spaces settings.tabWidth
      columns := m.columns + settings.tabWidth }
  | .text s =>
    let m := u.flush settings
    { text := m.text ++ s, columns := m.columns + s.length }
  | .columns n => { u with pending := u.pending.add n }

/-- The margin of an indentation.  Alignment at its end is always written in spaces, so that columns
line up. -/
def Indentation.margin (settings : Settings) (i : Indentation) : Margin :=
  let u : Unfinished := i.steps.foldr (fun step u => Unfinished.add settings u step) {}
  { text := u.text ++ spaces u.pending.columns, columns := u.columns + u.pending.columns }

end Reflow.Layout
