import Reflow.Text.CharClass

/-! # Display columns

How many columns a text takes on a terminal.  Wide East Asian characters take two, combining marks
none, a tab the configured number and everything else one. -/

namespace Reflow.Text

/-- Columns of one character. -/
def charColumns (tabWidth : Int) (c : Char) : Int :=
  if c = '\t' then tabWidth
  else if Tables.combining.contains c.toNat then 0
  else if Tables.wide.contains c.toNat then 2
  else 1

/-- Columns of a list of characters. -/
def charsColumns (tabWidth : Int) : List Char → Int
  | [] => 0
  | c :: rest => charColumns tabWidth c + charsColumns tabWidth rest

/-- Columns of a text. -/
def columns (tabWidth : Int) (s : String) : Int := charsColumns tabWidth s.toList

end Reflow.Text
