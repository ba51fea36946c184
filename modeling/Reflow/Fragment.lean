import Reflow.Text.Trim

/-! # Fragments

Markup without a script around it is formatted inside a wrapper element, which is taken off
afterwards together with the indentation that it caused. -/

namespace Reflow.Fragment

/-- Puts the wrapper around a source. -/
def wrap (source : String) : String := "<>\n" ++ source ++ "\n</>"

/-- The blanks that a line starts with. -/
def leadingBlanks (line : List Char) : List Char := line.takeWhile Text.isBlank

/-- The length of a markup comment behind its opening mark, if more follows on the line. -/
def commentLength? : List Char → Option Nat
  | '-' :: '-' :: '>' :: rest => if rest.isEmpty then none else some 3
  | [] => none
  | _ :: rest => (commentLength? rest).map (· + 1)

/-- Puts `gap` behind every markup comment that more follows on the line.  `skip` counts the
characters of a comment that are still to be passed over. -/
def breakAfterComments (gap : List Char) : Nat → List Char → List Char
  | _, [] => []
  | 1, c :: rest => c :: gap ++ breakAfterComments gap 0 rest
  | skip + 2, c :: rest => c :: breakAfterComments gap (skip + 1) rest
  | 0, c :: rest =>
    match Text.dropLeading? ['<', '!', '-', '-'] (c :: rest) with
    | some body =>
      match commentLength? body with
      | some n => c :: breakAfterComments gap (n + 3) rest
      | none => c :: breakAfterComments gap 0 rest
    | none => c :: breakAfterComments gap 0 rest

/-- A line without the indentation of the wrapper. -/
def unwrapLine (indent : Nat) (line : List Char) : List Char :=
  let line := line.drop indent
  breakAfterComments ('\n' :: leadingBlanks line) 0 line

/-- Takes the wrapper off: its first line, its last line with the line end behind it, and the
indentation of its first content line from every line. -/
def unwrap (formatted : String) : String :=
  let lines := (Text.splitAt '\n' formatted.toList).drop 1
  let lines := lines.take (lines.length - 2)
  match lines with
  | [] | [] :: _ => "\n"
  | first :: _ =>
    let indent := (leadingBlanks first).length
    let unwrapped := if indent = 0 then lines else lines.map (unwrapLine indent)
    String.ofList (['\n'].intercalate unwrapped) ++ "\n"

end Reflow.Fragment
