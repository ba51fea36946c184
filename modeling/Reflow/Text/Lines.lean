/-! # Lines and line ends

Besides the line feed, a carriage return, vertical tab, form feed, the information separators, next
line and the line and paragraph separators end a line as editors show it.

Texts from files and from standard input end their lines by a line feed, whatever they used before. -/

namespace Reflow.Text

/-- Does the character end a line? -/
def endsLine (c : Char) : Bool :=
  c == '\n' || c == '\r' || (0xb ≤ c.toNat && c.toNat ≤ 0xc) || (0x1c ≤ c.toNat && c.toNat ≤ 0x1e)
    || c.toNat == 0x85 || c.toNat == 0x2028 || c.toNat == 0x2029

/-- Puts a character in front of the first line. -/
def consFirst (c : Char) : List (List Char) → List (List Char)
  | [] => [[c]]
  | line :: lines => (c :: line) :: lines

/-- The lines of a text with the characters that end them.  A carriage return and a line feed end
one line together. -/
def editorLines : List Char → List (List Char)
  | [] => []
  | '\r' :: '\n' :: rest => ['\r', '\n'] :: editorLines rest
  | c :: rest => if endsLine c then [c] :: editorLines rest else consFirst c (editorLines rest)

/-- Replaces a carriage return, with the line feed behind it if there is one, by a line feed. -/
def unifyNewlinesChars : List Char → List Char
  | '\r' :: '\n' :: rest => '\n' :: unifyNewlinesChars rest
  | '\r' :: rest => '\n' :: unifyNewlinesChars rest
  | c :: rest => c :: unifyNewlinesChars rest
  | [] => []

/-- Replaces a carriage return, with the line feed behind it if there is one, by a line feed. -/
def unifyNewlines (s : String) : String := String.ofList (unifyNewlinesChars s.toList)

end Reflow.Text
