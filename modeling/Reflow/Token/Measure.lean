import Reflow.Token.Basic
import Reflow.Source.Fault
import Reflow.Text.Trim

/-! # The extent of tokens

How many characters at the start of a text belong to a token of a kind.  The functions here only
look; moving ahead is left to the scanner. -/

namespace Reflow

/-- How far a delimited piece reaches: to its end, or to where it was found to be broken. -/
inductive Reach where
  | closed (length : Nat)
  | broken (length : Nat) (fault : ScanFault)
  deriving Repr, DecidableEq

/-- A reach that starts some characters earlier. -/
def Reach.shift (n : Nat) : Reach → Reach
  | .closed length => .closed (n + length)
  | .broken length fault => .broken (n + length) fault

/-- Offset of the first occurrence of a text. -/
def indexOf? (pattern : List Char) : List Char → Option Nat
  | [] => if pattern.isEmpty then some 0 else none
  | c :: rest =>
    if Text.startsWith (c :: rest) pattern then some 0 else (indexOf? pattern rest).map (· + 1)

/-- One piece of what may stand between tokens. -/
inductive Trivia where
  | space (c : Char)
  | lineComment (value : List Char)
  | blockComment (value : List Char)
  /-- A block comment without an end. -/
  | unterminated
  deriving Repr, DecidableEq

/-- The pieces between the start of a text and its first token. -/
def triviaOf (cs : List Char) : List Trivia :=
  match cs with
  | [] => []
  | c :: rest =>
    if isTokenSpace c then .space c :: triviaOf rest
    else if c = '/' then
      match rest with
      | '/' :: body =>
        let value := body.takeWhile fun c => c != '\n' && c != '\r'
        .lineComment value :: triviaOf (body.drop value.length)
      | '*' :: body =>
        match indexOf? ['*', '/'] body with
        | some n => .blockComment (body.take n) :: triviaOf (body.drop (n + 2))
        | none => [.unterminated]
      | _ => []
    else []
termination_by cs.length
decreasing_by
  all_goals simp only [List.length_cons, List.length_drop]
  all_goals omega

/-- The length of a run of digits and underscores. -/
def digitsLength (cs : List Char) : Nat :=
  (cs.takeWhile fun c => Text.isDigit c || c == '_').length

/-- Does a text start with a digit? -/
def startsWithDigit : List Char → Bool
  | [] => false
  | c :: _ => Text.isDigit c

/-- The length of a fraction, with its point. -/
def fractionLength : List Char → Nat
  | '.' :: rest => 1 + digitsLength rest
  | _ => 0

/-- The length of an exponent, with its mark. -/
def exponentLength : List Char → Nat
  | e :: sign :: rest =>
    if e = 'e' || e = 'E' then
      if Text.isDigit sign || ((sign = '+' || sign = '-') && startsWithDigit rest) then
        2 + digitsLength rest
      else 0
    else 0
  | _ => 0

/-- The length of a number in base sixteen, eight or two, with its mark. -/
def prefixedLength? : List Char → Option Nat
  | '0' :: mark :: rest =>
    if ['x', 'X', 'o', 'O', 'b', 'B'].contains mark then
      some (2 + (rest.takeWhile Text.isWordChar).length)
    else none
  | _ => none

/-- How far a number reaches.  A decimal number must not be followed directly by a name. -/
def numberReach (cs : List Char) : Reach :=
  match prefixedLength? cs with
  | some n => .closed n
  | none =>
    let whole := digitsLength cs
    let fraction := whole + fractionLength (cs.drop whole)
    let exponent := fraction + exponentLength (cs.drop fraction)
    let big := exponent + if (cs.drop exponent).head? = some 'n' then 1 else 0
    match (cs.drop big).head? with
    | some c => if isNameStart c then .broken big .nameAfterNumber else .closed big
    | none => .closed big

/-- How far a quoted string reaches, from behind its opening quote. -/
def stringReach (quote : Char) : List Char → Reach
  | [] => .broken 0 .unterminatedString
  | ['\\'] => .broken 1 .unterminatedString
  | '\\' :: _ :: rest => (stringReach quote rest).shift 2
  | c :: rest =>
    if c = '\n' then .broken 0 .newlineInString
    else if c = quote then .closed 1
    else (stringReach quote rest).shift 1

/-- Where a piece of template text ends. -/
inductive TemplateReach where
  /-- At the end of the template. -/
  | tail (length : Nat)
  /-- At an expression. -/
  | hole (length : Nat)
  /-- Nowhere. -/
  | broken (length : Nat)
  deriving Repr, DecidableEq

/-- A template text that starts some characters earlier. -/
def TemplateReach.shift (n : Nat) : TemplateReach → TemplateReach
  | .tail length => .tail (n + length)
  | .hole length => .hole (n + length)
  | .broken length => .broken (n + length)

/-- How far template text reaches, without what ends it. -/
def templateReach : List Char → TemplateReach
  | [] => .broken 0
  | ['\\'] => .broken 1
  | '\\' :: _ :: rest => (templateReach rest).shift 2
  | c :: rest =>
    if c = templateQuote then .tail 0
    else if c = '$' && rest.head? = some '{' then .hole 0
    else (templateReach rest).shift 1

/-- The punctuators, longer ones first. -/
def punctuators : List String :=
  [">>>=", "...", "===", "!==", "**=", "<<=", ">>=", ">>>", "&&=", "||=", "??=", "=>", "==", "!=",
   "<=", ">=", "&&", "||", "??", "?.", "++", "--", "+=", "-=", "*=", "/=", "%=", "&=", "|=", "^=",
   "**", "<<", ">>", "|>", "\x7b", "\x7d", "(", ")", "[", "]", ";", ",", "<", ">", "+", "-", "*",
   "/", "%", "&", "|", "^", "!", "~", "?", ":", "=", ".", "@"]

/-- The longest punctuator that a text starts with.  A question mark before a decimal fraction is
not the mark of an optional access. -/
def punctuator? (cs : List Char) : Option String :=
  punctuators.find? fun p =>
    Text.startsWith cs p.toList && !(p == "?." && startsWithDigit (cs.drop 2))

/-- The length of unquoted text as an attribute value. -/
def bareValueLength : List Char → Nat
  | [] => 0
  | c :: rest =>
    if isTokenSpace c || c == '>' || (c == '/' && rest.head? == some '>') then 0
    else 1 + bareValueLength rest

/-- How far text between tags reaches.  Outside HTML a brace starts an expression, and a closing
angle bracket or brace must not stand alone. -/
def textReach (html : Bool) : List Char → Reach
  | [] => .closed 0
  | c :: rest =>
    if c == '<' || (c == '{' && !html) then .closed 0
    else if !html && (c == '>' || c == '}') then .broken 0 (.unexpectedInText c)
    else (textReach html rest).shift 1

end Reflow
