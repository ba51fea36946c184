import Reflow.Decimal.Whole
import Reflow.Options
import Reflow.Text.Trim

/-! # Arguments of the command line

Flags have a long spelling, which may be cut short as long as it stays unique, and some a short one.
Short flags may be run together.  A value follows its flag, or stands behind it after an equals sign.
The names of files stand in one run before, between or behind the flags. -/

namespace Reflow.CommandLine

/-- The flags. -/
inductive Flag where
  | help
  | output
  | write
  | check
  | config
  | printWidth
  | tabWidth
  | useTabs
  | noSemi
  | singleQuote
  | jsxSingleQuote
  | trailingComma
  | jsxBracketSameLine
  | arrowParens
  | parser
  | cursorOffset
  | debug
  deriving Repr, DecidableEq

/-- The spellings of the flags. -/
def spellings : List (String × Flag) :=
  [("-h", .help), ("--help", .help), ("-o", .output), ("--output", .output), ("-w", .write),
   ("--write", .write), ("--check", .check), ("--config", .config), ("--print-width", .printWidth),
   ("--tab-width", .tabWidth), ("--use-tabs", .useTabs), ("--no-semi", .noSemi),
   ("--single-quote", .singleQuote), ("--jsx-single-quote", .jsxSingleQuote),
   ("--trailing-comma", .trailingComma), ("--jsx-bracket-same-line", .jsxBracketSameLine),
   ("--arrow-parens", .arrowParens), ("--parser", .parser), ("--cursor-offset", .cursorOffset),
   ("--debug", .debug)]

/-- Does a flag take a value? -/
def Flag.takesValue : Flag → Bool
  | .output | .config | .printWidth | .tabWidth | .trailingComma | .arrowParens | .parser
  | .cursorOffset => true
  | _ => false

/-- Why nothing is formatted. -/
inductive Refusal where
  /-- Help was asked for. -/
  | help
  /-- The arguments make no sense. -/
  | usage
  deriving Repr, DecidableEq

/-- The arguments. -/
structure Arguments where
  inputs : List String := []
  output : Option String := none
  write : Bool := false
  check : Bool := false
  config : Option String := none
  cursorOffset : Option Int := none
  debug : Bool := false
  /-- The options set by flags. -/
  format : Options.Entries := []

/-! ## Words -/

/-- A flag as it is spelled, with the text attached to it. -/
structure Spelled where
  flag : Flag
  short : Bool
  attached : Option String := none
  deriving Repr, DecidableEq

/-- What an argument is. -/
inductive Word where
  | plain
  /-- All that follows is plain. -/
  | separator
  | flag (spelled : Spelled)
  | unknown
  deriving Repr, DecidableEq

/-- Is it spelled with one dash? -/
def isShort (spelling : List Char) : Bool := spelling[1]? != some '-'

/-- Cuts a text at its first equals sign. -/
def cutAtEquals (cs : List Char) : List Char × Option String :=
  match cs.dropWhile (· != '=') with
  | [] => (cs, none)
  | _ :: rest => (cs.takeWhile (· != '='), some (String.ofList rest))

/-- The flags that an argument may stand for. -/
def candidates (cs : List Char) : List Spelled :=
  if isShort cs then
    spellings.filterMap fun (spelling, flag) =>
      if spelling.toList == cs.take 2 then some ⟨flag, true, some (String.ofList (cs.drop 2))⟩
      else if Text.startsWith spelling.toList cs then some ⟨flag, isShort spelling.toList, none⟩
      else none
  else
    let (name, attached) := cutAtEquals cs
    spellings.filterMap fun (spelling, flag) =>
      if Text.startsWith spelling.toList name then some ⟨flag, false, attached⟩ else none

/-- Drops one line feed at the end. -/
def dropLineEnd (cs : List Char) : List Char :=
  if cs.getLast? == some '\n' then cs.dropLast else cs

/-- Is it a negative number, with or without a point?  A line feed may stand behind it. -/
def isNegativeNumber (cs : List Char) : Bool :=
  match dropLineEnd cs with
  | '-' :: rest =>
    match rest.dropWhile Text.isDecimal with
    | [] => !rest.isEmpty
    | '.' :: part => !part.isEmpty && part.all Text.isDecimal
    | _ => false
  | _ => false

/-- The flag that is spelled out in full, with what is attached to it. -/
def spelledOut? (cs : List Char) : Option Spelled :=
  match spellings.lookup (String.ofList cs) with
  | some flag => some ⟨flag, isShort cs, none⟩
  | none =>
    match cutAtEquals cs with
    | (name, some attached) =>
      (spellings.lookup (String.ofList name)).map fun flag => ⟨flag, isShort name, some attached⟩
    | (_, none) => none

/-- What an argument is, if it is not behind a separator. -/
def classify (argument : String) : Except Refusal Word :=
  match argument.toList with
  | '-' :: c :: rest =>
    let cs := '-' :: c :: rest
    match spelledOut? cs with
    | some spelled => .ok (.flag spelled)
    | none =>
      match candidates cs with
      | [spelled] => .ok (.flag spelled)
      | [] => .ok (if isNegativeNumber cs || cs.contains ' ' then .plain else .unknown)
      | _ => .error .usage
  | _ => .ok .plain

/-- What each argument is. -/
def classifyAll : List String → Except Refusal (List (String × Word))
  | [] => .ok []
  | argument :: rest =>
    if argument == "--" then .ok ((argument, .separator) :: rest.map fun a => (a, .plain))
    else do
      let word ← classify argument
      return (argument, word) :: (← classifyAll rest)

/-! ## Values -/

/-- Digits with single underscores between them. -/
def readDigits? : List Char → Option (List Char)
  | [c] => if Text.isDecimal c then some [c] else none
  | c :: '_' :: rest => if Text.isDecimal c then (readDigits? rest).map (c :: ·) else none
  | c :: rest => if Text.isDecimal c then (readDigits? rest).map (c :: ·) else none
  | [] => none

/-- White space that may stand around a number: all but the information separators. -/
def isNumberSpace (c : Char) : Bool := Text.isSpace c && !(0x1c ≤ c.toNat && c.toNat ≤ 0x1f)

/-- A number without a sign. -/
def readNat? (cs : List Char) : Option Nat := do (Decimal.whole (← readDigits? cs)).toOption

/-- A whole number. -/
def readInt? (s : String) : Option Int :=
  match Text.trimBy isNumberSpace s.toList with
  | '-' :: rest => (readNat? rest).map fun n => -(n : Int)
  | '+' :: rest => (readNat? rest).map fun n => (n : Int)
  | cs => (readNat? cs).map fun n => (n : Int)

namespace Arguments

/-- Sets an option. -/
def setOption (a : Arguments) (name : String) (v : OptionValue) : Arguments :=
  { a with format := a.format.put name v }

/-- Sets an option to a number. -/
def setNumber (a : Arguments) (name value : String) : Except Refusal Arguments :=
  match readInt? value with
  | some n => .ok (a.setOption name (.int n))
  | none => .error .usage

/-- Sets an option to one of several names. -/
def setChoice (a : Arguments) (name : String) (choices : List String) (value : String) :
    Except Refusal Arguments :=
  if choices.contains value then .ok (a.setOption name (.string value)) else .error .usage

/-- Takes account of a flag with its value. -/
def apply (a : Arguments) (flag : Flag) (value : String) : Except Refusal Arguments :=
  match flag with
  | .help => .error .help
  | .output => .ok { a with output := some value }
  | .write => .ok { a with write := true }
  | .check => .ok { a with check := true }
  | .config => .ok { a with config := some value }
  | .printWidth => a.setNumber "print_width" value
  | .tabWidth => a.setNumber "tab_width" value
  | .useTabs => .ok (a.setOption "use_tabs" (.bool true))
  | .noSemi => .ok (a.setOption "semi" (.bool false))
  | .singleQuote => .ok (a.setOption "single_quote" (.bool true))
  | .jsxSingleQuote => .ok (a.setOption "jsx_single_quote" (.bool true))
  | .trailingComma => a.setChoice "trailing_comma" (TrailingComma.choices.map (·.1)) value
  | .jsxBracketSameLine => .ok (a.setOption "jsx_bracket_same_line" (.bool true))
  | .arrowParens => a.setChoice "arrow_parens" (ArrowParens.choices.map (·.1)) value
  | .parser => a.setChoice "parser" (Language.choices.map (·.1)) value
  | .cursorOffset =>
    match readInt? value with
    | some n => .ok { a with cursorOffset := some n }
    | none => .error .usage
  | .debug => .ok { a with debug := true }

end Arguments

/-! ## Reading -/

/-- The flags of one argument with their values, and whether the last of them took the next
argument, which is given if it is plain. -/
def expand (next : Option String) (flag : Flag) (short : Bool) :
    Option (List Char) → Except Refusal (List (Flag × String) × Bool)
  | none =>
    if flag.takesValue then
      match next with
      | some value => .ok ([(flag, value)], true)
      | none => .error .usage
    else .ok ([(flag, "")], false)
  | some attached =>
    if flag.takesValue then .ok ([(flag, String.ofList attached)], false)
    else match short, attached with
      | true, c :: rest =>
        match spellings.lookup (String.ofList ['-', c]) with
        | some inner => do
          let (more, took) ← expand next inner true (if rest.isEmpty then none else some rest)
          return ((flag, "") :: more, took)
        | none => .error .usage
      | _, _ => .error .usage
termination_by attached => match attached with
  | some cs => cs.length + 1
  | none => 0
decreasing_by split <;> simp_all

/-- The arguments read so far. -/
structure State where
  arguments : Arguments := {}
  /-- Was the run of file names read? -/
  named : Bool := false
  /-- Was there an argument that means nothing? -/
  stray : Bool := false

/-- The next argument, if it is plain. -/
def nextPlain? : List (String × Word) → Option String
  | (argument, .plain) :: _ => some argument
  | _ => none

/-- Reads the words up to the end; `fuel` bounds their number. -/
def readWords : Nat → State → List (String × Word) → Except Refusal State
  | 0, s, _ => .ok s
  | _, s, [] => .ok s
  | fuel + 1, s, (_, .unknown) :: rest => readWords fuel { s with stray := true } rest
  | fuel + 1, s, (_, .flag spelled) :: rest => do
    let (flags, took) ← expand (nextPlain? rest) spelled.flag spelled.short
      (spelled.attached.map String.toList)
    let arguments ← flags.foldlM (fun a (flag, value) => a.apply flag value) s.arguments
    readWords fuel { s with arguments } (if took then rest.drop 1 else rest)
  | fuel + 1, s, words =>
    let isName (w : String × Word) : Bool := w.2 = .plain || w.2 = .separator
    let run := words.takeWhile isName
    let names := (run.map (·.1)).erase "--"
    let rest := words.dropWhile isName
    if s.named || !run.any (·.2 = .plain) then readWords fuel { s with stray := true } rest
    else readWords fuel { s with arguments := { s.arguments with inputs := names }, named := true } rest

/-- Reads all arguments. -/
def readArguments (arguments : List String) : Except Refusal Arguments := do
  let words ← classifyAll arguments
  let s ← readWords (words.length + 1) {} words
  if s.stray || !s.named then .error .usage else .ok s.arguments

end Reflow.CommandLine
