import Reflow.Decimal.Whole
import Reflow.Layout.Indentation
import Reflow.Text.Letters
import Reflow.Text.Quoted

/-! # Format options

The options of a format call and how they are read from names and values.  A name may be written in
snake case, camel case or kebab case. -/

namespace Reflow

/-- A value given for an option. -/
inductive OptionValue where
  | null
  | bool (b : Bool)
  | int (n : Int)
  | string (s : String)
  | list (items : List OptionValue)
  | table (entries : List (String × OptionValue))
  /-- A value that no option takes, by the text that shows it. -/
  | other (text : String)
  deriving Repr, Inhabited

mutual
/-- How a message shows a value. -/
def OptionValue.shown : OptionValue → String
  | .null => "None"
  | .bool true => "True"
  | .bool false => "False"
  | .int n => toString n
  | .string s => Text.quoted s
  | .list items => "[" ++ OptionValue.shownItems items ++ "]"
  | .table entries => "\x7b" ++ OptionValue.shownEntries entries ++ "\x7d"
  | .other text => text

/-- The values of a list, with commas between them. -/
def OptionValue.shownItems : List OptionValue → String
  | [] => ""
  | [v] => v.shown
  | v :: rest => v.shown ++ ", " ++ OptionValue.shownItems rest

/-- The entries of a table, with commas between them. -/
def OptionValue.shownEntries : List (String × OptionValue) → String
  | [] => ""
  | [(k, v)] => Text.quoted k ++ ": " ++ v.shown
  | (k, v) :: rest => Text.quoted k ++ ": " ++ v.shown ++ ", " ++ OptionValue.shownEntries rest
end

mutual
/-- Can all numbers of a value be written? -/
def OptionValue.isShowable : OptionValue → Bool
  | .int n => Decimal.isWritable n.natAbs
  | .list items => OptionValue.areShowable items
  | .table entries => OptionValue.entriesShowable entries
  | _ => true

/-- Can all values of a list be written? -/
def OptionValue.areShowable : List OptionValue → Bool
  | [] => true
  | v :: rest => v.isShowable && OptionValue.areShowable rest

/-- Can all values of a table be written? -/
def OptionValue.entriesShowable : List (String × OptionValue) → Bool
  | [] => true
  | (_, v) :: rest => v.isShowable && OptionValue.entriesShowable rest
end

/-- Where a comma follows the last item of a broken list. -/
inductive TrailingComma where
  | none
  | es5
  | all
  deriving Repr, DecidableEq, Inhabited

/-- Whether a sole parameter of an arrow function is put in parentheses. -/
inductive ArrowParens where
  | avoid
  | always
  deriving Repr, DecidableEq, Inhabited

/-- The language of a source. -/
inductive Language where
  | visionx
  | script
  | css
  | html
  deriving Repr, DecidableEq, Inhabited

/-- The options of a format call. -/
structure Options where
  printWidth : Int := 80
  tabWidth : Int := 2
  useTabs : Bool := false
  semi : Bool := true
  singleQuote : Bool := false
  jsxSingleQuote : Bool := false
  trailingComma : TrailingComma := .none
  jsxBracketSameLine : Bool := false
  arrowParens : ArrowParens := .avoid
  parser : Language := .visionx
  deriving Repr, DecidableEq, Inhabited

/-- The settings of the layout engine. -/
def Options.settings (o : Options) : Layout.Settings :=
  { width := o.printWidth, tabWidth := o.tabWidth, useTabs := o.useTabs }

/-- The names of the choices for trailing commas. -/
def TrailingComma.choices : List (String × TrailingComma) :=
  [("none", .none), ("es5", .es5), ("all", .all)]

/-- The names of the choices for arrow parentheses. -/
def ArrowParens.choices : List (String × ArrowParens) := [("avoid", .avoid), ("always", .always)]

/-- The names of the languages. -/
def Language.choices : List (String × Language) :=
  [("visionx", .visionx), ("script", .script), ("css", .css), ("html", .html)]

/-- The name of a choice. -/
def nameIn {α : Type} [DecidableEq α] (choices : List (String × α)) (a : α) : String :=
  ((choices.find? fun c => c.2 = a).map (·.1)).getD ""

/-- The name of a choice. -/
def TrailingComma.name (c : TrailingComma) : String := nameIn choices c

/-- The name of a choice. -/
def ArrowParens.name (c : ArrowParens) : String := nameIn choices c

/-- The name of a language. -/
def Language.name (c : Language) : String := nameIn choices c

/-- Why an option was refused. -/
inductive OptionReason where
  | unknown
  | notBoolean
  | notInteger
  | outOfRange
  | notOneOf (choices : List String)
  deriving Repr, DecidableEq

/-- The wording of a reason. -/
def OptionReason.message : OptionReason → String
  | .unknown => "unknown option"
  | .notBoolean => "expected a boolean"
  | .notInteger => "expected an integer"
  | .outOfRange => "out of range"
  | .notOneOf choices => "expected one of " ++ ", ".intercalate choices

/-- An option that was refused. -/
structure OptionFault where
  name : String
  value : OptionValue
  reason : OptionReason

/-- The wording of a refusal. -/
def OptionFault.message (f : OptionFault) : String :=
  "invalid option " ++ f.name ++ "=" ++ f.value.shown ++ ": " ++ f.reason.message

/-- The wording of a refusal, if the value can be written. -/
def OptionFault.report (f : OptionFault) : Except Limit String :=
  if f.value.isShowable then .ok f.message else .error .digits

namespace Options

/-- Puts an underscore before every capital letter but one at the start. -/
def splitCamel : List Char → List Char
  | [] => []
  | c :: rest => c :: rest.flatMap fun d => if 'A' ≤ d && d ≤ 'Z' then ['_', d] else [d]

/-- The name of the option that a spelling stands for. -/
def keyOf (name : String) : String :=
  let dashed := (splitCamel name.toList).map fun c => if c = '-' then '_' else c
  let key := String.ofList (Text.lowerChars dashed)
  if key == "semicolons" then "semi" else key

/-- A boolean option. -/
def readBool (name : String) : OptionValue → Except OptionFault Bool
  | .bool b => .ok b
  | v => .error ⟨name, v, .notBoolean⟩

/-- An integer option with a least value. -/
def readInt (name : String) (least : Int) : OptionValue → Except OptionFault Int
  | .int n => if n < least then .error ⟨name, .int n, .outOfRange⟩ else .ok n
  | v => .error ⟨name, v, .notInteger⟩

/-- An option that takes one of several names. -/
def readChoice {α : Type} (name : String) (choices : List (String × α)) (v : OptionValue) :
    Except OptionFault α :=
  let refused : OptionFault := ⟨name, v, .notOneOf (choices.map (·.1))⟩
  match v with
  | .string s => match choices.lookup s with
    | some a => .ok a
    | none => .error refused
  | _ => .error refused

/-- Sets one option, given by any spelling of its name. -/
def set (o : Options) (name : String) (v : OptionValue) : Except OptionFault Options := do
  match keyOf name with
  | "print_width" => return { o with printWidth := ← readInt "print_width" 1 v }
  | "tab_width" => return { o with tabWidth := ← readInt "tab_width" 0 v }
  | "use_tabs" => return { o with useTabs := ← readBool "use_tabs" v }
  | "semi" => return { o with semi := ← readBool "semi" v }
  | "single_quote" => return { o with singleQuote := ← readBool "single_quote" v }
  | "jsx_single_quote" => return { o with jsxSingleQuote := ← readBool "jsx_single_quote" v }
  | "trailing_comma" =>
    return { o with trailingComma := ← readChoice "trailing_comma" TrailingComma.choices v }
  | "jsx_bracket_same_line" =>
    return { o with jsxBracketSameLine := ← readBool "jsx_bracket_same_line" v }
  | "arrow_parens" =>
    return { o with arrowParens := ← readChoice "arrow_parens" ArrowParens.choices v }
  | "parser" => return { o with parser := ← readChoice "parser" Language.choices v }
  | _ => throw ⟨name, v, .unknown⟩

/-- Names with values, in order. -/
abbrev Entries := List (String × OptionValue)

/-- Gives a name a value: in its place if it is there, at the end otherwise. -/
def Entries.put : Entries → String → OptionValue → Entries
  | [], name, v => [(name, v)]
  | (k, w) :: rest, name, v =>
    if k == name then (k, v) :: rest else (k, w) :: Entries.put rest name v

/-- Entries with later ones put over earlier ones. -/
def Entries.merge (entries later : Entries) : Entries :=
  later.foldl (fun acc e => acc.put e.1 e.2) entries

/-- The options that entries set, in order; the first bad entry is refused. -/
def resolve (entries : Entries) : Except OptionFault Options :=
  entries.foldlM (fun o e => o.set e.1 e.2) {}

end Options

end Reflow
