import Reflow.CommandLine.Arguments
import Reflow.Doc.Outline
import Reflow.Files.System
import Reflow.Format.FileOptions
import Reflow.Format.Text
import Reflow.Text.Lines
import Reflow.Toml.Reader
import Reflow.Tree.Outline

/-! # The command

Formats the files named by the arguments, one after the other.  Options come from a configuration
file and, above it, from flags. -/

namespace Reflow.CommandLine

/-- The name of the configuration file that is looked for. -/
def configName : String := "vxfmt.toml"

/-- An input: a file, or standard input. -/
abbrev Input := Option FileName

/-- How messages call an input. -/
def nameOf : Input → String
  | some name => name.text
  | none => "<stdin>"

/-- What is to be done. -/
structure Job where
  inputs : List Input
  output : Option FileName := none
  write : Bool := false
  check : Bool := false
  entries : Options.Entries := []
  cursorOffset : Option Int := none
  debug : Bool := false

/-- Why nothing is done although the arguments make sense. -/
inductive JobFault where
  | badConfig
  | severalInputs
  | writesInput
  deriving Repr, DecidableEq

/-- The wording of a fault. -/
def JobFault.message : JobFault → String
  | .badConfig => "invalid config"
  | .severalInputs => "--output and --cursor-offset take a single input"
  | .writesInput => "--write cannot rewrite stdin"

/-- The names of the options that flags set, in the order in which they are set. -/
def flagNames : List String :=
  ["print_width", "tab_width", "use_tabs", "semi", "single_quote", "jsx_single_quote",
   "trailing_comma", "jsx_bracket_same_line", "arrow_parens", "parser"]

/-- The options set by flags, in order. -/
def flagEntries (a : Arguments) : Options.Entries :=
  flagNames.filterMap fun name => (a.format.lookup name).map fun v => (name, v)

/-- The options in a configuration. -/
def configEntries (config : Toml.Table) : Options.Entries :=
  match config.lookup "format" with
  | some (.table entries) => entries
  | _ => []

/-- A text that is given and not empty. -/
def nonEmpty (s : Option String) : Option String := s.filter (· != "")

/-- The inputs that the arguments name. -/
def inputsOf (a : Arguments) : List Input :=
  a.inputs.map fun s => if s == "-" then none else some (.ofString s)

/-- The name of the configuration file: the one that is given, or the one next to the first file. -/
def configFile (a : Arguments) : FileName :=
  match nonEmpty a.config with
  | some name => .ofString name
  | none =>
    match (inputsOf a).findSome? id with
    | some first => first.parent.child configName
    | none => .ofString configName

/-- The job that arguments and a configuration describe. -/
def jobOf (a : Arguments) (config : Option Toml.Table) : Except JobFault Job := do
  let some config := config | throw .badConfig
  let inputs := inputsOf a
  let output := nonEmpty a.output
  if 1 < inputs.length && (output.isSome || a.cursorOffset.isSome) then throw .severalInputs
  if a.write && inputs.contains none then throw .writesInput
  return { inputs, output := output.map FileName.ofString, write := a.write, check := a.check,
           entries := (configEntries config).merge (flagEntries a),
           cursorOffset := a.cursorOffset, debug := a.debug }

/-! ## Formatting one input -/

/-- A line with its end. -/
def line (s : String) : String := s ++ "\n"

/-- The lines that report notes. -/
def noteLines (notes : List Note) : String := String.join (notes.map fun n => line n.line)

/-- The outcome of a run, and the lines that report its notes. -/
def noted {α : Type} (r : Run α) : Except FormatFault α × String :=
  let (result, notes) := r.run.run []
  (result, noteLines notes)

/-- The tree and the document of a text, for those who debug. -/
def outlines (file : FileOptions) (text : String) : Except FormatFault Unit × String :=
  let text := if file.fragment then Fragment.wrap text else text
  match (Format.parse file.options (.ofString text)).result with
  | .error fault => (.error fault, "")
  | .ok parsed =>
    let (result, notes) := noted (Format.treeToDoc file.options file.fragment none parsed)
    match result with
    | .error fault => (.error fault, parsed.root.outline {} ++ notes)
    | .ok doc => (.ok (), parsed.root.outline {} ++ notes ++ doc.outline)

/-- Formats a text, and gives what is reported about it. -/
def formatReporting (job : Job) (file : FileOptions) (text : String) :
    Except FormatFault Format.Formatted × String :=
  let (first, report) :=
    if job.debug && file.options.parser != .css then outlines file text else (.ok (), "")
  match first with
  | .error fault => (.error fault, report)
  | .ok () =>
    let (result, notes) :=
      noted (Format.formatSource file.options file.fragment job.cursorOffset text)
    (result, report ++ if job.debug then notes else "")

/-! ## Going through the inputs -/

/-- What was done so far. -/
structure Progress where
  status : Nat := 0
  output : String := ""
  errors : String := ""
  deriving Repr, DecidableEq

/-- Reports something. -/
def Progress.report (p : Progress) (text : String) : Progress := { p with errors := p.errors ++ text }

/-- Notes that something is wrong with an input. -/
def Progress.flag (p : Progress) : Progress := { p with status := max p.status 1 }

/-- Gives up with a message. -/
def Progress.giveUp (p : Progress) (message : String) : Progress :=
  { p.report (line ("error: " ++ message)) with status := 2 }

/-- Why a command breaks off without a report. -/
inductive Crash where
  /-- A file could not be written, or not be looked for. -/
  | file (fault : FileFault)
  /-- Something is too large to be worked out. -/
  | limit (passed : Limit)
  deriving Repr, DecidableEq

/-- The wording of a crash. -/
def Crash.message : Crash → String
  | .file fault => fault.message
  | .limit passed => passed.message

/-- How a command ends. -/
inductive Outcome where
  | done (progress : Progress)
  | refused (refusal : Refusal)
  /-- There is no status: the command breaks off, or, for a name at the end of an HTML text, goes on for
  ever.  Where formatting has no outcome, the crash is `memory`. -/
  | crashed (crash : Crash)
  deriving Repr, DecidableEq

/-- Whether to go on with the next input. -/
inductive Step where
  | next (progress : Progress)
  | stop (outcome : Outcome)

variable {m : Type → Type} [Monad m]

/-- The text of an input. -/
def readInput (files : FileAccess m) : Input → m (Except FileFault String)
  | none => return .ok (Text.unifyNewlines (← files.readInput))
  | some name => return (← files.read name).map Text.unifyNewlines

/-- Is an input rewritten in its place? -/
def Job.rewrites (job : Job) (input : Input) : Bool := job.write && input.isSome

/-- The file that the formatted text of an input goes to, if it goes to one. -/
def Job.target (job : Job) (input : Input) : Option FileName :=
  if job.rewrites input then input else job.output

/-- Puts a formatted text where it belongs. -/
def deliver (files : FileAccess m) (job : Job) (input : Input) (text : String)
    (formatted : Format.Formatted) (p : Progress) : m Step := do
  let place := job.target input
  let rewrites := job.rewrites input
  let p := if place.isNone then { p with output := p.output ++ formatted.text } else p
  let written ← match place with
    | some name =>
      if rewrites && formatted.text == text then pure (.ok ()) else files.write name formatted.text
    | none => pure (.ok ())
  match written with
  | .error fault => return .stop (.crashed (.file fault))
  | .ok () =>
    let noted := rewrites && formatted.text != text && job.debug
    let p := if noted then p.report (noteLines [.rewrote (nameOf input)]) else p
    return .next (match formatted.cursor with
      | some offset => p.report (line ("cursor: " ++ toString offset))
      | none => p)

/-- Formats one input. -/
def formatInput (files : FileAccess m) (job : Job) (input : Input) (p : Progress) : m Step := do
  match FileOptions.resolve input job.entries with
  | .error fault =>
    return .stop (match fault.report with
      | .ok message => .done (p.giveUp message)
      | .error limit => .crashed (.limit limit))
  | .ok file =>
    match ← readInput files input with
    | .error .unusableName => return .stop (.crashed (.file .unusableName))
    | .error fault => return .stop (.done (p.giveUp fault.message))
    | .ok text =>
      let (result, report) := formatReporting job file text
      let p := p.report report
      match result with
      | .error (.unreadable fault source) =>
        return .next (p.report (line (fault.describe source (nameOf input)))).flag
      | .error (.limit limit) => return .stop (.crashed (.limit limit))
      | .error .tooDeep => return .stop (.crashed (.limit .memory))
      | .error fault =>
        return .stop (.done (p.giveUp (nameOf input ++ ": " ++ fault.message (nameOf input))))
      | .ok formatted =>
        if job.check then
          if formatted.text == text then return .next p
          return .next (p.report (line ("would reformat " ++ nameOf input))).flag
        deliver files job input text formatted p

/-- Formats all inputs, until one of them stops the command. -/
def formatInputs (files : FileAccess m) (job : Job) : List Input → Progress → m Outcome
  | [], p => return .done p
  | input :: rest, p => do
    match ← formatInput files job input p with
    | .next p => formatInputs files job rest p
    | .stop outcome => return outcome

/-- The configuration: empty if there is no such file, and nothing if it is not well formed. -/
def readConfig (files : FileAccess m) (name : FileName) : m (Except Crash (Option Toml.Table)) := do
  match ← files.read name with
  | .ok text =>
    return match Toml.read text with
      | .ok table => .ok (some table)
      | .error .malformed => .ok none
      | .error (.limit limit) => .error (.limit limit)
  | .error fault => return if fault.isAbsence then .ok (some []) else .error (.file fault)

/-- Runs the command. -/
def run (files : FileAccess m) (arguments : List String) : m Outcome := do
  match readArguments arguments with
  | .error refusal => return .refused refusal
  | .ok a =>
    match ← readConfig files (configFile a) with
    | .error crash => return .crashed crash
    | .ok config =>
      match jobOf a config with
      | .error fault => return .done (Progress.giveUp {} fault.message)
      | .ok job => formatInputs files job job.inputs {}

/-- The exit code of a refusal. -/
def Refusal.code : Refusal → Nat
  | .help => 0
  | .usage => 2

end Reflow.CommandLine
