import Reflow.Comment.Attach
import Reflow.Fragment
import Reflow.Grammar.Parse
import Reflow.Layout.Limit
import Reflow.Print.Node
import Reflow.Stylesheet.Printer
import Reflow.Stylesheet.Reader

/-! # Formatting

From a text to its document and from there to the formatted text. -/

namespace Reflow

/-- The outcome of a run without its notes. -/
def Run.result {α : Type} (r : Run α) : Except FormatFault α := (r.run.run []).1

/-- What gives a result or a fault in a source, as a run. -/
def Run.ofSource {α : Type} (source : Source) (result : Except SourceFault α) : Run α :=
  match result with
  | .ok a => return a
  | .error fault => throw (.unreadable fault source)

/-- What may have no outcome on the stack, as a run. -/
def Run.ofStack {α : Type} (outcome : Option α) : Run α :=
  match outcome with
  | some a => return a
  | none => throw .tooDeep

namespace Format

/-- How many calls may wait for one another while a text is formatted.  This is up to the process; a
new one allows for a tenth of it only, too few to print some trees within the bounds on nesting.  Here
they are so many that no tree within the bounds takes more to be printed, which is why the printers do
not count them. -/
def stackSize : Nat := 10000

/-- Reads a source in the language of the options. -/
def parse (options : Options) (source : Source) : Run Grammar.Parsed := do
  let outcome ← Run.ofStack (Grammar.parseOn stackSize source (options.parser == .html))
  Run.ofSource source outcome

/-- The document of a stylesheet. -/
def stylesheetToDoc (source : Source) : Run Doc := do
  let outcome ← Run.ofStack (Stylesheet.readOn stackSize source)
  Run.ofStack (Stylesheet.printOn stackSize (← Run.ofSource source outcome))

/-- Prints what was read from a source.  `textToDoc` gives the documents of templates in other
languages. -/
def printParsed (textToDoc : Language → String → Run Doc) (options : Options) (fragment : Bool)
    (cursorNode : Option Nat) (parsed : Grammar.Parsed) : Run Doc := do
  let attachments := attachComments parsed.root parsed.comments parsed.source
  Run.note (.attachedComments parsed.comments.length)
  let context : PrintContext :=
    { options, source := parsed.source, comments := parsed.comments, attachments, fragment,
      cursorNode, textToDoc }
  (Print.tree parsed.root).run context |>.run' {}

/-- The document of a text; templates in other languages are nested at most `depth` deep. -/
def docWithin : Nat → Options → String → Run Doc
  | 0, _, _ => throw .tooDeep
  | depth + 1, options, text => do
    let source := Source.ofString text
    if options.parser == .css then
      Run.note (.readingStylesheet source.size)
      return ← stylesheetToDoc source
    Run.note (.readingSource options.parser source.size)
    let parsed ← parse options source
    let inner (language : Language) : String → Run Doc :=
      docWithin depth { options with parser := language }
    printParsed inner options false none parsed

/-- How deep languages are nested: a script, and HTML or a stylesheet in one of its templates, which
hold no templates themselves. -/
def maxNesting : Nat := 2

/-- The document of a text in the language of the options. -/
def textToDoc (options : Options) (text : String) : Run Doc := docWithin maxNesting options text

/-- The document of what was read from a source. -/
def treeToDoc (options : Options) (fragment : Bool) (cursorNode : Option Nat)
    (parsed : Grammar.Parsed) : Run Doc :=
  printParsed (fun language => textToDoc { options with parser := language }) options fragment
    cursorNode parsed

/-- A formatted text, and where the cursor is in it. -/
structure Formatted where
  text : String
  cursor : Option Int
  deriving Repr, DecidableEq

/-- Where the cursor ends up: as far behind its mark as it was behind the start of its node, but not
behind the end of the text. -/
def movedCursor (offset : Int) (mark : Option Nat) (node : Option Node) (length : Nat) : Int :=
  match mark, node with
  | some mark, some node => min (mark + (offset - node.start)) length
  | _, _ => min offset length

/-- Formats a stylesheet. -/
def formatStylesheet (options : Options) (cursor : Option Int) (text : String) : Run Formatted := do
  let rendered ← Run.within (Layout.renderWithin options.settings (← textToDoc options text))
  return ⟨rendered.text, cursor.map fun offset => min offset rendered.text.length⟩

/-- Formats a script or HTML. -/
def formatTree (options : Options) (fragment : Bool) (cursor : Option Int) (text : String) :
    Run Formatted := do
  let parsed ← parse options (.ofString text)
  Run.note (.foundComments parsed.comments.length)
  let node := cursor.bind parsed.root.atOffset?
  let doc ← treeToDoc options fragment (node.map Node.id) parsed
  let rendered ← Run.within (Layout.renderWithin options.settings doc)
  Run.note (.laidOut rendered.text.length options.printWidth)
  return ⟨rendered.text,
    cursor.map fun offset => movedCursor offset rendered.cursor node rendered.text.length⟩

/-- Formats a text in the language of the options.  `fragment` if it is a fragment in its wrapper. -/
def formatText (options : Options) (fragment : Bool) (cursor : Option Int) (text : String) :
    Run Formatted :=
  if options.parser == .css then formatStylesheet options cursor text
  else formatTree options fragment cursor text

/-- Formats a text, or a fragment that is put in a wrapper for it. -/
def formatSource (options : Options) (fragment : Bool) (cursor : Option Int) (text : String) :
    Run Formatted := do
  if !fragment then return ← formatText options false cursor text
  let formatted ← formatText options true cursor (Fragment.wrap text)
  return { formatted with text := Fragment.unwrap formatted.text }

end Format

/-- Formats a text.  `stackSize` calls may wait for one another on the way: where reading a source or
printing a stylesheet takes more, and where reading goes on for ever, the outcome is `tooDeep`. -/
def format (options : Options) (text : String) : Except FormatFault String :=
  (·.text) <$> (Format.formatSource options false none text).result

/-- Formats a fragment: markup without anything around it. -/
def formatFragment (options : Options) (text : String) : Except FormatFault String :=
  (·.text) <$> (Format.formatSource options true none text).result

/-- Formats a text and tells where an offset in it ends up. -/
def formatWithCursor (options : Options) (offset : Int) (text : String) :
    Except FormatFault (String × Int) :=
  (fun f => (f.text, f.cursor.getD 0)) <$> (Format.formatSource options false (some offset) text).result

/-- The document that a text is laid out from. -/
def documentOf (options : Options) (fragment : Bool) (text : String) : Except FormatFault Doc :=
  if options.parser == .css then (Format.textToDoc options text).result
  else Run.result do
    Format.treeToDoc options fragment none (← Format.parse options (.ofString text))

end Reflow
