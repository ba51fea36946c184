import Reflow.Embed.Detect
import Reflow.Print.Template

/-! # Templates in other languages

A template in another language is formatted as a text of that language, in which placeholders stand
for its expressions.  A text that cannot be read is left as it is. -/

namespace Reflow.Embed

/-- The text of a template with placeholders between its parts. -/
def payload (m : Marker) (texts : List String) : String :=
  let parts := texts.zipIdx.map fun (text, i) => if i = 0 then text else m.write (i - 1) ++ text
  String.join parts

/-- Is there nothing in a template? -/
def isBlankTemplate (texts : List String) : Bool :=
  match texts with
  | [only] => (Text.trim only).isEmpty
  | _ => false

/-- A template without content. -/
def blankTemplate : Doc := .text (String.ofList [templateQuote, templateQuote])

/-- Gives up on expressions that do not match their placeholders. -/
def spliced (result : Except SpliceFault Doc) : Print Doc :=
  match result with
  | .ok d => return d
  | .error (.mismatch found) => throw (.substitution found)
  | .error (.limit limit) => throw (.limit limit)

/-- Prints a stylesheet in a template. -/
def stylesheet (print : PrintNode) (p : Path) (texts : List String) (expressions : List Node) :
    Print Doc := do
  if isBlankTemplate texts then return blankTemplate
  Print.note (.embedding .css expressions.length)
  let doc ← (← read).textToDoc .css (payload .css texts)
  let printed ← Print.items print p .expressions expressions
  let doc ← spliced (splice .css .css .all id printed doc)
  return .cat [templateMark, .indent (.cat [.hardline, doc.stripTrailingHardline]), .softline,
    templateMark]

/-- Prints HTML in a template. -/
def html (print : PrintNode) (p : Path) (texts : List String) (expressions : List Node) :
    Print Doc := do
  if expressions.isEmpty && isBlankTemplate texts then return blankTemplate
  Print.note (.embedding .html expressions.length)
  let printed ← Print.items print p .expressions expressions
  let doc ← (← read).textToDoc .html (payload .html texts)
  let doc ← spliced (splice .html .html .first Doc.grouped printed doc.stripTrailingHardline)
  return .grouped (.cat [templateMark, .indent (.cat [.hardline, .grouped doc]), .softline,
    templateMark])

/-- Prints a template in its own language, if it has one and can be read in it. -/
def template? (print : PrintNode) (p : Path) (quasis expressions : List Node) :
    Print (Option Doc) := do
  let texts := quasis.map Node.rawText
  let printed? (result : Print Doc) : Print (Option Doc) :=
    tryCatch (some <$> result) fun
      | .unreadable fault _ => do
        Print.note (.notEmbedded fault.message)
        return none
      | fault => throw fault
  match p.embeddedLanguage? (← Print.attachments) with
  | some .css => printed? (stylesheet print p texts expressions)
  | some .html => printed? (html print p texts expressions)
  | _ => return none

end Reflow.Embed
