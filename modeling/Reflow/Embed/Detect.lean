import Reflow.Comment.Attachment
import Reflow.Options
import Reflow.Text.CharClass
import Reflow.Tree.Kind
import Reflow.Tree.Path

/-! # Languages in templates

A template is a stylesheet if it is the content of a styled element, the value of a `css` attribute
or tagged by one of the usual names; it is HTML if a tag or comment says so. -/

namespace Reflow

namespace Node

/-- Is it a tag or attribute name of one part with the given text? -/
def isMarkupNamed (n : Node) (name : String) : Bool :=
  match n.form with
  | .jsxIdentifier text => text == name
  | _ => false

/-- Is it an attribute of the given name? -/
def isAttributeNamed (n : Node) (name : String) : Bool :=
  match n.form with
  | .jsxAttribute attributeName _ => attributeName.isMarkupNamed name
  | _ => false

/-- Is it an opening tag of a `style` element with the attribute that marks its content? -/
def opensStyle (n : Node) : Bool :=
  match n.form with
  | .jsxOpeningElement name attributes _ =>
    name.isMarkupNamed "style" && attributes.any (·.isAttributeNamed "jsx")
  | _ => false

/-- Is it a name that starts with a capital letter? -/
def isCapitalized (n : Node) : Bool :=
  match n.form with
  | .identifier name => name.toList.head?.any Text.isUppercase
  | _ => false

/-- Is it an access of the styled factory, or the extension of a component? -/
def isStyledAccess (n : Node) : Bool :=
  match n.form with
  | .memberExpression object property _ _ =>
    object.isNamed ["styled"] || (object.isCapitalized && property.isNamed ["extend"])
  | _ => false

/-- Is it a call of the styled factory? -/
def isStyledCall (n : Node) : Bool :=
  match n.form with
  | .callExpression callee _ _ => callee.isNamed ["styled"]
  | _ => false

/-- Does a tag with this expression make a template a stylesheet? -/
def tagsStylesheet (n : Node) : Bool :=
  match n.form with
  | .identifier name => name == "css"
  | .memberExpression .. => n.isStyledAccess
  | .callExpression callee _ _ =>
    n.isStyledCall
      || match callee.form with
        | .memberExpression object _ _ _ => object.isStyledAccess || object.isStyledCall
        | _ => false
  | _ => false

end Node

/-- The language of the template at a path, if it has one of its own. -/
def Path.embeddedLanguage? (a : Attachments) (p : Path) : Option Language :=
  let inStyle := match p.parentForm?, p.grandparentForm? with
    | some (.jsxExpressionContainer _), some (.jsxElement opening _ _) => opening.opensStyle
    | some (.jsxExpressionContainer _), some (.jsxAttribute name _) => name.isMarkupNamed "css"
    | _, _ => false
  let tag := match p.parentForm? with
    | some (.taggedTemplate tag _) => some tag
    | _ => none
  let marked := (a.inRole .leading p.node).any fun x =>
    x.comment.isBlock && x.comment.value == " HTML "
  if inStyle || tag.any Node.tagsStylesheet then some .css
  else if marked || (p.slot? == some .quasi && tag.any (·.isNamed ["html"])) then some .html
  else none

end Reflow
