import Reflow.Literal.Quote

/-! # Attribute values

A quoted attribute value has no backslash escapes; a quote in it is written as an entity. -/

namespace Reflow.Literal

/-- The entity of a quote. -/
def quoteEntity (quote : Char) : String := if quote = '\'' then "&apos;" else "&quot;"

/-- The content of an attribute value with its entities for quotes replaced. -/
def decodeAttribute (content : String) : String :=
  Text.replaceAll (Text.replaceAll content "&apos;" "'") "&quot;" "\""

/-- How an attribute value is printed: in the quotes that need the fewest entities. -/
def printAttribute (raw : String) (single : Bool) : String :=
  let content := decodeAttribute (String.ofList (contentOf raw.toList))
  let quote := preferredQuote content.toList single
  let mark := String.singleton quote
  mark ++ Text.replaceAll content mark (quoteEntity quote) ++ mark

end Reflow.Literal
