import Reflow.CommandLine.Arguments
import Reflow.CommandLine.Run
import Reflow.Comment.Attach
import Reflow.Comment.Attachment
import Reflow.Comment.Location
import Reflow.Decimal.Shortest
import Reflow.Decimal.Whole
import Reflow.Doc.Basic
import Reflow.Doc.Breaks
import Reflow.Doc.Outline
import Reflow.Editor.Document
import Reflow.Embed.Detect
import Reflow.Embed.Splice
import Reflow.Embed.Template
import Reflow.Files.Memory
import Reflow.Files.Name
import Reflow.Files.System
import Reflow.Format.Fault
import Reflow.Format.FileOptions
import Reflow.Format.Note
import Reflow.Format.Text
import Reflow.Fragment
import Reflow.Grammar.Basic
import Reflow.Grammar.Expression
import Reflow.Grammar.Markup
import Reflow.Grammar.Operators
import Reflow.Grammar.Parse
import Reflow.Grammar.Pieces
import Reflow.Grammar.Statement
import Reflow.Layout.Command
import Reflow.Layout.Fits
import Reflow.Layout.Indentation
import Reflow.Layout.Limit
import Reflow.Layout.Render
import Reflow.Limit
import Reflow.Literal.Attribute
import Reflow.Literal.Number
import Reflow.Literal.Quote
import Reflow.Main
import Reflow.Options
import Reflow.Print.Arguments
import Reflow.Print.Assignment
import Reflow.Print.Basic
import Reflow.Print.Chain
import Reflow.Print.Children
import Reflow.Print.Class
import Reflow.Print.Collection
import Reflow.Print.Comments
import Reflow.Print.Conditional
import Reflow.Print.Function
import Reflow.Print.ImportExport
import Reflow.Print.Markup
import Reflow.Print.Node
import Reflow.Print.Operator
import Reflow.Print.Parens
import Reflow.Print.Statement
import Reflow.Print.Template
import Reflow.Print.TestCall
import Reflow.Proofs.CommandLine.Precedence
import Reflow.Proofs.Comment.Attach
import Reflow.Proofs.Comment.Exact
import Reflow.Proofs.Comment.Location
import Reflow.Proofs.Comment.Rules
import Reflow.Proofs.Course
import Reflow.Proofs.Doc.Breaks
import Reflow.Proofs.Doc.Leaves
import Reflow.Proofs.Expression.Accesses
import Reflow.Proofs.Expression.Arrows
import Reflow.Proofs.Expression.Lines
import Reflow.Proofs.Expression.Operands
import Reflow.Proofs.Expression.Parens
import Reflow.Proofs.Expression.Reading
import Reflow.Proofs.Expression.Roundtrip
import Reflow.Proofs.Expression.Starts
import Reflow.Proofs.Expression.Words
import Reflow.Proofs.Expression.Written
import Reflow.Proofs.Files.Memory
import Reflow.Proofs.Format.Outcome
import Reflow.Proofs.Fragment
import Reflow.Proofs.Grammar.Expression
import Reflow.Proofs.Grammar.Follow
import Reflow.Proofs.Grammar.FollowPieces
import Reflow.Proofs.Grammar.FollowRules
import Reflow.Proofs.Grammar.Html
import Reflow.Proofs.Grammar.Markup
import Reflow.Proofs.Grammar.Nesting
import Reflow.Proofs.Grammar.Parse
import Reflow.Proofs.Grammar.Pieces
import Reflow.Proofs.Grammar.Progress
import Reflow.Proofs.Grammar.ProgressPieces
import Reflow.Proofs.Grammar.ProgressRules
import Reflow.Proofs.Grammar.Sees
import Reflow.Proofs.Grammar.Stands
import Reflow.Proofs.Grammar.Statement
import Reflow.Proofs.Grammar.Steps
import Reflow.Proofs.Grammar.Termination
import Reflow.Proofs.Layout.Conservation
import Reflow.Proofs.Doc.Pieces
import Reflow.Proofs.Layout.Run
import Reflow.Proofs.Layout.Width
import Reflow.Proofs.Layout.Wrap
import Reflow.Proofs.Layout.Flat
import Reflow.Proofs.Options
import Reflow.Proofs.Print.Chain
import Reflow.Proofs.Print.Marks
import Reflow.Proofs.Print.Markup
import Reflow.Proofs.Print.Node
import Reflow.Proofs.Print.Parts
import Reflow.Proofs.Print.Shown
import Reflow.Proofs.Print.Template
import Reflow.Proofs.Print.Groups
import Reflow.Proofs.Print.Packing
import Reflow.Proofs.Source.Gap
import Reflow.Proofs.Stylesheet.Conserved
import Reflow.Proofs.Stylesheet.Pieces
import Reflow.Proofs.Stylesheet.Placeholders
import Reflow.Proofs.Stylesheet.Spacing
import Reflow.Proofs.Text.Ranges
import Reflow.Proofs.Text.Solid
import Reflow.Proofs.Token.Lines
import Reflow.Proofs.Token.Lossless
import Reflow.Proofs.Token.Rescan
import Reflow.Proofs.Token.Scanner
import Reflow.Proofs.Token.Words
import Reflow.Proofs.Tree.Row
import Reflow.Source.Fault
import Reflow.Source.Gap
import Reflow.Source.Position
import Reflow.Stylesheet.Basic
import Reflow.Stylesheet.Printer
import Reflow.Stylesheet.Reader
import Reflow.Text.CharClass
import Reflow.Text.Columns
import Reflow.Text.Letters
import Reflow.Text.Lines
import Reflow.Text.Quoted
import Reflow.Text.Ranges
import Reflow.Text.Tables.Case
import Reflow.Text.Tables.Columns
import Reflow.Text.Tables.Identifier
import Reflow.Text.Tables.Letter
import Reflow.Text.Tables.Numeric
import Reflow.Text.Tables.Printable
import Reflow.Text.Trim
import Reflow.Token.Basic
import Reflow.Token.Measure
import Reflow.Token.Scanner
import Reflow.Toml.Reader
import Reflow.Toml.Scalar
import Reflow.Toml.Table
import Reflow.Toml.Text
import Reflow.Tree.Form
import Reflow.Tree.Kind
import Reflow.Tree.Node
import Reflow.Tree.Outline
import Reflow.Tree.Path
import Reflow.Tree.Walk
import Reflow.Proofs.CommandLine.Effects
import Reflow.Proofs.Source.Places
import Reflow.Proofs.Token.Places
import Reflow.Proofs.Grammar.Places
import Reflow.Proofs.Grammar.PlacesPieces
import Reflow.Proofs.Grammar.PlacesRules
import Reflow.Proofs.Stylesheet.Places
import Reflow.Proofs.Editor.Document
import Reflow.Proofs.Token.Alone
import Reflow.Proofs.Token.Numbers
import Reflow.Proofs.Text.Replace
import Reflow.Proofs.Text.Order
import Reflow.Proofs.Literal.Quote
import Reflow.Proofs.Literal.Attribute
import Reflow.Proofs.Literal.NumberValue
import Reflow.Proofs.Literal.NumberSteps
import Reflow.Proofs.Literal.Number
import Reflow.Proofs.Layout.Order
import Reflow.Proofs.Stylesheet.Segments
import Reflow.Proofs.Stylesheet.Spared
import Reflow.Proofs.Stylesheet.Strings
import Reflow.Proofs.Comment.Nearest
import Reflow.Proofs.Embed.Marker
import Reflow.Proofs.Embed.Splice
import Reflow.Proofs.Layout.Termination
import Reflow.Proofs.Layout.Cursor
import Reflow.Proofs.Layout.Output
import Reflow.Proofs.Layout.Parts
import Reflow.Proofs.Layout.Trimmed
import Reflow.Proofs.Token.Search
import Reflow.Proofs.Token.Seek
import Reflow.Proofs.Grammar.Depth
import Reflow.Proofs.Source.Snippet
import Reflow.Proofs.Format.Cursor
import Reflow.Proofs.Stylesheet.Passage
import Reflow.Proofs.Stylesheet.Starts
import Reflow.Proofs.Stylesheet.Stable
import Reflow.Proofs.Stylesheet.Heads
import Reflow.Proofs.Stylesheet.Reading
import Reflow.Proofs.Layout.Plain
import Reflow.Proofs.Stylesheet.Fixed
