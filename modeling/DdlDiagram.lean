import DdlDiagram.Main
import DdlDiagram.Schema.Session
import DdlDiagram.Proofs.Token.Whole
import DdlDiagram.Proofs.Token.Legible
import DdlDiagram.Proofs.Token.Trimmed
import DdlDiagram.Proofs.Layout.ReadBack
import DdlDiagram.Proofs.Layout.Fidelity
import DdlDiagram.Proofs.Nesting.Uncut
import DdlDiagram.Proofs.Text.IdentifierChar
import DdlDiagram.Proofs.Cleaned.Unmarked
import DdlDiagram.Proofs.Statement.Keyword
import DdlDiagram.Proofs.Statement.Segments
import DdlDiagram.Proofs.Schema.NameSet
import DdlDiagram.Proofs.Script.Basic
import DdlDiagram.Proofs.Script.Words
import DdlDiagram.Proofs.Script.Items
import DdlDiagram.Proofs.Script.Bodies
import DdlDiagram.Proofs.Script.Statements
import DdlDiagram.Proofs.Script.Fidelity
import DdlDiagram.Proofs.Layout.Tidy
import DdlDiagram.Proofs.Respaced.Basic
import DdlDiagram.Proofs.Respaced.Rules
import DdlDiagram.Proofs.Respaced.Layout
import DdlDiagram.Proofs.Respaced.Scans
import DdlDiagram.Proofs.Respaced.Statement
import DdlDiagram.Proofs.Respaced.Groups
import DdlDiagram.Proofs.Respaced.Pieces
import DdlDiagram.Proofs.Respaced.Names
import DdlDiagram.Proofs.Respaced.TableBody
import DdlDiagram.Proofs.Respaced.Words
import DdlDiagram.Proofs.Respaced.Identifiers
import DdlDiagram.Proofs.Schema.Outline
import DdlDiagram.Proofs.Respaced.Declaration
import DdlDiagram.Proofs.Cleaned.CommentFree
import DdlDiagram.Proofs.Respaced.Fidelity
import DdlDiagram.Proofs.Text.Lines
import DdlDiagram.Proofs.Text.Padded
import DdlDiagram.Proofs.TableBody.Padded
import DdlDiagram.Proofs.Directive.Line
import DdlDiagram.Proofs.Cleaned.Strip
import DdlDiagram.Proofs.Cleaned.Lines
import DdlDiagram.Proofs.Cleaned.Steps
import DdlDiagram.Proofs.Cleaned.Tokens
import DdlDiagram.Proofs.Cleaned.Remarks
import DdlDiagram.Proofs.Layout.Remarks
import DdlDiagram.Proofs.Statement.Seam
import DdlDiagram.Proofs.Reading.Parts
import DdlDiagram.Proofs.Reading.Joined
import DdlDiagram.Proofs.Reading.Account
import DdlDiagram.Proofs.Declaration.Written
import DdlDiagram.Proofs.Declaration.References
import DdlDiagram.Proofs.Declaration.Columns
import DdlDiagram.Proofs.Diagram.Lines
import DdlDiagram.Proofs.Diagram.Fidelity
import DdlDiagram.Proofs.Cleaned.Open
import DdlDiagram.Proofs.Schema.Session
import DdlDiagram.Proofs.Reading.Comments
import DdlDiagram.Proofs.Nesting.Seam
import DdlDiagram.Proofs.Declaration.Literal
import DdlDiagram.Proofs.TableBody.Open
import DdlDiagram.Proofs.Reading.Literals
import DdlDiagram.Proofs.Returned.Basic
import DdlDiagram.Proofs.Returned.Cleaned
import DdlDiagram.Proofs.Returned.Declaration
import DdlDiagram.Proofs.Returned.Diagram
import DdlDiagram.Proofs.Returned.Reading
import DdlDiagram.Proofs.Statement.Boundaries
import DdlDiagram.Proofs.Reading.LineCount
import DdlDiagram.Proofs.Reading.Inserted
import DdlDiagram.Proofs.CommandLine.Run
import DdlDiagram.Proofs.Nesting.Bodies
import DdlDiagram.Proofs.TableBody.Written
import DdlDiagram.Proofs.Reading.Recleaned
import DdlDiagram.Proofs.Token.Placed
import DdlDiagram.Proofs.Layout.Placed
import DdlDiagram.Proofs.Token.Gapped
import DdlDiagram.Proofs.Token.Appended
import DdlDiagram.Proofs.Layout.Statements
import DdlDiagram.Proofs.Layout.Lines
import DdlDiagram.Proofs.Layout.Spacing
import DdlDiagram.Proofs.Declaration.Constraints
import DdlDiagram.Proofs.Declaration.Attached
import DdlDiagram.Proofs.Declaration.Modifiers
import DdlDiagram.Proofs.CommandLine.Search
