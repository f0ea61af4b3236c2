import Spreadsheet.Area
import Spreadsheet.Cell
import Spreadsheet.CellError
import Spreadsheet.Column
import Spreadsheet.Complex
import Spreadsheet.Date
import Spreadsheet.Dependencies
import Spreadsheet.Evaluation
import Spreadsheet.Evaluation.Operator
import Spreadsheet.Expression
import Spreadsheet.Expression.Render
import Spreadsheet.Expression.Structure
import Spreadsheet.Formula.Arrange
import Spreadsheet.Formula.Fold
import Spreadsheet.Formula.Lexeme
import Spreadsheet.Formula.Locale
import Spreadsheet.Formula.Mention
import Spreadsheet.Formula.Operator
import Spreadsheet.Formula.Parse
import Spreadsheet.Formula.ReferenceLog
import Spreadsheet.Function
import Spreadsheet.Function.Arguments
import Spreadsheet.Function.Arithmetic
import Spreadsheet.Function.Calendar
import Spreadsheet.Function.ComplexNumber
import Spreadsheet.Function.Elementary
import Spreadsheet.Function.Indirect
import Spreadsheet.Function.Library
import Spreadsheet.Function.Logic
import Spreadsheet.Function.Random
import Spreadsheet.Function.Standard
import Spreadsheet.Function.Statistics
import Spreadsheet.Function.Table
import Spreadsheet.Function.Texts
import Spreadsheet.Function.Widget
import Spreadsheet.Graph.Basic
import Spreadsheet.Graph.Cycle
import Spreadsheet.Graph.Dirty
import Spreadsheet.Graph.Pass
import Spreadsheet.Graph.Vertex
import Spreadsheet.Json
import Spreadsheet.Number.Decimal
import Spreadsheet.Number.Elementary
import Spreadsheet.Number.Exact
import Spreadsheet.Number.Shortest
import Spreadsheet.Position
import Spreadsheet.Reference
import Spreadsheet.Sheet.Basic
import Spreadsheet.Sheet.Command
import Spreadsheet.Sheet.Edit
import Spreadsheet.Sheet.Hook
import Spreadsheet.Sheet.Recalculate
import Spreadsheet.Sheet.Simulation
import Spreadsheet.Sheet.Structure
import Spreadsheet.Simulation.Generator
import Spreadsheet.Simulation.Message
import Spreadsheet.Simulation.Model
import Spreadsheet.Simulation.Pack
import Spreadsheet.Store
import Spreadsheet.Text.Blank
import Spreadsheet.Text.CodeUnits
import Spreadsheet.Text.Letters
import Spreadsheet.Text.Printable
import Spreadsheet.Value
import Spreadsheet.Value.Broadcast
import Spreadsheet.Value.Coercion
import Spreadsheet.Value.Order
import Spreadsheet.Proofs.Graph.Reachable
import Spreadsheet.Proofs.Graph.Tidy
import Spreadsheet.Proofs.Evaluation.Mentions
import Spreadsheet.Proofs.Sheet.Confluence
import Spreadsheet.Proofs.Expression.Moved
import Spreadsheet.Proofs.Formula.Arrange
import Spreadsheet.Proofs.Formula.Array
import Spreadsheet.Proofs.Formula.Formed
import Spreadsheet.Proofs.Formula.Invariant
import Spreadsheet.Proofs.Formula.Precedence
import Spreadsheet.Proofs.Formula.WellFormed
import Spreadsheet.Proofs.Formula.References
import Spreadsheet.Proofs.Formula.Extent
import Spreadsheet.Proofs.Evaluation.Clean
import Spreadsheet.Proofs.Formula.Scan
import Spreadsheet.Proofs.Formula.Enclosed
import Spreadsheet.Proofs.Formula.Bordered
import Spreadsheet.Proofs.Formula.Legible
import Spreadsheet.Proofs.Simulation.Pack
import Spreadsheet.Proofs.Sheet.Command
import Spreadsheet.Proofs.Sheet.Refused
import Spreadsheet.Proofs.Sheet.Sampling
import Spreadsheet.Proofs.Value.Rectangular
import Spreadsheet.Proofs.Function.Rectangular
import Spreadsheet.Proofs.Evaluation.Rectangular
import Spreadsheet.Proofs.Sheet.Volatile
import Spreadsheet.Proofs.Sheet.Clipped
import Spreadsheet.Proofs.Sheet.Composed
import Spreadsheet.Proofs.Sheet.Encompassed
import Spreadsheet.Proofs.Sheet.Progress
import Spreadsheet.Proofs.Evaluation.Reread
import Spreadsheet.Proofs.Formula.Label
import Spreadsheet.Proofs.Evaluation.Foreign
import Spreadsheet.Proofs.Sheet.Finite
import Spreadsheet.Proofs.Formula.Respelled
import Spreadsheet.Proofs.Value.Broadcast
import Spreadsheet.Proofs.Value.Order
import Spreadsheet.Proofs.Area
import Spreadsheet.Proofs.Formula.MovedLabel
import Spreadsheet.Proofs.Formula.CellLabel
import Spreadsheet.Proofs.Formula.Single
import Spreadsheet.Proofs.Evaluation.Indirect
import Spreadsheet.Proofs.Function.Counterparts
import Spreadsheet.Proofs.Sheet.Covered
import Spreadsheet.Proofs.Date
import Spreadsheet.Proofs.Function.Library
import Spreadsheet.Proofs.Function.Table
import Spreadsheet.Proofs.Evaluation.SameStructure
