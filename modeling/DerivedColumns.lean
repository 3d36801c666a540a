import DerivedColumns.Formula.Aggregation
import DerivedColumns.Formula.Equality
import DerivedColumns.Function.Listing
import DerivedColumns.Main
import DerivedColumns.Proofs.Evaluation.Agreement
import DerivedColumns.Proofs.Evaluation.Finite
import DerivedColumns.Proofs.Evaluation.Scalar
import DerivedColumns.Proofs.Evaluation.Whole
import DerivedColumns.Proofs.Formula.Accepted
import DerivedColumns.Proofs.Formula.Canonical
import DerivedColumns.Proofs.Formula.Legible
import DerivedColumns.Proofs.Graph.Edges
import DerivedColumns.Proofs.Graph.Order
import DerivedColumns.Proofs.Graph.Search
import DerivedColumns.Proofs.Keyed
import DerivedColumns.Proofs.Service.Command
import DerivedColumns.Proofs.Service.Failure
import DerivedColumns.Proofs.Service.Legible
import DerivedColumns.Proofs.Service.Notice
import DerivedColumns.Proofs.Service.Watching
import DerivedColumns.Proofs.Sheet.Current
import DerivedColumns.Proofs.Sheet.Difference
import DerivedColumns.Proofs.Sheet.Edit
import DerivedColumns.Proofs.Sheet.Execution
import DerivedColumns.Proofs.Sheet.Faithful
import DerivedColumns.Proofs.Sheet.Formulas
import DerivedColumns.Proofs.Sheet.Freshness
import DerivedColumns.Proofs.Sheet.Linked
import DerivedColumns.Proofs.Sheet.Merge
import DerivedColumns.Proofs.Sheet.Naming
import DerivedColumns.Proofs.Sheet.Pruned
import DerivedColumns.Proofs.Sheet.Recompute
import DerivedColumns.Proofs.Sheet.Relabel
import DerivedColumns.Proofs.Sheet.Rows
import DerivedColumns.Proofs.Sheet.Session
import DerivedColumns.Proofs.Sheet.Solution
import DerivedColumns.Proofs.Table.Identified
import DerivedColumns.Proofs.Graph.Topological
import DerivedColumns.Proofs.Sheet.Grouped
import DerivedColumns.Proofs.Evaluation.Unique
import DerivedColumns.Proofs.Evaluation.Ranking
import DerivedColumns.Proofs.Graph.Cycle
import DerivedColumns.Proofs.Formula.Height
import DerivedColumns.Proofs.Formula.Layout
import DerivedColumns.Proofs.Formula.Place
import DerivedColumns.Proofs.FormulaFile
import DerivedColumns.Proofs.Sheet.Accounted
import DerivedColumns.Proofs.Value.Json
import DerivedColumns.Proofs.Sheet.Grounded
import DerivedColumns.Proofs.Calendar.Pattern
import DerivedColumns.Proofs.Evaluation.Renamed
