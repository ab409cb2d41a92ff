import RouteInvariants.Text.Printable
import RouteInvariants.Text.Quoted
import RouteInvariants.Text.Lines
import RouteInvariants.Decimal.Binary64
import RouteInvariants.Decimal.Shortest
import RouteInvariants.Decimal.Reading
import RouteInvariants.Decimal.Rounded
import RouteInvariants.Datum.Basic
import RouteInvariants.Datum.Literal
import RouteInvariants.Datum.Json
import RouteInvariants.Datum.JsonReading
import RouteInvariants.Topology.Basic
import RouteInvariants.Topology.Distance
import RouteInvariants.Topology.Graph
import RouteInvariants.Topology.Families
import RouteInvariants.Route.Ty
import RouteInvariants.Route.SortError
import RouteInvariants.Route.Declaration
import RouteInvariants.Route.CodePoints
import RouteInvariants.Route.Value
import RouteInvariants.Route.Term
import RouteInvariants.Route.Expr
import RouteInvariants.Route.Elaborate
import RouteInvariants.Route.Functions
import RouteInvariants.Route.Invariant
import RouteInvariants.Route.Symbolic
import RouteInvariants.Description.Tagged
import RouteInvariants.Description.Sort
import RouteInvariants.Description.Expression
import RouteInvariants.Decision.Tree
import RouteInvariants.Decision.Unfold
import RouteInvariants.Decision.Simplify
import RouteInvariants.Decision.Closed
import RouteInvariants.Solver.Linear
import RouteInvariants.Solver.Difference
import RouteInvariants.Solver.Rows
import RouteInvariants.Solver.Numbers
import RouteInvariants.Solver.Classes
import RouteInvariants.Solver.Arrays
import RouteInvariants.Solver.Words
import RouteInvariants.Solver.Texts
import RouteInvariants.Solver.Joins
import RouteInvariants.Solver.Shapes
import RouteInvariants.Solver.Query
import RouteInvariants.Failure
import RouteInvariants.Network.Basic
import RouteInvariants.Network.Faults
import RouteInvariants.Network.Protocols
import RouteInvariants.Solver.Oracle
import RouteInvariants.Journal.Entry
import RouteInvariants.Journal.Template
import RouteInvariants.Journal.Basic
import RouteInvariants.Journal.Record
import RouteInvariants.Verify.State
import RouteInvariants.Route.Formula
import RouteInvariants.Merge.Strategy
import RouteInvariants.Merge.Laws
import RouteInvariants.Verify.Session
import RouteInvariants.Verify.Obligation
import RouteInvariants.Verify.Annotated
import RouteInvariants.Report.Verdict
import RouteInvariants.Report.Text
import RouteInvariants.Report.Document
import RouteInvariants.Verify.Verification
import RouteInvariants.Toml.Text
import RouteInvariants.Toml.Scalar
import RouteInvariants.Toml.Table
import RouteInvariants.Toml.Document
import RouteInvariants.Settings.Basic
import RouteInvariants.Settings.Files
import RouteInvariants.Diagnostic
import RouteInvariants.Proofs.Values
import RouteInvariants.Proofs.Typing
import RouteInvariants.Proofs.Results
import RouteInvariants.Proofs.Elaboration
import RouteInvariants.Proofs.Folding
import RouteInvariants.Proofs.Trees
import RouteInvariants.Proofs.Equality
import RouteInvariants.Proofs.Unfolding
import RouteInvariants.Proofs.Update
import RouteInvariants.Proofs.Matching
import RouteInvariants.Proofs.Obligations
import RouteInvariants.Proofs.Runs
import RouteInvariants.Proofs.Discharge
import RouteInvariants.Proofs.Phases
import RouteInvariants.Proofs.Soundness
import RouteInvariants.Proofs.FailedEdges
import RouteInvariants.Proofs.Failures
import RouteInvariants.Proofs.Decided
import RouteInvariants.Proofs.PerNode
import RouteInvariants.Proofs.Conditions
import RouteInvariants.Proofs.Convergence
import RouteInvariants.Proofs.Monolithic
import RouteInvariants.Proofs.Scenarios
import RouteInvariants.Proofs.RouteAlgebra
import RouteInvariants.Proofs.Protocols
import RouteInvariants.Proofs.Walks
import RouteInvariants.Proofs.Verdicts
import RouteInvariants.Proofs.AlgebraChecks
import RouteInvariants.Proofs.HopAlgebra
import RouteInvariants.Proofs.HopCounts
import RouteInvariants.Proofs.LawSearch
import RouteInvariants.Proofs.StableHopCounts
import RouteInvariants.Proofs.Substitution
import RouteInvariants.Proofs.Correspondence
import RouteInvariants.Proofs.Destinations
import RouteInvariants.Proofs.CodePoints
import RouteInvariants.Proofs.Conflation
import RouteInvariants.Proofs.Reachability
import RouteInvariants.Proofs.RouteAbstraction
import RouteInvariants.Proofs.ExactHopCounts
import RouteInvariants.Proofs.WitnessTimes
import RouteInvariants.Proofs.DistanceAnnotations
import RouteInvariants.Proofs.Neighbourhoods
import RouteInvariants.Proofs.Interpreter
import RouteInvariants.Proofs.Execution
import RouteInvariants.Proofs.PredecessorOrder
import RouteInvariants.Proofs.FailureBudgets
import RouteInvariants.Proofs.Chains
import RouteInvariants.Proofs.Representation
import RouteInvariants.Proofs.LabelledGraphs
import RouteInvariants.Proofs.Families
import RouteInvariants.Proofs.Replay
import RouteInvariants.Proofs.ReportedValues
import RouteInvariants.Proofs.HiddenSymbolics
import RouteInvariants.Proofs.SettingTypes
import RouteInvariants.Proofs.ColumnNames
import RouteInvariants.Proofs.SettingsSearch
import RouteInvariants.Proofs.TomlLines
import RouteInvariants.Proofs.TomlTexts
import RouteInvariants.Proofs.SettingsRoundTrip
import RouteInvariants.Proofs.Acceptance
import RouteInvariants.Proofs.Lookups
import RouteInvariants.Proofs.MergeLaws
import RouteInvariants.Proofs.SampleBounds
