import Conditions.Placeholder.Enclosed
import Conditions.Evaluator.Work
import Conditions.Journal.Scope
import Conditions.Journal.Draft
import Conditions.Json.Reader
import Conditions.Main
import Conditions.Proofs.Expression.Recognition
import Conditions.Proofs.Evaluator.Observation
import Conditions.Proofs.Evaluator.Work
import Conditions.Proofs.Evaluator.Locality
import Conditions.Proofs.Evaluator.Story
import Conditions.Proofs.Evaluator.Life
import Conditions.Proofs.Evaluator.Course
import Conditions.Proofs.Evaluator.Obligation
import Conditions.Proofs.Evaluator.Evaluation
import Conditions.Proofs.Evaluator.Record
import Conditions.Proofs.Evaluator.Gate
import Conditions.Proofs.Evaluator.Agreement
import Conditions.Proofs.Evaluator.Sequence
import Conditions.Proofs.Evaluator.Cancellation
import Conditions.Proofs.Evaluator.Transparency
import Conditions.Proofs.Expression.Quoting
import Conditions.Proofs.Expression.Decomposition
import Conditions.Proofs.Expression.Writing
import Conditions.Proofs.Expression.FirstFault
import Conditions.Proofs.Expression.Embedding
import Conditions.Proofs.Dictionary
import Conditions.Proofs.Settings.Loading
import Conditions.Proofs.Settings.Layers
import Conditions.Proofs.Command.ExitStatus
import Conditions.Proofs.Evaluator.Conjunction
import Conditions.Proofs.Evaluator.Context
import Conditions.Proofs.Placeholder.Passes
import Conditions.Proofs.Placeholder.Blanks
import Conditions.Proofs.Expression.Comparing
import Conditions.Proofs.Placeholder.Lookup
import Conditions.Proofs.Placeholder.Convergence
import Conditions.Proofs.Placeholder.Warning
import Conditions.Proofs.Command.Spelling
import Conditions.Proofs.Number.Rounding
import Conditions.Proofs.Number.Numeral
import Conditions.Proofs.Expression.NumericOrder
import Conditions.Proofs.Expression.Grouping
import Conditions.Proofs.Evaluator.Visits
import Conditions.Proofs.Expression.Spacing
import Conditions.Proofs.Expression.Unquoting
import Conditions.Proofs.Expression.Calls
import Conditions.Proofs.Expression.Advancing
import Conditions.Proofs.Placeholder.Balance
import Conditions.Proofs.Placeholder.Registrations
import Conditions.Proofs.Evaluator.Compilations
import Conditions.Proofs.Evaluator.Closing
import Conditions.Proofs.Placeholder.Scanning
import Conditions.Proofs.Placeholder.CustomValues
import Conditions.Proofs.Journal.Handlers
import Conditions.Proofs.Number.ReadingBack
import Conditions.Proofs.Json.RoundTrip
import Conditions.Proofs.Journal.Lines
import Conditions.Proofs.Journal.Nesting
