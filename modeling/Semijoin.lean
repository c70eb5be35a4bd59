import Semijoin.Json.Ordered
import Semijoin.Main
import Semijoin.Stored.Specification
import Semijoin.Proofs.Join.Building
import Semijoin.Proofs.Join.Rendering
import Semijoin.Proofs.Specification.Relocation
import Semijoin.Proofs.Specification.Placing
import Semijoin.Proofs.Document.Location
import Semijoin.Proofs.Document.Rewriting
import Semijoin.Proofs.Document.Replacement
import Semijoin.Proofs.Document.Expansion
import Semijoin.Proofs.Graph.Passing
import Semijoin.Proofs.Graph.Tour
import Semijoin.Proofs.Graph.Descent
import Semijoin.Proofs.Graph.Component
import Semijoin.Proofs.Graph.Spanning
import Semijoin.Proofs.Branch.Basic
import Semijoin.Proofs.Branch.Sequence
import Semijoin.Proofs.Branch.Walk
import Semijoin.Proofs.Branch.Agreement
import Semijoin.Proofs.Json.Placing
import Semijoin.Proofs.Json.Doubles
import Semijoin.Proofs.Json.RoundTrip
import Semijoin.Proofs.Json.Reading
import Semijoin.Proofs.Join.Soundness
import Semijoin.Proofs.Document.Rereading
import Semijoin.Proofs.Document.Preorder
import Semijoin.Proofs.Meaning.Chains
import Semijoin.Proofs.Specification.Faults
import Semijoin.Proofs.Document.Failure
import Semijoin.Proofs.Document.Checking
import Semijoin.Proofs.Document.Settled
import Semijoin.Proofs.Document.Turn
import Semijoin.Proofs.Document.Settling
import Semijoin.Proofs.Multisearch.Lines
import Semijoin.Proofs.Multisearch.Searches
import Semijoin.Proofs.Chain.Nesting
import Semijoin.Proofs.Chain.Limit
import Semijoin.Proofs.Specification.Acceptance
import Semijoin.Proofs.Fault.Parts
import Semijoin.Proofs.Fault.Showing
import Semijoin.Proofs.Fault.Reading
import Semijoin.Proofs.Fault.Chains
import Semijoin.Proofs.Fault.Graphs
import Semijoin.Proofs.Document.Ordering
import Semijoin.Proofs.Fault.Documents
import Semijoin.Proofs.Command.Writing
import Semijoin.Proofs.Command.Executing
import Semijoin.Proofs.Stored.Loosening
import Semijoin.Proofs.Stored.Rereading
import Semijoin.Proofs.Document.Reversal
import Semijoin.Proofs.Specification.Plain
import Semijoin.Proofs.Document.Alarms
import Semijoin.Proofs.Join.Levels
import Semijoin.Proofs.Graph.Limit
import Semijoin.Proofs.Specification.Unlimited
import Semijoin.Proofs.Document.Unlimited
import Semijoin.Proofs.Document.Levels
import Semijoin.Proofs.Join.Rungs
import Semijoin.Proofs.Chain.Refusal
import Semijoin.Proofs.Graph.Rungs
import Semijoin.Proofs.Graph.Refusal
import Semijoin.Proofs.Graph.Views
import Semijoin.Proofs.Join.Reporting
import Semijoin.Proofs.Join.Rearrangement
import Semijoin.Proofs.Chain.Ascent
import Semijoin.Proofs.Chain.Grouping
import Semijoin.Proofs.Chain.Accounting
import Semijoin.Proofs.Graph.Reports
import Semijoin.Proofs.Graph.Trace
import Semijoin.Proofs.Graph.Reordering
import Semijoin.Proofs.Pointer.Precedence
import Semijoin.Proofs.Document.Objects
import Semijoin.Proofs.Document.Search
import Semijoin.Proofs.Document.Splicing
import Semijoin.Proofs.Join.Emission
import Semijoin.Proofs.Pointer.Text
import Semijoin.Proofs.Document.Naming
