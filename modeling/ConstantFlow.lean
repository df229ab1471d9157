import ConstantFlow.Main
import ConstantFlow.Dataflow.Marks
import ConstantFlow.Source.Encode
import ConstantFlow.Proofs.Constants.Climbing
import ConstantFlow.Proofs.Constants.Definitions
import ConstantFlow.Proofs.Constants.Equations
import ConstantFlow.Proofs.Constants.Joins
import ConstantFlow.Proofs.Constants.Least
import ConstantFlow.Proofs.Constants.Soundness
import ConstantFlow.Proofs.Constants.Visits
import ConstantFlow.Proofs.Changes
import ConstantFlow.Proofs.Graph.Edges
import ConstantFlow.Proofs.Graph.Refusal
import ConstantFlow.Proofs.Marks
import ConstantFlow.Proofs.Reporting
import ConstantFlow.Proofs.Validity.Decision
import ConstantFlow.Proofs.Declarations
import ConstantFlow.Proofs.Renaming
import ConstantFlow.Proofs.Known
import ConstantFlow.Proofs.Renumbering
import ConstantFlow.Proofs.Rearranging
import ConstantFlow.Proofs.Readings
import ConstantFlow.Proofs.Json.Written
import ConstantFlow.Proofs.Json.Reading
import ConstantFlow.Proofs.Json.Decoding
import ConstantFlow.Proofs.Json.Depth
import ConstantFlow.Proofs.Source.RoundTrip
import ConstantFlow.Proofs.Arithmetic
import ConstantFlow.Proofs.Folding
import ConstantFlow.Proofs.Outcomes
import ConstantFlow.Proofs.Shown
import ConstantFlow.Proofs.Selection
import ConstantFlow.Proofs.Dataflow.Order
import ConstantFlow.Proofs.Mismatch
import ConstantFlow.Proofs.Saved
import ConstantFlow.Proofs.Source.Recovery
import ConstantFlow.Proofs.Grouping
import ConstantFlow.Proofs.Nesting
