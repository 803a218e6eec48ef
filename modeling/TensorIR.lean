import TensorIR.Func.Builder
import TensorIR.Pass.Script
import TensorIR.Pipeline.Run
import TensorIR.Proofs.Fallible
import TensorIR.Proofs.Func.History
import TensorIR.Proofs.Func.Wiring
import TensorIR.Proofs.Func.Invariant
import TensorIR.Proofs.Func.WellFormed
import TensorIR.Proofs.Func.Renumbering
import TensorIR.Proofs.Func.Naming
import TensorIR.Proofs.Func.Checking
import TensorIR.Proofs.Func.Rebuild
import TensorIR.Proofs.Inference.Step
import TensorIR.Proofs.Inference.Walk
import TensorIR.Proofs.Inference.Typing
import TensorIR.Proofs.Inference.Failure
import TensorIR.Proofs.Inference.Settled
import TensorIR.Proofs.Inference.Order
import TensorIR.Proofs.Relay.InContext
import TensorIR.Proofs.Relay.Operators
import TensorIR.Proofs.Relay.Attributes
import TensorIR.Proofs.Relay.Static
import TensorIR.Proofs.Relay.Products
import TensorIR.Proofs.Inference.Dims
import TensorIR.Proofs.Broadcast.Axes
import TensorIR.Proofs.Broadcast.Instances
import TensorIR.Proofs.Broadcast.Semilattice
import TensorIR.Proofs.Relay.Rank
import TensorIR.Proofs.Relay.NewShapes
import TensorIR.Proofs.Inference.Rank
import TensorIR.Proofs.Machine.Basic
import TensorIR.Proofs.Machine.Inputs
import TensorIR.Proofs.Relay.Windows
import TensorIR.Proofs.Machine.Rules
import TensorIR.Proofs.Machine.Axes
import TensorIR.Proofs.Machine.Reshape
import TensorIR.Proofs.Machine.Dialect
import TensorIR.Proofs.Refinement.Basic
import TensorIR.Proofs.Refinement.Rules
import TensorIR.Proofs.Refinement.Inference
import TensorIR.Proofs.Fusion.Plan
import TensorIR.Proofs.Fusion.Groups
import TensorIR.Proofs.Fusion.Static
import TensorIR.Proofs.Fusion.Marks
import TensorIR.Proofs.Fusion.Contraction
import TensorIR.Proofs.Fusion.Numbers
import TensorIR.Proofs.Fusion.Partition
import TensorIR.Proofs.Pipeline.Snapshots
import TensorIR.Proofs.Pipeline.Ending
import TensorIR.Proofs.Pipeline.FailFast
import TensorIR.Proofs.Pipeline.Passes
import TensorIR.Proofs.Pipeline.Relay
import TensorIR.Proofs.Pipeline.Idempotence
import TensorIR.Proofs.Pipeline.Static
import TensorIR.Proofs.Pipeline.Separate
import TensorIR.Proofs.Pipeline.Verified
import TensorIR.Proofs.Pipeline.Structure
import TensorIR.Proofs.Pipeline.Scopes
import TensorIR.Proofs.Pipeline.Changed
import TensorIR.Proofs.Inference.Elements
import TensorIR.Proofs.Func.Ownership
import TensorIR.Proofs.Relay.Axes
import TensorIR.Proofs.Relay.Reductions
import TensorIR.Proofs.Relay.NewAxes
import TensorIR.Proofs.Relay.Permutations
import TensorIR.Proofs.Relay.Convolutions
import TensorIR.Proofs.Relay.Joins
import TensorIR.Proofs.Func.Consumers
import TensorIR.Proofs.Func.InPlace
import TensorIR.Proofs.Func.Edits
import TensorIR.Proofs.Func.Cycles
import TensorIR.Proofs.Func.Verdict
import TensorIR.Proofs.Inference.Blame
import TensorIR.Proofs.Relay.Purity
import TensorIR.Proofs.Pipeline.Order
import TensorIR.Proofs.Pipeline.ModuleOnce
import TensorIR.Proofs.Text.Types
import TensorIR.Proofs.Func.Listing
