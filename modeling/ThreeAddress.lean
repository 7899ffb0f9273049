import ThreeAddress.Backpatch
import ThreeAddress.Body.Text
import ThreeAddress.Execution
import ThreeAddress.Flow.Path
import ThreeAddress.Optimizer.Pipeline
import ThreeAddress.OrderedMap.Cursor
import ThreeAddress.OrderedMap.Text
import ThreeAddress.Text.Quoted
import ThreeAddress.Proofs.OrderedMap.Entries
import ThreeAddress.Proofs.OrderedMap.Maps
import ThreeAddress.Proofs.OrderedMap.Changes
import ThreeAddress.Proofs.OrderedMap.History
import ThreeAddress.Proofs.OrderedSet.Membership
import ThreeAddress.Proofs.Chain.Families
import ThreeAddress.Proofs.Body.WellFormed
import ThreeAddress.Proofs.Flow.Reachability
import ThreeAddress.Proofs.Dataflow.Laws
import ThreeAddress.Proofs.Dataflow.Runs
import ThreeAddress.Proofs.Dataflow.Descent
import ThreeAddress.Proofs.Dataflow.Elementwise
import ThreeAddress.Proofs.Dataflow.SetFacts
import ThreeAddress.Proofs.Dataflow.BindingFacts
import ThreeAddress.Proofs.Dataflow.FixedPoint
import ThreeAddress.Proofs.Dataflow.Resolving
import ThreeAddress.Proofs.Dataflow.Contract
import ThreeAddress.Proofs.Body.Placed
import ThreeAddress.Proofs.Dataflow.Settling
import ThreeAddress.Proofs.Dataflow.Points
import ThreeAddress.Proofs.Body.Edits
import ThreeAddress.Proofs.Dataflow.Budget
import ThreeAddress.Proofs.Optimizer.Structure
import ThreeAddress.Proofs.Optimizer.EditCode
import ThreeAddress.Proofs.Optimizer.Rewrites
import ThreeAddress.Proofs.Optimizer.DeadCode
import ThreeAddress.Proofs.Flow.Loops
import ThreeAddress.Proofs.Optimizer.InvariantMotion
import ThreeAddress.Proofs.Optimizer.Pipeline
import ThreeAddress.Proofs.Execution.Simulation
import ThreeAddress.Proofs.Execution.Steps
import ThreeAddress.Proofs.Execution.Rewrites
import ThreeAddress.Proofs.Execution.ValueNumbering
import ThreeAddress.Proofs.Execution.ConstantPropagation
import ThreeAddress.Proofs.Execution.CopyPropagation
import ThreeAddress.Proofs.Execution.DeadCode
import ThreeAddress.Proofs.Flow.Dominance
import ThreeAddress.Proofs.Flow.Paths
import ThreeAddress.Proofs.Flow.DominatorTree
import ThreeAddress.Proofs.Execution.Ahead
import ThreeAddress.Proofs.Execution.InvariantMotion
import ThreeAddress.Proofs.Execution.Pipeline
import ThreeAddress.Proofs.Body.Checking
import ThreeAddress.Proofs.Body.Parents
import ThreeAddress.Proofs.Body.Linkage
import ThreeAddress.Proofs.Body.Growth
import ThreeAddress.Proofs.Body.Construction
import ThreeAddress.Proofs.Body.Operations
import ThreeAddress.Proofs.Body.Backpatching
import ThreeAddress.Proofs.Optimizer.Metered
import ThreeAddress.Proofs.Optimizer.OneEdit
import ThreeAddress.Proofs.Optimizer.MeteredRewrites
import ThreeAddress.Proofs.Optimizer.MeteredRemoval
import ThreeAddress.Proofs.Optimizer.MeteredMotion
import ThreeAddress.Proofs.Optimizer.Bisection
import ThreeAddress.Proofs.Optimizer.Overflow
import ThreeAddress.Proofs.Dataflow.Unreached
import ThreeAddress.Proofs.Dataflow.UnreachedCopies
import ThreeAddress.Proofs.Dataflow.OneCopy
import ThreeAddress.Proofs.Flow.Preheaders
import ThreeAddress.Proofs.Optimizer.MotionRounds
import ThreeAddress.Proofs.Flow.LoopDiscovery
import ThreeAddress.Proofs.Flow.LoopNesting
import ThreeAddress.Proofs.Optimizer.MotionPlaces
import ThreeAddress.Proofs.Execution.LoopMotion
import ThreeAddress.Proofs.Dataflow.PathFacts
import ThreeAddress.Proofs.Dataflow.LivePaths
import ThreeAddress.Proofs.Dataflow.CopyPaths
import ThreeAddress.Proofs.Flow.DepthFirst
import ThreeAddress.Proofs.Flow.ReversePostorder
import ThreeAddress.Proofs.Dataflow.ReachedFacts
import ThreeAddress.Proofs.OrderedMap.Measuring
import ThreeAddress.Proofs.OrderedMap.Lockstep
import ThreeAddress.Proofs.OrderedMap.Height
import ThreeAddress.Proofs.OrderedMap.Equality
import ThreeAddress.Proofs.Dataflow.SameFacts
import ThreeAddress.Proofs.Optimizer.Settled
import ThreeAddress.Proofs.Optimizer.ConstantPropagation
import ThreeAddress.Proofs.Optimizer.ValueNumbering
import ThreeAddress.Proofs.Optimizer.MotionSettled
