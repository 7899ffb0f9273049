import ThreeAddress.Dataflow.Solver
import ThreeAddress.Flow.BlockSets

/-!
Dominance: a block dominates another when every path from the entry to the other passes it.
-/

set_option autoImplicit false

namespace ThreeAddress

structure Dominance where
  facts : BlockFacts (OrderedSet Block)
  order : FlowOrder

def Body.dominance (body : Body) : Except Fault Dominance := do
  let facts ← body.analyze body.dominatorAnalysis
  let order ← body.flowOrder
  return ⟨facts, order⟩

namespace Dominance

-- The blocks that dominate a block, itself included. An unreachable block is dominated by all.
def dominators (dominance : Dominance) (block : Block) : Except Fault (OrderedSet Block) :=
  dominance.facts.atExit.get block

-- Whether `a` dominates `b`; nothing dominates a reference that is no block.
def dominates (dominance : Dominance) (a b : Block) : Bool :=
  (dominance.facts.atExit.get? b).any fun dominators => dominators.contains a

def isReachable (dominance : Dominance) (block : Block) : Bool := dominance.order.isReachable block

def deepest (dominance : Dominance) (candidates : List Block) : Option Block :=
  let depth := fun block => ((dominance.facts.atExit.get? block).elim 0 OrderedSet.size)
  candidates.foldl
    (fun best block => match best with
      | some other => if depth block < depth other then some other else some block
      | none => some block)
    none

-- The closest strict dominator, which is the one with the most dominators of its own. The entry and unreachable blocks
-- have none.
def idom? (dominance : Dominance) (block : Block) : Option Block :=
  if dominance.isReachable block then
    let strict := ((dominance.facts.atExit.get? block).elim [] OrderedSet.toList).filter (· ≠ block)
    dominance.deepest strict
  else none

end Dominance

end ThreeAddress
