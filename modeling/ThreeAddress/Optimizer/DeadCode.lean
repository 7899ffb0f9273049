import ThreeAddress.Body.Edit
import ThreeAddress.Dataflow.Liveness
import ThreeAddress.Optimizer.Fuel

/-!
Dead code elimination. A pure instruction that cannot trap goes when its result is never read, and
everything but labels goes from blocks that cannot be reached. Variables that live in memory are
never dead.
-/

set_option autoImplicit false

namespace ThreeAddress.Body

def isDead (pinned live : OrderedSet Var) (operation : Operation) : Bool :=
  match operation.def? with
  | some dst =>
      operation.isPure && !operation.canTrap && !live.contains dst && !pinned.contains dst
  | none => false

def markUnreachable : Fuel → List Inst → Body → Except Fault (Fuel × Body)
  | fuel, [], body => .ok (fuel, body)
  | fuel, inst :: rest, body => do
      if (← body.operation inst).isLabel then markUnreachable fuel rest body
      else
        let (granted, fuel) := fuel.consume
        let body ← if granted then body.setMark inst true else pure body
        markUnreachable fuel rest body

-- Mark dead instructions, last to first. What only they read is dead as well.
def markDead (pinned : OrderedSet Var) :
    OrderedSet Var → Fuel → List Inst → Body → Except Fault (Fuel × Body)
  | _, fuel, [], body => .ok (fuel, body)
  | live, fuel, inst :: rest, body => do
      let operation ← body.operation inst
      let before := Liveness.step inst operation live
      if isDead pinned live operation then
        let (granted, fuel) := fuel.consume
        if granted then
          let body ← body.setMark inst true
          markDead pinned live fuel rest body
        else markDead pinned before fuel rest body
      else markDead pinned before fuel rest body

def markBlocks (pinned : OrderedSet Var) (order : FlowOrder) (facts : BlockFacts (OrderedSet Var)) :
    Fuel → List Block → Body → Except Fault (Fuel × Body)
  | fuel, [], body => .ok (fuel, body)
  | fuel, block :: rest, body => do
      let insts ← body.membersRev block
      let (fuel, body) ←
        if order.isReachable block then markDead pinned (facts.liveOut block) fuel insts body
        else markUnreachable fuel insts body
      markBlocks pinned order facts fuel rest body

def removeDeadCode (body : Body) (fuel : Fuel) : Except Fault (Tally × Body) := do
  let order ← body.flowOrder
  let facts ← body.liveness
  let pinned ← body.addressTaken
  let (fuel, body) ← markBlocks pinned order facts fuel body.blocks.refs body
  let (body, count) ← body.removeMarked
  return (⟨fuel, count⟩, body)

end ThreeAddress.Body
