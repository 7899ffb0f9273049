import ThreeAddress.Body.Edit
import ThreeAddress.Dataflow.Liveness
import ThreeAddress.Flow.Loops
import ThreeAddress.Optimizer.Fuel

/-!
Loop-invariant code motion. A computation whose operands do not change in a loop moves to the end of
the loop's preheader, innermost loops first; loops without a preheader are left alone.
-/

set_option autoImplicit false

namespace ThreeAddress

def Operation.isHoistable (operation : Operation) : Bool :=
  operation.isPure && !operation.canTrap && match operation with
    | .load _ _ => false
    | _ => true

structure HoistPlan where
  loop : Loop
  preheader : Block
  exits : List (Block × Block)
  live : BlockFacts (OrderedSet Var)
  dominance : Dominance
  pinned : OrderedSet Var

namespace HoistPlan

-- Whether an operation may move, given the destinations of all operations that are in the loop: its operands are not
-- written there, its destination is written there once and is not read before, and every exit where the destination is
-- live comes after it.
def mayMove (plan : HoistPlan) (defs : List Var) (block : Block) (operation : Operation) (dst : Var) :
    Bool :=
  operation.usedVars.all (fun var => !defs.contains var && !plan.pinned.contains var)
    && defs.count dst == 1
    && !plan.pinned.contains dst
    && !(plan.live.liveIn plan.loop.header).contains dst
    && plan.exits.all fun (source, target) =>
        !(plan.live.liveIn target).contains dst || plan.dominance.dominates block source

structure State where
  body : Body
  tally : Tally
  defs : List Var

def hoistInst (plan : HoistPlan) (block : Block) (state : State) (inst : Inst) :
    Except Fault State := do
  let operation ← state.body.operation inst
  match operation.def? with
  | none => return state
  | some dst =>
      if operation.isHoistable && plan.mayMove state.defs block operation dst then
        let (granted, tally) := state.tally.pay
        if granted then
          let body ← state.body.moveBeforeTerminator inst plan.preheader
          return ⟨body, tally, state.defs.erase dst⟩
        else return { state with tally := tally }
      else return state

def hoistRound (plan : HoistPlan) : List Block → State → Except Fault State
  | [], state => .ok state
  | block :: rest, state => do
      let insts ← state.body.members block
      let state ← insts.foldlM (plan.hoistInst block) state
      plan.hoistRound rest state

-- Moving one computation can let others follow: go round until nothing moves. Each move takes a destination away, so
-- there are no more rounds than destinations.
def hoist (plan : HoistPlan) : Nat → State → Except Fault State
  | 0, state => .ok state
  | rounds + 1, state => do
      let after ← plan.hoistRound plan.loop.blocks.toList state
      if after.tally.count = state.tally.count then return after else plan.hoist rounds after

end HoistPlan

namespace Body

def definitions (body : Body) (blocks : List Block) : Except Fault (List Var) := do
  let insts ← blocks.mapM body.members
  return insts.flatten.filterMap fun inst => (body.operation? inst).bind Operation.def?

def hoistLoop (dominance : Dominance) (pinned : OrderedSet Var) (tally : Tally) (body : Body)
    (loop : Loop) : Except Fault (Tally × Body) := do
  match loop.preheader? body with
  | none => return (tally, body)
  | some preheader =>
      let live ← body.liveness
      let defs ← body.definitions loop.blocks.toList
      let plan : HoistPlan := ⟨loop, preheader, loop.exits body, live, dominance, pinned⟩
      let state ← plan.hoist (defs.length + 1) ⟨body, tally, defs⟩
      return (state.tally, state.body)

def hoistLoops (dominance : Dominance) (pinned : OrderedSet Var) :
    Tally → List Loop → Body → Except Fault (Tally × Body)
  | tally, [], body => .ok (tally, body)
  | tally, loop :: rest, body => do
      let (tally, body) ← hoistLoop dominance pinned tally body loop
      hoistLoops dominance pinned tally rest body

def hoistInvariants (body : Body) (fuel : Fuel) : Except Fault (Tally × Body) := do
  let dominance ← body.dominance
  let pinned ← body.addressTaken
  hoistLoops dominance pinned ⟨fuel, 0⟩ (body.loops dominance) body

end Body

end ThreeAddress
