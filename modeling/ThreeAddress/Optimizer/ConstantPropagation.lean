import ThreeAddress.Dataflow.Constants
import ThreeAddress.Optimizer.Step

/-!
Constant propagation. Variables known to be constant are replaced by literals, and operations whose
value is known become plain assignments. Branches stay, since edges never change.
-/

set_option autoImplicit false

namespace ThreeAddress

namespace Constants

def fold? (fact : ConstFact) (operation : Operation) : Option Operation :=
  match operation with
  | .binary _ dst _ _ | .unary _ dst _ =>
      (eval? fact operation).map fun value => .assign dst (.lit value)
  | _ => none

def editStep (pinned : OrderedSet Var) : Body.Step ConstFact := fun fact tally inst operation =>
  let (tally, operation) :=
    operation.updateUses (Tally.substitute fun var => (fact.get? var).map .lit) tally
  let (tally, operation) := tally.replace operation (fold? fact operation)
  (step pinned inst operation fact, tally, operation)

end Constants

-- Propagate constants through the whole body. Blocks that no path reaches are skipped. The tally counts operands
-- substituted and operations folded.
def Body.propagateConstants (body : Body) (fuel : Fuel) : Except Fault (Tally × Body) := do
  let pinned ← body.addressTaken
  let facts ← body.analyze (Constants.analysis pinned body)
  body.editCode fuel (Constants.editStep pinned) fun block =>
    (facts.atEntry.get? block).filter fun fact => !fact.isTop

end ThreeAddress
