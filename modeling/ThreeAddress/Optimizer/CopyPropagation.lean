import ThreeAddress.Dataflow.Copies
import ThreeAddress.Optimizer.Step

/-!
Copy propagation. The destination of a copy that holds is replaced by its source wherever it is
read. Copies themselves keep their operands, so the facts stay true while the body is edited;
those that become dead are left in place.
-/

set_option autoImplicit false

namespace ThreeAddress

def Copies.editStep (copies : Copies) : Body.Step (OrderedSet Inst) :=
  fun holding tally inst operation =>
    let (tally, operation) :=
      if (copies.find? inst).isSome then (tally, operation)
      else
        let source? := fun var => (copies.source? holding var).map Operand.var
        operation.updateUses (Tally.substitute source?) tally
    (copies.step inst operation holding, tally, operation)

def Body.propagateCopies (body : Body) (fuel : Fuel) : Except Fault (Tally × Body) := do
  let copies ← body.copies
  let facts ← body.analyze (copies.analysis body)
  let order ← body.flowOrder
  body.editCode fuel copies.editStep fun block =>
    if order.isReachable block then facts.atEntry.get? block else none

end ThreeAddress
