import ThreeAddress.Body.Basic

/-!
The structural rules of a function body, and the first one that a body breaks. Blocks are read in
order; in each, the list comes first, then the jumps, then the edges out and the edges in.
-/

set_option autoImplicit false

namespace ThreeAddress.Body

def jumpDefect? (body : Body) (inst : Inst) : Option Defect :=
  match (body.operation? inst).bind Operation.jumpTarget? with
  | none => none
  | some target =>
      match body.operation? target with
      | none => some (.unresolvedJump inst)
      | some operation => if operation.isLabel then none else some (.jumpToNonLabel inst target)

-- The target of an edge must list its source as often as the source lists the target.
def succDefect? (body : Body) (block : Block) (succs : List Block) (succ : Block) :
    Except Fault (Option Defect) := do
  let data ← body.blocks.get succ
  return if data.preds.count block = succs.count succ then none else some (.edgeMismatch block succ)

def predDefect? (body : Body) (block pred : Block) : Except Fault (Option Defect) := do
  let data ← body.blocks.get pred
  return if data.succs.contains block then none else some (.edgeMismatch pred block)

def blockDefect? (body : Body) (block : Block) : Except Fault (Option Defect) := do
  let data ← body.blocks.get block
  match data.chain.defect? body.cells block with
  | some defect => return some defect
  | none =>
      let insts ← data.chain.members body.cells
      match insts.findSome? body.jumpDefect? with
      | some defect => return some defect
      | none =>
          match ← data.succs.findSomeM? (body.succDefect? block data.succs) with
          | some defect => return some defect
          | none => data.preds.findSomeM? (body.predDefect? block)

def defect? (body : Body) : Except Fault (Option Defect) :=
  if body.blocks.contains body.entry then body.blocks.refs.findSomeM? body.blockDefect?
  else .ok (some .invalidEntry)

def check (body : Body) : Except Fault Unit := do
  match ← body.defect? with
  | some defect => throw (.malformed body.name defect)
  | none => return ()

end ThreeAddress.Body
