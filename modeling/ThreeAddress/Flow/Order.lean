import ThreeAddress.Body.Basic
import ThreeAddress.Flow.Postorder

/-!
The order in which control flow reaches blocks, and what it tells about edges.
-/

set_option autoImplicit false

namespace ThreeAddress

structure FlowOrder where
  entry : Block
  exits : List Block
  postorder : List Block
  rpo : Arena .rpo Block
  position : SideTable .block (Option Position)

namespace FlowOrder

def positions (rpo : Arena .rpo Block) : SideTable .block (Option Position) :=
  rpo.entries.foldl (fun table (place, block) => table.write block (some place)) (.blank none)

def isReachable (order : FlowOrder) (block : Block) : Bool := (order.position.read block).isSome

-- Whether an edge fails to advance in reverse postorder. Every back edge of a loop retreats.
def isRetreating (order : FlowOrder) (source target : Block) : Bool :=
  match order.position.read source, order.position.read target with
  | some source, some target => (compare target source).isLE
  | _, _ => false

end FlowOrder

namespace Body

def graph (body : Body) : Arena .block (List Block) := body.blocks.map BasicBlock.succs

def flowOrder (body : Body) : Except Fault FlowOrder := do
  let postorder ← Postorder.compute body.graph body.entry
  let rpo := Arena.ofList postorder.reverse
  return {
    entry := body.entry
    exits := postorder.filter fun block => (body.succs block).isEmpty
    postorder := postorder
    rpo := rpo
    position := FlowOrder.positions rpo
  }

end Body

end ThreeAddress
