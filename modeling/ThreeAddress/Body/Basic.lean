import ThreeAddress.Chain
import ThreeAddress.OrderedSet

/-!
Function bodies: basic blocks with their edges, the arena of instructions, and the variables. An
instruction may exist without being placed in a block.
-/

set_option autoImplicit false

namespace ThreeAddress

structure BasicBlock where
  chain : Chain := {}
  succs : List Block := []
  preds : List Block := []
deriving DecidableEq

structure Body where
  name : String
  entry : Block
  blocks : Arena .block BasicBlock
  cells : Cells
  -- The names of the variables; one that the compiler made up has none.
  vars : Arena .var (Option String)

namespace Body

def new (name : String) : Body where
  name := name
  entry := .nth 0
  blocks := .ofList [{}]
  cells := .empty
  vars := .empty

def succs (body : Body) (block : Block) : List Block :=
  (body.blocks.get? block).elim [] BasicBlock.succs

def preds (body : Body) (block : Block) : List Block :=
  (body.blocks.get? block).elim [] BasicBlock.preds

def members (body : Body) (block : Block) : Except Fault (List Inst) := do
  let data ← body.blocks.get block
  data.chain.members body.cells

def membersRev (body : Body) (block : Block) : Except Fault (List Inst) := do
  let data ← body.blocks.get block
  data.chain.membersRev body.cells

def placed (body : Body) : Except Fault (List Inst) := do
  let lists ← body.blocks.refs.mapM body.members
  return lists.flatten

def operation? (body : Body) (inst : Inst) : Option Operation :=
  (body.cells.get? inst).map Cell.operation

def operation (body : Body) (inst : Inst) : Except Fault Operation := do
  let cell ← body.cells.get inst
  return cell.operation

-- The code of a block that can be read, first to last.
def code (body : Body) (block : Block) : List (Inst × Operation) :=
  match body.members block with
  | .ok insts => insts.filterMap fun inst => (body.operation? inst).map (inst, ·)
  | .error _ => []

def codeRev (body : Body) (block : Block) : List (Inst × Operation) :=
  match body.membersRev block with
  | .ok insts => insts.filterMap fun inst => (body.operation? inst).map (inst, ·)
  | .error _ => []

-- Variables that live in memory: those whose address is taken and those given storage. Any store or call may change
-- them.
def addressTaken (body : Body) : Except Fault (OrderedSet Var) := do
  let insts ← body.placed
  return .ofList (insts.filterMap fun inst => (body.operation? inst).bind Operation.pinned?)

def unresolvedJumps (body : Body) : Except Fault (List Inst) := do
  let insts ← body.placed
  return insts.filter fun inst => (body.operation? inst).bind Operation.jumpTarget? == some .invalid

def terminator? (body : Body) (block : Block) : Except Fault (Option Inst) := do
  let data ← body.blocks.get block
  match data.chain.tail with
  | .invalid => return none
  | tail => return if (← body.operation tail).isTerminator then some tail else none

end Body

end ThreeAddress
