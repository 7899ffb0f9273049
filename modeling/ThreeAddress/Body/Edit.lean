import ThreeAddress.Body.Basic

/-!
Building and changing function bodies. Placing an instruction records its parent block in its cell;
edges are recorded at both ends.
-/

set_option autoImplicit false

namespace ThreeAddress.Body

def addBlock (body : Body) : Except Fault (Block × Body) := do
  let (block, blocks) ← body.blocks.push {}
  return (block, { body with blocks := blocks })

-- Note a successor at the source of an edge only.
def addSucc (body : Body) (source target : Block) : Except Fault Body := do
  let blocks ← body.blocks.modify source fun data => { data with succs := data.succs ++ [target] }
  return { body with blocks := blocks }

def addPred (body : Body) (target source : Block) : Except Fault Body := do
  let blocks ← body.blocks.modify target fun data => { data with preds := data.preds ++ [source] }
  return { body with blocks := blocks }

def addEdge (body : Body) (source target : Block) : Except Fault Body := do
  let body ← body.addSucc source target
  body.addPred target source

def popSucc (body : Body) (block : Block) : Except Fault (Option Block × Body) := do
  let data ← body.blocks.get block
  return (data.succs.getLast?,
    { body with blocks := body.blocks.put block { data with succs := data.succs.dropLast } })

def popPred (body : Body) (block : Block) : Except Fault (Option Block × Body) := do
  let data ← body.blocks.get block
  return (data.preds.getLast?,
    { body with blocks := body.blocks.put block { data with preds := data.preds.dropLast } })

def addVar (body : Body) (name : Option String) : Except Fault (Var × Body) := do
  let (var, vars) ← body.vars.push name
  return (var, { body with vars := vars })

def addInst (body : Body) (operation : Operation) : Except Fault (Inst × Body) := do
  let (inst, cells) ← body.cells.push { operation := operation }
  return (inst, { body with cells := cells })

def setOperation (body : Body) (inst : Inst) (operation : Operation) : Except Fault Body := do
  let cells ← body.cells.modify inst fun cell => { cell with operation := operation }
  return { body with cells := cells }

def setMark (body : Body) (inst : Inst) (mark : Bool) : Except Fault Body := do
  let cells ← body.cells.modify inst fun cell => { cell with mark := mark }
  return { body with cells := cells }

def editChain (body : Body) (block : Block)
    (edit : Chain → Cells → Except Fault (Chain × Cells)) : Except Fault Body := do
  let data ← body.blocks.get block
  let (chain, cells) ← edit data.chain body.cells
  return { body with blocks := body.blocks.put block { data with chain := chain }, cells := cells }

def adopt (body : Body) (block : Block) (inst : Inst) : Except Fault Body := do
  let cells ← body.cells.modify inst fun cell => { cell with block := block }
  return { body with cells := cells }

def append (body : Body) (block : Block) (inst : Inst) : Except Fault Body := do
  let body ← body.editChain block (·.append · inst)
  body.adopt block inst

def prepend (body : Body) (block : Block) (inst : Inst) : Except Fault Body := do
  let body ← body.editChain block (·.prepend · inst)
  body.adopt block inst

def appendChain (body : Body) (block : Block) (chain : Chain) : Except Fault Body := do
  let insts ← chain.members body.cells
  let body ← insts.foldlM (fun body inst => body.adopt block inst) body
  body.editChain block (·.concat · chain)

def insertBefore (body : Body) (member inst : Inst) : Except Fault Body := do
  let block := (← body.cells.get member).block
  let body ← body.editChain block (·.insertBefore · member inst)
  body.adopt block inst

def unlink (body : Body) (inst : Inst) : Except Fault Body := do
  let block := (← body.cells.get inst).block
  body.editChain block (·.unlink · inst)

-- Move an instruction to the end of a block, but ahead of the block's terminator.
def moveBeforeTerminator (body : Body) (inst : Inst) (block : Block) : Except Fault Body := do
  let body ← body.unlink inst
  match ← body.terminator? block with
  | some last => body.insertBefore last inst
  | none => body.append block inst

def removeMarkedFrom (body : Body) : List Block → Except Fault (Body × Nat)
  | [] => .ok (body, 0)
  | block :: rest => do
      let data ← body.blocks.get block
      let (chain, cells, count) ← data.chain.removeMarked body.cells
      let blocks := body.blocks.put block { data with chain := chain }
      let (body, more) ← removeMarkedFrom { body with blocks := blocks, cells := cells } rest
      return (body, count + more)

def removeMarked (body : Body) : Except Fault (Body × Nat) :=
  body.removeMarkedFrom body.blocks.refs

end ThreeAddress.Body
