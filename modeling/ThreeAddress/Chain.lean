import ThreeAddress.Arena
import ThreeAddress.Operation

/-!
Instruction lists threaded through the arena. The cells of the arena carry the links; a chain is the
two ends and the length of one list, and every operation takes the cells along. A chain is sound
when walking from its head visits as many cells as it counts, ends at its tail, and every link back
undoes a link forward.
-/

set_option autoImplicit false

namespace ThreeAddress

-- An instruction in the arena: what it does, whether it is marked for removal, the block it records as its parent, and
-- its links.
structure Cell where
  operation : Operation
  mark : Bool := false
  block : Block := .invalid
  prev : Inst := .invalid
  next : Inst := .invalid
deriving DecidableEq

abbrev Cells := Arena .inst Cell

structure Chain where
  head : Inst := .invalid
  tail : Inst := .invalid
  size : Nat := 0
deriving DecidableEq

namespace Chain

def empty : Chain := {}

def isEmpty (chain : Chain) : Bool := chain.size = 0

def forward (cells : Cells) : Nat → Inst → Except Fault (List Inst)
  | 0, _ => .ok []
  | count + 1, inst => do
      let cell ← cells.get inst
      let rest ← forward cells count cell.next
      return inst :: rest

def backward (cells : Cells) : Nat → Inst → Except Fault (List Inst)
  | 0, _ => .ok []
  | count + 1, inst => do
      let cell ← cells.get inst
      let rest ← backward cells count cell.prev
      return inst :: rest

def members (chain : Chain) (cells : Cells) : Except Fault (List Inst) :=
  forward cells chain.size chain.head

def membersRev (chain : Chain) (cells : Cells) : Except Fault (List Inst) :=
  backward cells chain.size chain.tail

def append (chain : Chain) (cells : Cells) (inst : Inst) : Except Fault (Chain × Cells) := do
  let cells ← cells.modify inst fun cell => { cell with prev := chain.tail, next := .invalid }
  match chain.tail with
  | .invalid => return (⟨inst, inst, chain.size + 1⟩, cells)
  | tail =>
      let cells ← cells.modify tail fun cell => { cell with next := inst }
      return (⟨chain.head, inst, chain.size + 1⟩, cells)

def prepend (chain : Chain) (cells : Cells) (inst : Inst) : Except Fault (Chain × Cells) := do
  let cells ← cells.modify inst fun cell => { cell with prev := .invalid, next := chain.head }
  match chain.head with
  | .invalid => return (⟨inst, inst, chain.size + 1⟩, cells)
  | head =>
      let cells ← cells.modify head fun cell => { cell with prev := inst }
      return (⟨inst, chain.tail, chain.size + 1⟩, cells)

def insertBefore (chain : Chain) (cells : Cells) (member inst : Inst) :
    Except Fault (Chain × Cells) := do
  let prev := (← cells.get member).prev
  let cells ← cells.modify inst fun cell => { cell with prev := prev, next := member }
  let cells ← cells.modify member fun cell => { cell with prev := inst }
  match prev with
  | .invalid => return (⟨inst, chain.tail, chain.size + 1⟩, cells)
  | prev =>
      let cells ← cells.modify prev fun cell => { cell with next := inst }
      return (⟨chain.head, chain.tail, chain.size + 1⟩, cells)

-- Make what precedes a gap lead on to what follows it.
def closeForward (chain : Chain) (cells : Cells) (prev next : Inst) : Except Fault (Chain × Cells) :=
  match prev with
  | .invalid => .ok ({ chain with head := next }, cells)
  | prev => do
      let cells ← cells.modify prev fun cell => { cell with next := next }
      return (chain, cells)

def closeBackward (chain : Chain) (cells : Cells) (prev next : Inst) : Except Fault (Chain × Cells) :=
  match next with
  | .invalid => .ok ({ chain with tail := prev }, cells)
  | next => do
      let cells ← cells.modify next fun cell => { cell with prev := prev }
      return (chain, cells)

-- Detach a member. It keeps its cell, with links and parent cleared.
def unlink (chain : Chain) (cells : Cells) (inst : Inst) : Except Fault (Chain × Cells) := do
  let gone ← cells.get inst
  let (chain, cells) ← chain.closeForward cells gone.prev gone.next
  let (chain, cells) ← chain.closeBackward cells gone.prev gone.next
  let cells ← cells.modify inst fun cell =>
    { cell with prev := .invalid, next := .invalid, block := .invalid }
  match chain.size with
  | 0 => throw .underflow
  | size + 1 => return ({ chain with size := size }, cells)

def concat (chain : Chain) (cells : Cells) (back : Chain) : Except Fault (Chain × Cells) :=
  if back.isEmpty then .ok (chain, cells)
  else match chain.tail with
    | .invalid => .ok (back, cells)
    | tail => do
        let cells ← cells.modify tail fun cell => { cell with next := back.head }
        let cells ← cells.modify back.head fun cell => { cell with prev := tail }
        return (⟨chain.head, back.tail, chain.size + back.size⟩, cells)

-- The number of instructions from here to the end of the links. More steps than there are cells would be a walk in a
-- circle.
def countFrom (cells : Cells) : Nat → Inst → Except Fault Nat
  | _, .invalid => .ok 0
  | 0, _ => .error .endless
  | steps + 1, inst => do
      let cell ← cells.get inst
      let rest ← countFrom cells steps cell.next
      return rest + 1

-- Cut the chain in front of a member: what precedes it, and the chain that starts at it.
def splitOff (chain : Chain) (cells : Cells) (start : Inst) :
    Except Fault (Chain × Chain × Cells) := do
  let count ← countFrom cells (cells.size + 1) start
  let suffix : Chain := ⟨start, chain.tail, count⟩
  let prev := (← cells.get start).prev
  let (front, cells) ← match prev with
    | .invalid => pure (⟨.invalid, .invalid, chain.size⟩, cells)
    | prev => do
        let cells ← cells.modify prev fun cell => { cell with next := .invalid }
        let cells ← cells.modify start fun cell => { cell with prev := .invalid }
        pure ({ chain with tail := prev }, cells)
  if chain.size < count then throw .underflow
  else return ({ front with size := chain.size - count }, suffix, cells)

def unlinkAll (chain : Chain) (cells : Cells) : List Inst → Except Fault (Chain × Cells)
  | [] => .ok (chain, cells)
  | inst :: rest => do
      let (chain, cells) ← chain.unlink cells inst
      let cells ← cells.modify inst fun cell => { cell with mark := false }
      chain.unlinkAll cells rest

def isMarked (cells : Cells) (inst : Inst) : Bool := (cells.get? inst).any Cell.mark

def removeMarked (chain : Chain) (cells : Cells) : Except Fault (Chain × Cells × Nat) := do
  let members ← chain.members cells
  let marked := members.filter (isMarked cells)
  let (chain, cells) ← chain.unlinkAll cells marked
  return (chain, cells, marked.length)

-- Follow the links forward, checking that each leads back and that each member records the block as its parent, unless
-- the block is invalid: the last member and the number of members.
def follow (cells : Cells) (block : Block) : Nat → Nat → Inst → Inst → Except Defect (Inst × Nat)
  | _, count, prev, .invalid => .ok (prev, count)
  | 0, _, _, inst => .error (.brokenLink block inst)
  | steps + 1, count, prev, inst =>
      match cells.get? inst with
      | none => .error (.brokenLink block inst)
      | some cell =>
          if cell.prev ≠ prev then .error (.brokenLink block inst)
          else if block.isValid = true ∧ cell.block ≠ block then
            .error (.wrongParent inst block cell.block)
          else follow cells block steps (count + 1) inst cell.next

def defect? (chain : Chain) (cells : Cells) (block : Block) : Option Defect :=
  match follow cells block (cells.size + 1) 0 .invalid chain.head with
  | .error defect => some defect
  | .ok (last, count) =>
      if last ≠ chain.tail then some (.brokenLink block chain.tail)
      else if count ≠ chain.size then some (.listLength block chain.size count)
      else none

end Chain

-- A walk over a chain from both ends at once.
structure Walk where
  front : Inst
  back : Inst
  remaining : Nat

namespace Walk

def next (cells : Cells) (walk : Walk) : Except Fault (Option Inst × Walk) :=
  match walk.remaining with
  | 0 => .ok (none, walk)
  | remaining + 1 => do
      let cell ← cells.get walk.front
      return (some walk.front, ⟨cell.next, walk.back, remaining⟩)

def nextBack (cells : Cells) (walk : Walk) : Except Fault (Option Inst × Walk) :=
  match walk.remaining with
  | 0 => .ok (none, walk)
  | remaining + 1 => do
      let cell ← cells.get walk.back
      return (some walk.back, ⟨walk.front, cell.prev, remaining⟩)

end Walk

def Chain.walk (chain : Chain) : Walk := ⟨chain.head, chain.tail, chain.size⟩

end ThreeAddress
