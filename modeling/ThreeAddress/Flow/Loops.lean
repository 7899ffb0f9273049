import ThreeAddress.Flow.Dominance

/-!
Natural loops. A back edge leads to a block that dominates its source; the loop of its target, the
header, holds every block that reaches the source without passing the header. Loops with one header
are one loop.
-/

set_option autoImplicit false

attribute [local instance] ThreeAddress.plainZero

namespace ThreeAddress

structure Loop where
  header : Block
  latches : List Block
  blocks : OrderedSet Block

namespace Loop

def contains (loop : Loop) (block : Block) : Bool := loop.blocks.contains block

def exits (loop : Loop) (body : Body) : List (Block × Block) :=
  loop.blocks.toList.flatMap fun block =>
    ((body.succs block).filter fun succ => !loop.contains succ).map (block, ·)

-- The one block outside that enters the loop, if it flows to the header only: code at its end runs just before the loop
-- does.
def preheader? (loop : Loop) (body : Body) : Option Block :=
  match (body.preds loop.header).filter fun pred => !loop.contains pred with
  | [] => none
  | pre :: others =>
      if others.all (· == pre) && (body.succs pre).all (· == loop.header) then some pre else none

-- Add blocks to a set, and with each reachable new one its predecessors.
def grow (body : Body) (order : FlowOrder) :
    Nat → List Block → OrderedSet Block → OrderedSet Block
  | _, [], blocks => blocks
  | 0, _ :: _, blocks => blocks
  | steps + 1, block :: stack, blocks =>
      if order.isReachable block && !blocks.contains block then
        grow body order steps ((body.preds block).reverse ++ stack) (blocks.adding block)
      else grow body order steps stack blocks

-- Each block enters the set once, and brings its predecessors once.
def growSteps (body : Body) : Nat :=
  (body.blocks.toList.map fun data => data.preds.length).sum + 1

end Loop

namespace Body

-- The back edges, source first: sources in reverse postorder, targets as they are listed.
def backEdges (body : Body) (dominance : Dominance) : List (Block × Block) :=
  dominance.order.rpo.toList.flatMap fun latch =>
    ((body.succs latch).filter fun header => dominance.dominates header latch).map (latch, ·)

def extendLoop (body : Body) (order : FlowOrder) (loops : OrderedMap Block Loop)
    (edge : Block × Block) : OrderedMap Block Loop :=
  let (latch, header) := edge
  let loop := (loops.get? header).getD ⟨header, [], .ofList [header]⟩
  let blocks := Loop.grow body order (Loop.growSteps body) [latch] loop.blocks
  (loops.insert header { loop with latches := loop.latches ++ [latch], blocks := blocks }).1

def insertBySize (loop : Loop) : List Loop → List Loop
  | [] => [loop]
  | other :: rest =>
      if loop.blocks.size < other.blocks.size then loop :: other :: rest
      else other :: insertBySize loop rest

def loops (body : Body) (dominance : Dominance) : List Loop :=
  let byHeader := (body.backEdges dominance).foldl (body.extendLoop dominance.order) .empty
  byHeader.values.foldl (fun sorted loop => insertBySize loop sorted) []

def loopOf? (loops : List Loop) (block : Block) : Option Loop := loops.find? (·.contains block)

end Body

end ThreeAddress
