import ThreeAddress.Dataflow.Analysis
import ThreeAddress.Flow.Order

/-!
The worklist solver. Blocks wait in a queue, first come first served and none twice; a visit
recomputes both facts of a block and, if the outgoing one changed, queues the blocks that read it.
One worklist may serve many solves, one after the other.
-/

set_option autoImplicit false

attribute [local instance] ThreeAddress.plainZero

namespace ThreeAddress

-- The blocks that wait, and the set of them that tells whether a block waits already.
structure Worklist where
  queue : List Block := []
  queued : List Block := []

namespace Worklist

def push (work : Worklist) (block : Block) : Worklist :=
  if work.queued.contains block then work
  else { queue := work.queue ++ [block], queued := block :: work.queued }

def pop? (work : Worklist) : Option (Block × Worklist) :=
  match work.queue with
  | [] => none
  | block :: queue => some (block, { queue := queue, queued := work.queued.erase block })

def clear (work : Worklist) : Worklist := { work with queue := [], queued := [] }

end Worklist

structure SolveStats where
  visits : Nat := 0
  updates : Nat := 0
deriving DecidableEq, Repr

namespace Solver

variable {φ : Type}

structure Working (ω φ : Type) where
  queue : ω
  facts : BlockFacts φ
  stats : SolveStats

def incoming (analysis : Analysis φ) (body : Body) (facts : BlockFacts φ) (block : Block) : φ :=
  match analysis.direction with
  | .forward =>
      let start := if block = body.entry then analysis.boundary else analysis.init
      (body.preds block).foldl
        (fun fact pred => (analysis.merge fact ((facts.atExit.get? pred).getD analysis.init)).1) start
  | .backward =>
      let start := if (body.succs block).isEmpty then analysis.boundary else analysis.init
      (body.succs block).foldl
        (fun fact succ => (analysis.merge fact ((facts.atEntry.get? succ).getD analysis.init)).1) start

def outgoing (analysis : Analysis φ) (facts : BlockFacts φ) (block : Block) : φ :=
  match analysis.direction with
  | .forward => (facts.atExit.get? block).getD analysis.init
  | .backward => (facts.atEntry.get? block).getD analysis.init

def readers (analysis : Analysis φ) (body : Body) (block : Block) : List Block :=
  match analysis.direction with
  | .forward => body.succs block
  | .backward => body.preds block

def storeIncoming (analysis : Analysis φ) (facts : BlockFacts φ) (block : Block) (fact : φ) :
    BlockFacts φ :=
  match analysis.direction with
  | .forward => { facts with atEntry := facts.atEntry.put block fact }
  | .backward => { facts with atExit := facts.atExit.put block fact }

def storeOutgoing (analysis : Analysis φ) (facts : BlockFacts φ) (block : Block) (fact : φ) :
    BlockFacts φ :=
  match analysis.direction with
  | .forward => { facts with atExit := facts.atExit.put block fact }
  | .backward => { facts with atEntry := facts.atEntry.put block fact }

def visitWith {ω : Type} (push : ω → Block → ω) (analysis : Analysis φ) (body : Body) (block : Block)
    (state : Working ω φ) : Working ω φ :=
  let input := incoming analysis body state.facts block
  let output := analysis.transfer block input
  let facts := storeIncoming analysis state.facts block input
  let visits := state.stats.visits + 1
  if analysis.same output (outgoing analysis facts block) then
    { state with facts := facts, stats := ⟨visits, state.stats.updates⟩ }
  else
    { queue := (readers analysis body block).foldl push state.queue
      facts := storeOutgoing analysis facts block output
      stats := ⟨visits, state.stats.updates + 1⟩ }

-- Visit blocks until none waits, or give up when the budget of visits is spent.
def settle (analysis : Analysis φ) (body : Body) :
    Nat → Working Worklist φ → Option (Working Worklist φ)
  | 0, state => if state.queue.queue.isEmpty then some state else none
  | budget + 1, state =>
      match state.queue.pop? with
      | none => some state
      | some (block, work) =>
          settle analysis body budget
            (visitWith Worklist.push analysis body block { state with queue := work })

def seedOrder (analysis : Analysis φ) (body : Body) (order : FlowOrder) : List Block :=
  let reachable := match analysis.direction with
    | .forward => order.rpo.toList
    | .backward => order.postorder
  reachable ++ body.blocks.refs.filter fun block => !order.isReachable block

-- Far more visits than facts over the blocks, variables and instructions of the body can take to settle: each edge is
-- followed once for every time that a fact at its source can fall.
def budget (body : Body) : Nat :=
  let edges := (body.blocks.toList.map fun data => data.succs.length).sum
  Nat.pow (body.blocks.size + edges + body.cells.size + 4) 4

end Solver

namespace Body

variable {φ : Type}

def prepare (body : Body) (analysis : Analysis φ) (facts : BlockFacts φ) : Except Fault FlowOrder := do
  body.check
  if facts.tag ≠ analysis.tag then throw .foreignFacts
  let blocks := body.blocks.size
  if facts.atEntry.size ≠ blocks ∨ facts.atExit.size ≠ blocks then
    throw (.factCount facts.atEntry.size facts.atExit.size blocks)
  body.flowOrder

-- Iterate an analysis to a fixed point from the facts given, in so many visits at most, on a worklist that is cleared
-- first.
def solveOn (body : Body) (work : Worklist) (budget : Nat) (analysis : Analysis φ)
    (facts : BlockFacts φ) : Except Fault (Worklist × BlockFacts φ × SolveStats) := do
  let order ← body.prepare analysis facts
  let seeded := (Solver.seedOrder analysis body order).foldl Worklist.push work.clear
  match Solver.settle analysis body budget ⟨seeded, facts, {}⟩ with
  | some state => return (state.queue, state.facts, state.stats)
  | none => throw .endless

def solveNext (body : Body) (work : Worklist) (analysis : Analysis φ) (facts : BlockFacts φ) :
    Except Fault (Worklist × BlockFacts φ × SolveStats) :=
  body.solveOn work (Solver.budget body) analysis facts

def solveWithin (body : Body) (budget : Nat) (analysis : Analysis φ) (facts : BlockFacts φ) :
    Except Fault (BlockFacts φ × SolveStats) := do
  let (_, solved, stats) ← body.solveOn {} budget analysis facts
  return (solved, stats)

def solve (body : Body) (analysis : Analysis φ) (facts : BlockFacts φ) :
    Except Fault (BlockFacts φ × SolveStats) :=
  body.solveWithin (Solver.budget body) analysis facts

def analyze (body : Body) (analysis : Analysis φ) : Except Fault (BlockFacts φ) := do
  let (facts, _) ← body.solve analysis (.initial analysis body)
  return facts

end Body

end ThreeAddress
