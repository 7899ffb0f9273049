import ThreeAddress.Arena

/-!
Depth-first search with an explicit stack. Blocks are listed when they are left, so the entry comes
last; successors are tried in the order in which they are listed.
-/

set_option autoImplicit false

namespace ThreeAddress

-- The zero that sums of sizes start from, whatever algebra is imported beside them.
abbrev plainZero : Zero Nat := Zero.ofOfNat0

attribute [local instance] plainZero

namespace Postorder

structure Frame where
  block : Block
  untried : List Block

-- Work through the stack: `seen` are the blocks entered so far, `left` those left so far, the latest first.
def visit (graph : Arena .block (List Block)) :
    Nat → List Frame → SideTable .block Bool → List Block → Except Fault (List Block)
  | _, [], _, left => .ok left.reverse
  | 0, _ :: _, _, _ => .error .endless
  | steps + 1, ⟨block, []⟩ :: stack, seen, left => visit graph steps stack seen (block :: left)
  | steps + 1, ⟨block, succ :: untried⟩ :: stack, seen, left =>
      if seen.read succ then visit graph steps (⟨block, untried⟩ :: stack) seen left
      else do
        let succs ← graph.get succ
        visit graph steps (⟨succ, succs⟩ :: ⟨block, untried⟩ :: stack) (seen.write succ true) left

-- Every block is entered once, and each of its edges is tried once.
def steps (graph : Arena .block (List Block)) : Nat :=
  (graph.toList.map fun succs => succs.length + 1).sum

def compute (graph : Arena .block (List Block)) (entry : Block) : Except Fault (List Block) := do
  let succs ← graph.get entry
  visit graph (steps graph) [⟨entry, succs⟩] ((SideTable.blank false).write entry true) []

end Postorder

end ThreeAddress
