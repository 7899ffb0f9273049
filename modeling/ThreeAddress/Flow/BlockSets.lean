import ThreeAddress.Dataflow.Analysis
import ThreeAddress.Dataflow.Meet

/-!
Analyses whose facts are sets of blocks. Each looks at whole blocks: a block adds itself to the set
that comes in, and sets combine where paths join.
-/

set_option autoImplicit false

namespace ThreeAddress.Body

def allBlocks (body : Body) : OrderedSet Block := .ofAscending body.blocks.refs

def blockSets (direction : Direction) (tag : Nat) (meet : Meet) (init boundary : OrderedSet Block) :
    Analysis (OrderedSet Block) where
  direction := direction
  tag := tag
  init := init
  boundary := boundary
  merge := meet.apply
  same := (· == ·)
  transfer := fun block fact => fact.adding block

def dominatorAnalysis (body : Body) : Analysis (OrderedSet Block) :=
  blockSets .forward 0xd0 .intersection body.allBlocks (.ofList [body.entry])

def postdominatorAnalysis (body : Body) : Analysis (OrderedSet Block) :=
  blockSets .backward 0x90d .intersection body.allBlocks .empty

-- The blocks that some path to here has passed.
def ancestorAnalysis : Analysis (OrderedSet Block) :=
  blockSets .forward 0x7e57 .union .empty .empty

end ThreeAddress.Body
