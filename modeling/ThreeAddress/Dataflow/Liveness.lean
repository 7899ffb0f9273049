import ThreeAddress.Dataflow.Meet
import ThreeAddress.Dataflow.Solver

/-!
Liveness: a variable is live at a point if some path from there reads it before writing it.
-/

set_option autoImplicit false

namespace ThreeAddress

namespace Liveness

def step (_ : Inst) (operation : Operation) (live : OrderedSet Var) : OrderedSet Var :=
  let kept := match operation.def? with
    | some dst => live.removing dst
    | none => live
  kept.insertMany operation.usedVars

end Liveness

namespace Body

def livenessAnalysis (body : Body) : Analysis (OrderedSet Var) where
  direction := .backward
  tag := 0x1e
  init := .empty
  boundary := .empty
  merge := Meet.union.apply
  same := (· == ·)
  transfer := body.transferCode .backward Liveness.step

def liveness (body : Body) : Except Fault (BlockFacts (OrderedSet Var)) :=
  body.analyze body.livenessAnalysis

end Body

def BlockFacts.liveIn (facts : BlockFacts (OrderedSet Var)) (block : Block) : OrderedSet Var :=
  (facts.atEntry.get? block).getD .empty

def BlockFacts.liveOut (facts : BlockFacts (OrderedSet Var)) (block : Block) : OrderedSet Var :=
  (facts.atExit.get? block).getD .empty

end ThreeAddress
