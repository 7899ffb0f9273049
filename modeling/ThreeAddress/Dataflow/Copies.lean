import ThreeAddress.Dataflow.Meet
import ThreeAddress.Dataflow.Solver

/-!
Reaching copies: which moves between variables still hold at a point. A copy holds if every path to
the point has executed it and has not written either of its variables since. A store or call may
write any variable that lives in memory.
-/

set_option autoImplicit false

namespace ThreeAddress

structure Copy where
  inst : Inst
  dst : Var
  src : Var
deriving DecidableEq

def Copy.mentions (copy : Copy) (var : Var) : Bool := copy.dst == var || copy.src == var

structure Copies where
  list : List Copy
  pinned : OrderedSet Var
  all : OrderedSet Inst

namespace Copies

def find? (copies : Copies) (inst : Inst) : Option Copy := copies.list.find? (·.inst == inst)

-- What to use in place of a variable: the source of a copy into it that holds.
def source? (copies : Copies) (holding : OrderedSet Inst) (var : Var) : Option Var :=
  (copies.list.find? fun copy => copy.dst == var && holding.contains copy.inst).map Copy.src

def kill (copies : Copies) (which : Copy → Bool) (holding : OrderedSet Inst) : OrderedSet Inst :=
  holding.eraseMany ((copies.list.filter which).map Copy.inst)

def inMemory (copies : Copies) (copy : Copy) : Bool :=
  copies.pinned.contains copy.dst || copies.pinned.contains copy.src

def step (copies : Copies) (inst : Inst) (operation : Operation) (holding : OrderedSet Inst) :
    OrderedSet Inst :=
  let unwritten := match operation.def? with
    | some dst => copies.kill (·.mentions dst) holding
    | none => holding
  let kept := if operation.clobbersMemory then copies.kill copies.inMemory unwritten else unwritten
  if (copies.find? inst).isSome then kept.adding inst else kept

def analysis (copies : Copies) (body : Body) : Analysis (OrderedSet Inst) where
  direction := .forward
  tag := 0xc0
  init := copies.all
  boundary := .empty
  merge := Meet.intersection.apply
  same := (· == ·)
  transfer := body.transferCode .forward copies.step

end Copies

-- The copies of a body. No instruction may be listed twice.
def Body.copies (body : Body) : Except Fault Copies := do
  let pinned ← body.addressTaken
  let insts ← body.placed
  let list := insts.filterMap fun inst =>
    ((body.operation? inst).bind Operation.copy?).map fun (dst, src) => ⟨inst, dst, src⟩
  let all := OrderedSet.ofList (list.map Copy.inst)
  if all.size < list.length then throw .notAscending
  return ⟨list, pinned, all⟩

end ThreeAddress
