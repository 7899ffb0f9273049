import ThreeAddress.Dataflow.Meet
import ThreeAddress.Dataflow.Solver

/-!
Constants: variables that hold one and the same value on every path to a point. Where paths join,
the bindings that all agree on stay.
-/

set_option autoImplicit false

namespace ThreeAddress

abbrev ConstFact := Bindings Var Int64

namespace Constants

def operand? (fact : ConstFact) : Operand → Option Int64
  | .lit value => some value
  | .var name => fact.get? name

def eval? (fact : ConstFact) : Operation → Option Int64
  | .assign _ src => operand? fact src
  | .binary op _ lhs rhs => do
      let a ← operand? fact lhs
      let b ← operand? fact rhs
      op.eval? a b
  | .unary op _ src => (operand? fact src).map op.eval
  | _ => none

-- After an operation, its destination is bound to the value written, and a store or call unbinds the variables that
-- live in memory.
def step (pinned : OrderedSet Var) (_ : Inst) (operation : Operation) (fact : ConstFact) :
    ConstFact :=
  let written := match operation.def? with
    | some dst => fact.set dst (eval? fact operation)
    | none => fact
  if operation.clobbersMemory then pinned.toList.foldl (fun fact var => fact.set var none) written
  else written

def analysis (pinned : OrderedSet Var) (body : Body) : Analysis ConstFact where
  direction := .forward
  tag := 0xcc
  init := .top
  boundary := .nothing
  merge := Bindings.meet
  same := (· == ·)
  transfer := body.transferCode .forward (step pinned)

end Constants

def Body.constantAnalysis (body : Body) : Except Fault (Analysis ConstFact) := do
  let pinned ← body.addressTaken
  return Constants.analysis pinned body

end ThreeAddress
