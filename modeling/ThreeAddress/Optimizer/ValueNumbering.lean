import ThreeAddress.Optimizer.Step

/-!
Local value numbering. Within a block, known literals are substituted, operations on literals are
folded, and an expression that a variable still holds is not computed again.
-/

set_option autoImplicit false

namespace ThreeAddress

inductive Expr where
  | binary (op : BinaryOperator) (lhs rhs : Operand)
  | unary (op : UnaryOperator) (src : Operand)
deriving DecidableEq

namespace Expr

def precedes : Operand → Operand → Bool
  | .lit a, .lit b => a < b
  | .lit _, .var _ => true
  | .var _, .lit _ => false
  | .var a, .var b => compare a b == .lt

-- The expression that an operation computes. Operands that may be swapped are put in order.
def of? : Operation → Option Expr
  | .binary op _ lhs rhs =>
      if op.isCommutative && precedes rhs lhs then some (.binary op rhs lhs)
      else some (.binary op lhs rhs)
  | .unary op _ src => some (.unary op src)
  | _ => none

def mentions (var : Var) : Expr → Bool
  | binary _ lhs rhs => lhs == .var var || rhs == .var var
  | unary _ src => src == .var var

end Expr

-- What is known at a point of a block: the literals that variables hold, and the variables that hold the results of
-- expressions.
structure ValueTable where
  consts : List (Var × Int64) := []
  exprs : List (Expr × Var) := []

namespace ValueTable

def const? (table : ValueTable) (var : Var) : Option Int64 := table.consts.lookup var

def holder? (table : ValueTable) (expr : Expr) : Option Var := table.exprs.lookup expr

-- Drop all that a write to the variable makes untrue.
def forget (table : ValueTable) (var : Var) : ValueTable where
  consts := table.consts.filter fun entry => entry.1 != var
  exprs := table.exprs.filter fun entry => entry.2 != var && !entry.1.mentions var

def bindConst (table : ValueTable) (var : Var) (value : Int64) : ValueTable :=
  { table with consts := (var, value) :: table.consts.filter fun entry => entry.1 != var }

def bindExpr (table : ValueTable) (expr : Expr) (var : Var) : ValueTable :=
  { table with exprs := (expr, var) :: table.exprs.filter fun entry => entry.1 != expr }

def learn (table : ValueTable) (dst : Var) (operation : Operation) : ValueTable :=
  match operation with
  | .assign _ (.lit value) => table.bindConst dst value
  | operation =>
      match Expr.of? operation with
      | some expr => if expr.mentions dst then table else table.bindExpr expr dst
      | none => table

-- The table after an operation. Nothing is learned about variables that live in memory, and a store or call makes all
-- that is known about them untrue.
def advance (pinned : OrderedSet Var) (operation : Operation) (table : ValueTable) : ValueTable :=
  let written := match operation.def? with
    | none => table
    | some dst =>
        let table := table.forget dst
        if pinned.contains dst then table else table.learn dst operation
  if operation.clobbersMemory then pinned.toList.foldl forget written else written

def fold? : Operation → Option (Var × Int64)
  | .binary op dst (.lit a) (.lit b) => (op.eval? a b).map (dst, ·)
  | .unary op dst (.lit a) => some (dst, op.eval a)
  | _ => none

-- A plain assignment with the same effect: of the value, or of another variable that holds it.
def simplify? (table : ValueTable) (operation : Operation) : Option Operation :=
  match fold? operation with
  | some (dst, value) => some (.assign dst (.lit value))
  | none => do
      let dst ← operation.def?
      let expr ← Expr.of? operation
      let holder ← table.holder? expr
      if holder = dst then none else some (.assign dst (.var holder))

def step (pinned : OrderedSet Var) : Body.Step ValueTable := fun table tally _ operation =>
  let (tally, operation) :=
    operation.updateUses (Tally.substitute fun var => (table.const? var).map .lit) tally
  let (tally, operation) := tally.replace operation (table.simplify? operation)
  (table.advance pinned operation, tally, operation)

end ValueTable

def Body.numberValues (body : Body) (fuel : Fuel) : Except Fault (Tally × Body) := do
  let pinned ← body.addressTaken
  body.editCode fuel (ValueTable.step pinned) fun _ => some {}

end ThreeAddress
