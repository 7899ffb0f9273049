import ThreeAddress.Operator
import ThreeAddress.Ref

/-!
Three-address operations: what an instruction does, what it reads and writes, and where it jumps.
-/

set_option autoImplicit false

namespace ThreeAddress

inductive Operand where
  | lit (value : Int64)
  | var (name : Var)
deriving DecidableEq

namespace Operand

def var? : Operand → Option Var
  | var name => some name
  | lit _ => none

end Operand

-- Jumps name the label instruction they go to; the invalid reference stands for a target that is still to be filled in.
inductive Operation where
  | label
  | assign (dst : Var) (src : Operand)
  | binary (op : BinaryOperator) (dst : Var) (lhs rhs : Operand)
  | unary (op : UnaryOperator) (dst : Var) (src : Operand)
  | addrOf (dst place : Var)
  | load (dst : Var) (addr : Operand)
  | store (addr src : Operand)
  | goto (target : Inst)
  | branch (rel : Relation) (lhs rhs : Operand) (target : Inst)
  | ret (src : Operand)
  | declare (place : Var) (size : Nat)
  | arg (src : Operand)
  | call (dst : Var) (function : String)
  | param (dst : Var)
  | read (dst : Var)
  | write (src : Operand)
deriving DecidableEq

namespace Operation

def def? : Operation → Option Var
  | assign dst _ | binary _ dst _ _ | unary _ dst _ | addrOf dst _ | load dst _ | call dst _
  | param dst | read dst => some dst
  | label | store _ _ | goto _ | branch _ _ _ _ | ret _ | declare _ _ | arg _ | write _ => none

-- The operands that are read. Taking an address reads nothing.
def uses : Operation → List Operand
  | assign _ src | unary _ _ src | ret src | arg src | write src => [src]
  | binary _ _ lhs rhs | branch _ lhs rhs _ => [lhs, rhs]
  | load _ addr => [addr]
  | store addr src => [addr, src]
  | label | addrOf _ _ | goto _ | declare _ _ | call _ _ | param _ | read _ => []

def updateUses {σ : Type} (f : σ → Operand → σ × Operand) (state : σ) : Operation → σ × Operation
  | assign dst src => let (state, src) := f state src; (state, assign dst src)
  | unary op dst src => let (state, src) := f state src; (state, unary op dst src)
  | ret src => let (state, src) := f state src; (state, ret src)
  | arg src => let (state, src) := f state src; (state, arg src)
  | write src => let (state, src) := f state src; (state, write src)
  | binary op dst lhs rhs =>
      let (state, lhs) := f state lhs
      let (state, rhs) := f state rhs
      (state, binary op dst lhs rhs)
  | branch rel lhs rhs target =>
      let (state, lhs) := f state lhs
      let (state, rhs) := f state rhs
      (state, branch rel lhs rhs target)
  | load dst addr => let (state, addr) := f state addr; (state, load dst addr)
  | store addr src =>
      let (state, addr) := f state addr
      let (state, src) := f state src
      (state, store addr src)
  | operation => (state, operation)

def usedVars (operation : Operation) : List Var := operation.uses.filterMap Operand.var?

-- Destination and source of a move between two different variables.
def copy? : Operation → Option (Var × Var)
  | assign dst (.var src) => if dst = src then none else some (dst, src)
  | _ => none

def jumpTarget? : Operation → Option Inst
  | goto target | branch _ _ _ target => some target
  | _ => none

def retarget? (target : Inst) : Operation → Option Operation
  | goto _ => some (goto target)
  | branch rel lhs rhs _ => some (branch rel lhs rhs target)
  | _ => none

def isLabel : Operation → Bool
  | label => true
  | _ => false

def isTerminator : Operation → Bool
  | goto _ | branch _ _ _ _ | ret _ => true
  | _ => false

def isPure : Operation → Bool
  | assign _ _ | binary _ _ _ _ | unary _ _ _ | addrOf _ _ | load _ _ => true
  | _ => false

-- May fail when run: an access to memory, or a division unless its divisor is a literal other than 0 and -1.
def canTrap : Operation → Bool
  | binary op _ _ rhs =>
      op.canTrap && match rhs with
        | .lit value => value == 0 || value == -1
        | .var _ => true
  | load _ _ | store _ _ => true
  | _ => false

def clobbersMemory : Operation → Bool
  | store _ _ | call _ _ => true
  | _ => false

-- The variable that the operation puts into memory, by taking its address or reserving storage.
def pinned? : Operation → Option Var
  | addrOf _ place | declare place _ => some place
  | _ => none

theorem jump_target_retarget (target : Inst) (operation patched : Operation)
    (jumps : operation.retarget? target = some patched) : patched.jumpTarget? = some target := by
  cases operation <;> simp [retarget?] at jumps <;> subst jumps <;> rfl

theorem retarget_is_some_iff (target : Inst) (operation : Operation) :
    (operation.retarget? target).isSome = operation.jumpTarget?.isSome := by
  cases operation <;> rfl

end Operation

end ThreeAddress
