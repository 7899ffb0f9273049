/-!
Operators on 64-bit integers. Arithmetic wraps; a division that has no result traps.
-/

set_option autoImplicit false

namespace ThreeAddress

inductive BinaryOperator where
  | add
  | sub
  | mul
  | div
deriving DecidableEq, Repr

namespace BinaryOperator

-- The result, or nothing where the division traps: by zero, or of the least integer by -1.
def eval? : BinaryOperator → Int64 → Int64 → Option Int64
  | add, a, b => some (a + b)
  | sub, a, b => some (a - b)
  | mul, a, b => some (a * b)
  | div, a, b => if b = 0 ∨ (a = Int64.minValue ∧ b = -1) then none else some (a / b)

def isCommutative : BinaryOperator → Bool
  | add | mul => true
  | sub | div => false

def canTrap : BinaryOperator → Bool
  | div => true
  | add | sub | mul => false

def symbol : BinaryOperator → String
  | add => "+"
  | sub => "-"
  | mul => "*"
  | div => "/"

theorem eval_comm (op : BinaryOperator) (a b : Int64) (commutes : op.isCommutative = true) :
    op.eval? a b = op.eval? b a := by
  cases op with
  | add => exact congrArg some (Int64.add_comm a b)
  | mul => exact congrArg some (Int64.mul_comm a b)
  | sub => exact Bool.noConfusion commutes
  | div => exact Bool.noConfusion commutes

end BinaryOperator

inductive Relation where
  | eq
  | ne
  | lt
  | le
  | gt
  | ge
deriving DecidableEq, Repr

namespace Relation

def holds : Relation → Int64 → Int64 → Bool
  | eq, a, b => a == b
  | ne, a, b => a != b
  | lt, a, b => a < b
  | le, a, b => a ≤ b
  | gt, a, b => b < a
  | ge, a, b => b ≤ a

def symbol : Relation → String
  | eq => "=="
  | ne => "!="
  | lt => "<"
  | le => "<="
  | gt => ">"
  | ge => ">="

end Relation

inductive UnaryOperator where
  | neg
  | not
deriving DecidableEq, Repr

namespace UnaryOperator

def eval : UnaryOperator → Int64 → Int64
  | neg, a => -a
  | not, a => if a = 0 then 1 else 0

def symbol : UnaryOperator → String
  | neg => "-"
  | not => "!"

end UnaryOperator

end ThreeAddress
