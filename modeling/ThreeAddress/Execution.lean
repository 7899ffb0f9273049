import ThreeAddress.Body.Basic

/-!
What code does when it is run. Variables hold 64-bit integers. Whatever the code cannot know, such
as input, the results of calls and what memory holds after a store, is answered by the surroundings,
one answer at a time. A run shows events; it ends early at a division that has no result.
-/

set_option autoImplicit false

namespace ThreeAddress

inductive Event where
  | read (value : Int64)
  | param (value : Int64)
  | load (address : Int64)
  | store (address value : Int64)
  | call (function : String)
  | arg (value : Int64)
  | write (value : Int64)
  | branch (lhs rhs : Int64) (taken : Bool)
  | ret (value : Int64)
  -- A division had no result, and the run is over.
  | trap
deriving DecidableEq, Repr

-- The value that was asked for, and what the variables in memory hold from now on.
structure Answer where
  value : Int64
  memory : Var → Int64

structure Surroundings where
  address : Var → Int64
  inMemory : OrderedSet Var
  answer : Nat → Answer

structure Machine where
  env : Var → Int64
  asked : Nat := 0

namespace Machine

def value (machine : Machine) : Operand → Int64
  | .lit value => value
  | .var name => machine.env name

def assign (machine : Machine) (dst : Var) (value : Int64) : Machine :=
  { machine with env := fun name => if name = dst then value else machine.env name }

def ask (machine : Machine) : Machine := { machine with asked := machine.asked + 1 }

def clobber (machine : Machine) (around : Surroundings) (memory : Var → Int64) : Machine :=
  { machine with env := fun name => if around.inMemory.contains name then memory name else machine.env name }

-- What one operation shows, and the machine after it unless the run is over.
def step (around : Surroundings) (machine : Machine) : Operation → List Event × Option Machine
  | .label | .goto _ | .declare _ _ => ([], some machine)
  | .assign dst src => ([], some (machine.assign dst (machine.value src)))
  | .binary op dst lhs rhs =>
      match op.eval? (machine.value lhs) (machine.value rhs) with
      | some result => ([], some (machine.assign dst result))
      | none => ([.trap], none)
  | .unary op dst src => ([], some (machine.assign dst (op.eval (machine.value src))))
  | .addrOf dst place => ([], some (machine.assign dst (around.address place)))
  | .load dst addr =>
      ([.load (machine.value addr)], some (machine.ask.assign dst (around.answer machine.asked).value))
  | .store addr src =>
      ([.store (machine.value addr) (machine.value src)],
        some (machine.ask.clobber around (around.answer machine.asked).memory))
  | .branch rel lhs rhs _ =>
      let (a, b) := (machine.value lhs, machine.value rhs)
      ([.branch a b (rel.holds a b)], some machine)
  | .ret src => ([.ret (machine.value src)], some machine)
  | .arg src => ([.arg (machine.value src)], some machine)
  | .call dst function =>
      let answer := around.answer machine.asked
      ([.call function], some ((machine.ask.clobber around answer.memory).assign dst answer.value))
  | .param dst =>
      let value := (around.answer machine.asked).value
      ([.param value], some (machine.ask.assign dst value))
  | .read dst =>
      let value := (around.answer machine.asked).value
      ([.read value], some (machine.ask.assign dst value))
  | .write src => ([.write (machine.value src)], some machine)

def run (around : Surroundings) (machine : Machine) : List Operation → List Event × Option Machine
  | [] => ([], some machine)
  | operation :: rest =>
      match machine.step around operation with
      | (shown, none) => (shown, none)
      | (shown, some after) =>
          let (more, last) := run around after rest
          (shown ++ more, last)

theorem assign_here (machine : Machine) (dst : Var) (value : Int64) :
    (machine.assign dst value).env dst = value := if_pos rfl

theorem assign_elsewhere (machine : Machine) (dst other : Var) (value : Int64) (different : other ≠ dst) :
    (machine.assign dst value).env other = machine.env other := if_neg different

theorem step_of_not_can_trap (around : Surroundings) (machine : Machine) (operation : Operation)
    (safe : operation.canTrap = false) : (machine.step around operation).2.isSome = true := by
  cases operation with
  | binary op dst lhs rhs =>
    have result : (op.eval? (machine.value lhs) (machine.value rhs)).isSome = true := by
      cases op with
      | div =>
        cases rhs with
        | var name => simp [Operation.canTrap, BinaryOperator.canTrap] at safe
        | lit divisor =>
          simp only [Operation.canTrap, BinaryOperator.canTrap, Bool.true_and, Bool.or_eq_false_iff,
            beq_eq_false_iff_ne, ne_eq] at safe
          simp [BinaryOperator.eval?, value, safe.1, safe.2]
      | add => rfl
      | sub => rfl
      | mul => rfl
    obtain ⟨held, found⟩ := Option.isSome_iff_exists.1 result
    simp [step, found]
  | _ => rfl

theorem run_append (around : Surroundings) (machine : Machine) (front back : List Operation) :
    machine.run around (front ++ back) =
      match machine.run around front with
      | (shown, none) => (shown, none)
      | (shown, some after) => (shown ++ (after.run around back).1, (after.run around back).2) := by
  induction front generalizing machine with
  | nil => simp [run]
  | cons operation rest ih =>
    simp only [List.cons_append, run]
    split
    · rfl
    · rename_i shown after _
      rw [ih after]
      split <;> simp_all
end Machine

namespace Body

def operationsAlong (body : Body) (path : List Block) : List Operation :=
  path.flatMap fun block => (body.code block).map Prod.snd

def trace (body : Body) (around : Surroundings) (env : Var → Int64) (path : List Block) : List Event :=
  (Machine.run around ⟨env, 0⟩ (body.operationsAlong path)).1

end Body

end ThreeAddress
