import ThreeAddress.Proofs.Execution.Rewrites
import ThreeAddress.Proofs.Optimizer.Rewrites

/-!
Local value numbering changes no run. All that the table says is true of the machine, through redefinitions, swapped
operands and overwritten memory, so what it puts in place of an operation computes the same.
-/

set_option autoImplicit false

namespace ThreeAddress

namespace Expr

def value? (machine : Machine) : Expr → Option Int64
  | .binary op lhs rhs => op.eval? (machine.value lhs) (machine.value rhs)
  | .unary op src => some (op.eval (machine.value src))

theorem value_congr (machine after : Machine) (expr : Expr)
    (same : ∀ var, expr.mentions var = true → after.env var = machine.env var) : expr.value? after = expr.value? machine := by
  have operand (src : Operand) (mentioned : ∀ var, src = .var var → expr.mentions var = true) :
      after.value src = machine.value src := by
    cases src with
    | lit value => rfl
    | var name => exact same name (mentioned name rfl)
  cases expr with
  | binary op lhs rhs =>
    rw [value?, value?, operand lhs fun var is => by simp [mentions, is], operand rhs fun var is => by simp [mentions, is]]
  | unary op src => rw [value?, value?, operand src fun var is => by simp [mentions, is]]

theorem step_of (around : Surroundings) (machine : Machine) (operation : Operation) (expr : Expr) (dst : Var)
    (computes : of? operation = some expr) (defines : operation.def? = some dst) (value : Int64)
    (held : expr.value? machine = some value) : machine.step around operation = ([], some (machine.assign dst value)) := by
  cases operation with
  | binary op place lhs rhs =>
    cases defines
    have result : op.eval? (machine.value lhs) (machine.value rhs) = some value := by
      rw [of?] at computes
      split at computes
      · rename_i swaps
        cases computes
        rw [← held, value?, BinaryOperator.eval_comm op _ _ (Bool.and_eq_true_iff.mp swaps).1]
      · cases computes
        exact held
    simp only [Machine.step, result]
  | unary op place src =>
    cases defines
    cases computes
    cases held
    rfl
  | _ => cases computes

theorem value_of (around : Surroundings) (machine after : Machine) (operation : Operation) (expr : Expr) (dst : Var)
    (computes : of? operation = some expr) (defines : operation.def? = some dst)
    (went : (machine.step around operation).2 = some after) : expr.value? machine = some (after.env dst) := by
  cases operation with
  | binary op place lhs rhs =>
    cases defines
    have result : expr.value? machine = op.eval? (machine.value lhs) (machine.value rhs) := by
      rw [of?] at computes
      split at computes
      · rename_i swaps
        cases computes
        rw [value?, BinaryOperator.eval_comm op _ _ (Bool.and_eq_true_iff.mp swaps).1]
      · cases computes
        rfl
    simp only [Machine.step] at went
    split at went
    · rename_i value found
      cases went
      rw [result, found, Machine.assign_here]
    · cases went
  | unary op place src =>
    cases defines
    cases computes
    cases went
    rw [value?, Machine.assign_here]
  | _ => cases computes

end Expr

namespace ValueTable

structure Holds (table : ValueTable) (machine : Machine) : Prop where
  consts : ∀ var value, (var, value) ∈ table.consts → machine.env var = value
  exprs : ∀ expr var, (expr, var) ∈ table.exprs → expr.value? machine = some (machine.env var)

theorem mem_of_lookup {κ ν : Type} [BEq κ] [LawfulBEq κ] (entries : List (κ × ν)) (key : κ) (value : ν)
    (found : entries.lookup key = some value) : (key, value) ∈ entries := by
  obtain ⟨front, back, split, _⟩ := List.lookup_eq_some_iff.mp found
  rw [split]
  exact List.mem_append_right front List.mem_cons_self

theorem forget_holds (table : ValueTable) (machine after : Machine) (holds : table.Holds machine) (var : Var)
    (same : ∀ other, other ≠ var → after.env other = machine.env other) : (table.forget var).Holds after := by
  constructor
  · intro other value member
    obtain ⟨known, apart⟩ := List.mem_filter.mp member
    rw [same other (by simpa using apart)]
    exact holds.consts other value known
  · intro expr other member
    obtain ⟨known, apart⟩ := List.mem_filter.mp member
    obtain ⟨different, unmentioned⟩ := Bool.and_eq_true_iff.mp apart
    rw [same other (by simpa using different), ← holds.exprs expr other known]
    apply Expr.value_congr
    intro mentioned mentions
    apply same
    intro is
    rw [is] at mentions
    simp [mentions] at unmentioned

theorem forget_many_holds (vars : List Var) (table : ValueTable) (machine after : Machine) (holds : table.Holds machine)
    (same : ∀ other, other ∉ vars → after.env other = machine.env other) : (vars.foldl forget table).Holds after := by
  induction vars generalizing table machine with
  | nil =>
    have equal : after.env = machine.env := funext fun other => same other List.not_mem_nil
    constructor
    · intro var value member
      rw [equal]
      exact holds.consts var value member
    · intro expr var member
      rw [equal, ← holds.exprs expr var member]
      exact Expr.value_congr machine after expr fun other _ => congrFun equal other
  | cons var rest ih =>
    have first := forget_holds table machine (machine.assign var (after.env var)) holds var fun other apart =>
      Machine.assign_elsewhere machine var other _ apart
    apply ih _ _ first
    intro other outside
    by_cases here : other = var
    · rw [here, Machine.assign_here]
    · rw [Machine.assign_elsewhere _ _ _ _ here]
      exact same other fun member => (List.mem_cons.mp member).elim here outside

theorem bind_const_holds (table : ValueTable) (machine : Machine) (holds : table.Holds machine) (var : Var) (value : Int64)
    (held : machine.env var = value) : (table.bindConst var value).Holds machine := by
  refine ⟨fun other found member => ?_, holds.exprs⟩
  rcases List.mem_cons.mp member with same | known
  · cases same
    exact held
  · exact holds.consts other found (List.mem_filter.mp known).1

theorem bind_expr_holds (table : ValueTable) (machine : Machine) (holds : table.Holds machine) (expr : Expr) (var : Var)
    (held : expr.value? machine = some (machine.env var)) : (table.bindExpr expr var).Holds machine := by
  refine ⟨holds.consts, fun other found member => ?_⟩
  rcases List.mem_cons.mp member with same | known
  · cases same
    exact held
  · exact holds.exprs other found (List.mem_filter.mp known).1

section Advance

variable (around : Surroundings) (table : ValueTable) (machine after : Machine)

-- The expression is still worth what the destination got, since it does not mention the destination.
theorem learn_expr_holds (operation : Operation) (dst : Var) (defines : operation.def? = some dst)
    (went : (machine.step around operation).2 = some after) (unclobbered : operation.clobbersMemory = false)
    (holds : table.Holds after) (expr : Expr) (computes : Expr.of? operation = some expr) :
    (if expr.mentions dst then table else table.bindExpr expr dst).Holds after := by
  by_cases mentions : expr.mentions dst = true
  · rwa [if_pos mentions]
  rw [if_neg mentions]
  apply bind_expr_holds table after holds
  rw [← Expr.value_of around machine after operation expr dst computes defines went]
  apply Expr.value_congr
  intro var mentioned
  apply Machine.step_elsewhere around machine after operation went var
  · intro written
    rw [defines] at written
    cases written
    exact mentions mentioned
  · intro clobbers
    rw [unclobbered] at clobbers
    cases clobbers

theorem learn_holds (operation : Operation) (dst : Var) (defines : operation.def? = some dst)
    (went : (machine.step around operation).2 = some after) (unclobbered : operation.clobbersMemory = false)
    (holds : table.Holds after) : (table.learn dst operation).Holds after := by
  have general := learn_expr_holds around table machine after operation dst defines went unclobbered holds
  cases operation with
  | assign place src =>
    cases src with
    | lit literal =>
      cases defines
      cases went
      exact bind_const_holds table _ holds dst literal (Machine.assign_here machine dst literal)
    | var name =>
      simp only [learn]
      split
      · exact general _ ‹_›
      · exact holds
  | _ =>
    simp only [learn]
    split
    · exact general _ ‹_›
    · exact holds

variable (pinned : OrderedSet Var) (within : around.Within pinned) (holds : table.Holds machine)

include within holds

theorem store_holds (addr src : Operand) (went : (machine.step around (.store addr src)).2 = some after) :
    (pinned.toList.foldl forget table).Holds after := by
  apply forget_many_holds pinned.toList table machine after holds
  intro var outside
  exact Machine.step_elsewhere around machine after _ went var (by simp [Operation.def?])
    fun _ => outside_memory around pinned within var outside

theorem call_holds (dst : Var) (function : String) (went : (machine.step around (.call dst function)).2 = some after) :
    (pinned.toList.foldl forget (table.forget dst)).Holds after := by
  apply forget_many_holds pinned.toList _ (machine.assign dst (after.env dst))
  · exact forget_holds table machine _ holds dst fun other apart => Machine.assign_elsewhere machine dst other _ apart
  · intro var outside
    by_cases here : var = dst
    · rw [here, Machine.assign_here]
    · rw [Machine.assign_elsewhere _ _ _ _ here]
      apply Machine.step_elsewhere around machine after _ went var
      · exact fun same => here (Option.some.inj same).symm
      · exact fun _ => outside_memory around pinned within var outside

omit within in
theorem undisturbed_holds (operation : Operation) (went : (machine.step around operation).2 = some after)
    (unclobbered : operation.clobbersMemory = false) :
    (match operation.def? with
      | none => table
      | some dst => if pinned.contains dst then table.forget dst else (table.forget dst).learn dst operation).Holds after := by
  have elsewhere (var : Var) (unwritten : operation.def? ≠ some var) : after.env var = machine.env var :=
    Machine.step_elsewhere around machine after operation went var unwritten fun clobbers => by
      rw [unclobbered] at clobbers
      cases clobbers
  cases defines : operation.def? with
  | none =>
    apply forget_many_holds [] table machine after holds
    intro var _
    apply elsewhere var
    rw [defines]
    exact Option.some_ne_none var |>.symm
  | some dst =>
    have forgotten := forget_holds table machine after holds dst fun other apart => elsewhere other fun written => by
      rw [defines] at written
      exact apart (Option.some.inj written).symm
    by_cases inMemory : pinned.contains dst = true
    · simp only [inMemory, if_true]
      exact forgotten
    · simp only [inMemory]
      exact learn_holds around _ machine after operation dst defines went unclobbered forgotten

theorem advance_holds (operation : Operation) (went : (machine.step around operation).2 = some after) :
    (table.advance pinned operation).Holds after := by
  rw [advance]
  by_cases clobbers : operation.clobbersMemory = true
  · -- Stores write no variable, and nothing is learned from a call.
    rw [if_pos clobbers]
    cases operation with
    | store addr src => exact store_holds around table machine after pinned within holds addr src went
    | call dst function =>
      have written : (if pinned.contains dst then table.forget dst else (table.forget dst).learn dst (.call dst function)) =
          table.forget dst := ite_self _
      simp only [Operation.def?, written]
      exact call_holds around table machine after pinned within holds dst function went
    | _ => cases clobbers
  · rw [if_neg clobbers]
    exact undisturbed_holds around table machine after pinned holds operation went (Bool.eq_false_iff.mpr clobbers)

end Advance

theorem simplify_step (around : Surroundings) (table : ValueTable) (machine : Machine) (holds : table.Holds machine)
    (operation replacement : Operation) (simplified : table.simplify? operation = some replacement) :
    machine.step around replacement = machine.step around operation := by
  rw [simplify?] at simplified
  split at simplified
  · rename_i dst value folded
    cases simplified
    cases operation with
    | binary op place lhs rhs =>
      cases lhs <;> cases rhs <;> simp [fold?] at folded
      obtain ⟨result, rfl⟩ := folded
      simp only [Machine.step, Machine.value, result]
    | unary op place src =>
      cases src <;> simp [fold?] at folded
      obtain ⟨rfl, rfl⟩ := folded
      rfl
    | _ => cases folded
  · simp only [Option.bind_eq_bind, Option.bind_eq_some_iff] at simplified
    obtain ⟨dst, defines, expr, computes, holder, known, made⟩ := simplified
    split at made
    · cases made
    · cases made
      rw [Expr.step_of around machine operation expr dst computes defines _
        (holds.exprs expr holder (mem_of_lookup table.exprs expr holder known))]
      rfl

theorem step_unseen (around : Surroundings) (pinned : OrderedSet Var) (within : around.Within pinned) (inst : Inst)
    (operation : Operation) : EditUnseen around (step pinned) Holds inst operation := by
  intro table tally machine holds
  have bound (var : Var) (value : Int64) (known : table.const? var = some value) : machine.env var = value :=
    holds.consts var value (mem_of_lookup table.consts var value known)
  have same := Machine.step_simplify around machine table.const? table.simplify? bound (simplify_step around table machine holds)
    tally operation
  constructor
  · exact same
  · intro after went
    rw [← same] at went
    exact advance_holds around table machine after pinned within holds _ went

end ValueTable

namespace Body

theorem numbered_runs (body : Body) (accepted : body.check = .ok ()) (around : Surroundings) (pinned : OrderedSet Var)
    (within : around.Within pinned) (other : Body)
    (edited : CodeEdited (ValueTable.step pinned) (fun _ => some {}) body other) : body.RunsAs other around := by
  apply edited_runs body other accepted around _ _ edited ValueTable.Holds
  · exact fun _ inst operation _ => ValueTable.step_unseen around pinned within inst operation
  · intro env path block machine _ _ table begins
    cases begins
    exact ⟨fun _ _ member => (List.not_mem_nil member).elim, fun _ _ member => (List.not_mem_nil member).elim⟩

theorem value_numbering_preserves_runs (body : Body) (accepted : body.check = .ok ()) (fuel : Fuel) :
    ∃ pinned tally numbered, body.addressTaken = .ok pinned ∧ body.numberValues fuel = .ok (tally, numbered) ∧
      body.SameFrame numbered ∧ ∀ around : Surroundings, around.Within pinned → body.RunsAs numbered around := by
  obtain ⟨pinned, tally, numbered, taken, done, edited⟩ := number_values_edits body accepted fuel
  exact ⟨pinned, tally, numbered, taken, done, edited.frame,
    fun around within => numbered_runs body accepted around pinned within numbered edited⟩

-- The same quotient three times, with a store in between that may overwrite the divisor.
def repeating : Body where
  name := "repeating"
  entry := .nth 0
  blocks := .ofList [{ chain := ⟨.nth 0, .nth 7, 8⟩ }]
  cells := .ofList [
    { operation := .param (.nth 0), block := .nth 0, next := .nth 1 },
    { operation := .param (.nth 1), block := .nth 0, prev := .nth 0, next := .nth 2 },
    { operation := .addrOf (.nth 2) (.nth 1), block := .nth 0, prev := .nth 1, next := .nth 3 },
    { operation := .binary .div (.nth 3) (.var (.nth 0)) (.var (.nth 1)), block := .nth 0, prev := .nth 2, next := .nth 4 },
    { operation := .binary .div (.nth 4) (.var (.nth 0)) (.var (.nth 1)), block := .nth 0, prev := .nth 3, next := .nth 5 },
    { operation := .store (.var (.nth 2)) (.var (.nth 4)), block := .nth 0, prev := .nth 4, next := .nth 6 },
    { operation := .binary .div (.nth 4) (.var (.nth 0)) (.var (.nth 1)), block := .nth 0, prev := .nth 5, next := .nth 7 },
    { operation := .ret (.var (.nth 4)), block := .nth 0, prev := .nth 6 }]
  vars := .ofList [some "a", some "b", some "p", some "x", some "y"]

theorem repeating_numbers_values : repeating.check = .ok () ∧
    ∃ tally numbered, repeating.numberValues .infinite = .ok (tally, numbered) ∧
      numbered.operation? (.nth 4) = some (.assign (.nth 4) (.var (.nth 3))) ∧
      numbered.operation? (.nth 6) = repeating.operation? (.nth 6) ∧
      ∀ around : Surroundings, around.Within (.ofList [.nth 1]) → repeating.RunsAs numbered around := by
  have accepted : repeating.check = .ok () := by rfl
  obtain ⟨pinned, tally, numbered, taken, done, _, runs⟩ := value_numbering_preserves_runs repeating accepted .infinite
  have memory : repeating.addressTaken = .ok (.ofList [.nth 1]) := by rfl
  cases memory.symm.trans taken
  have rewritten : (repeating.numberValues .infinite).toOption.map
      (fun after => (after.2.operation? (.nth 4), after.2.operation? (.nth 6))) =
      some (some (.assign (.nth 4) (.var (.nth 3))), repeating.operation? (.nth 6)) := by decide +kernel
  rw [done] at rewritten
  obtain ⟨second, third⟩ := Prod.mk.inj (Option.some.inj rewritten)
  exact ⟨accepted, tally, numbered, done, second, third, runs⟩

end Body

end ThreeAddress
