import ThreeAddress.Proofs.Dataflow.Budget
import ThreeAddress.Proofs.Optimizer.EditCode

/-!
The three passes that rewrite operations in place: they never fail, and each replaces operands, or arithmetic
by an assignment to the same variable.
-/

set_option autoImplicit false

namespace ThreeAddress

namespace Tally

theorem replace_holds (holds : Operation → Prop) (tally : Tally) (operation : Operation) (replacement? : Option Operation)
    (before : holds operation) (after : ∀ replacement, replacement? = some replacement → holds replacement) :
    holds (tally.replace operation replacement?).2 := by
  cases replacement? with
  | none => exact before
  | some replacement =>
    by_cases granted : tally.pay.1 = true
    · simp only [replace, granted, if_true]
      exact after replacement rfl
    · simp only [replace, granted]
      exact before

end Tally

theorem ValueTable.keeps_simplify (table : ValueTable) (operation replacement : Operation)
    (simplified : table.simplify? operation = some replacement) : operation.Keeps replacement := by
  rw [simplify?] at simplified
  split at simplified
  · rename_i dst value folded
    cases simplified
    cases operation with
    | binary op place lhs rhs =>
      apply Operation.keeps_assign _ _ _ rfl
      cases lhs <;> cases rhs <;> simp [fold?] at folded
      exact congrArg some folded.2
    | unary op place src =>
      apply Operation.keeps_assign _ _ _ rfl
      cases src <;> simp [fold?] at folded
      exact congrArg some folded.1
    | _ => cases folded
  · simp only [Option.bind_eq_bind, Option.bind_eq_some_iff] at simplified
    obtain ⟨dst, defines, expr, computes, holder, _, made⟩ := simplified
    split at made
    · cases made
    · cases made
      apply Operation.keeps_assign _ _ _ _ defines
      cases operation <;> first | rfl | cases computes

theorem ValueTable.step_keeps (pinned : OrderedSet Var) (table : ValueTable) (tally : Tally) (inst : Inst) (operation : Operation) :
    operation.Keeps (step pinned table tally inst operation).2.2 := by
  let substituted := operation.updateUses (Tally.substitute fun var => (table.const? var).map .lit) tally
  have replaced := Tally.replace_holds substituted.2.Keeps substituted.1 substituted.2 (table.simplify? substituted.2)
    (Operation.keeps_refl _) (ValueTable.keeps_simplify table substituted.2)
  exact Operation.keeps_trans _ _ _ (Operation.keeps_update_uses _ tally operation) replaced

theorem Constants.keeps_fold (fact : ConstFact) (operation replacement : Operation)
    (folded : fold? fact operation = some replacement) : operation.Keeps replacement := by
  cases operation with
  | binary op dst lhs rhs =>
    obtain ⟨value, _, made⟩ := Option.map_eq_some_iff.mp folded
    exact made ▸ Operation.keeps_assign _ dst _ rfl rfl
  | unary op dst src =>
    obtain ⟨value, _, made⟩ := Option.map_eq_some_iff.mp folded
    exact made ▸ Operation.keeps_assign _ dst _ rfl rfl
  | _ => cases folded

theorem Constants.step_keeps (pinned : OrderedSet Var) (fact : ConstFact) (tally : Tally) (inst : Inst) (operation : Operation) :
    operation.Keeps (editStep pinned fact tally inst operation).2.2 := by
  let substituted := operation.updateUses (Tally.substitute fun var => (fact.get? var).map .lit) tally
  have replaced := Tally.replace_holds substituted.2.Keeps substituted.1 substituted.2 (fold? fact substituted.2)
    (Operation.keeps_refl _) (Constants.keeps_fold fact substituted.2)
  exact Operation.keeps_trans _ _ _ (Operation.keeps_update_uses _ tally operation) replaced

theorem Copies.step_keeps (copies : Copies) (holding : OrderedSet Inst) (tally : Tally) (inst : Inst) (operation : Operation) :
    operation.Keeps (copies.editStep holding tally inst operation).2.2 := by
  rw [editStep]
  by_cases copy : (copies.find? inst).isSome = true
  · simp only [copy, if_true]
    exact Operation.keeps_refl operation
  · simp only [copy]
    exact Operation.keeps_update_uses _ tally operation

def Operand.outline : Operand → Operand
  | lit value => lit value
  | var _ => var .invalid

def Operation.outline (operation : Operation) : Operation :=
  (operation.updateUses (fun (_ : Unit) operand => ((), operand.outline)) ()).2

theorem Operation.outline_update_uses {σ : Type} (f : σ → Operand → σ × Operand)
    (same : ∀ state operand, (f state operand).2.outline = operand.outline) (state : σ) (operation : Operation) :
    (operation.updateUses f state).2.outline = operation.outline := by
  cases operation <;> simp only [outline, updateUses, same]

theorem Tally.outline_substitute (source? : Var → Option Var) (tally : Tally) (operand : Operand) :
    (tally.substitute (fun var => (source? var).map Operand.var) operand).2.outline = operand.outline := by
  rw [substitute]
  cases found : operand.var?.bind fun var => (source? var).map Operand.var with
  | none => rfl
  | some replacement =>
    obtain ⟨var, names, replaces⟩ := Option.bind_eq_some_iff.mp found
    obtain ⟨src, _, made⟩ := Option.map_eq_some_iff.mp replaces
    by_cases granted : tally.pay.1 = true
    · simp only [granted, if_true]
      cases operand with
      | lit value => cases names
      | var name => exact made ▸ rfl
    · simp only [granted]
      rfl

theorem Copies.step_outline (copies : Copies) (holding : OrderedSet Inst) (tally : Tally) (inst : Inst) (operation : Operation) :
    (copies.editStep holding tally inst operation).2.2.outline = operation.outline ∧
      ((copies.find? inst).isSome = true → (copies.editStep holding tally inst operation).2.2 = operation) := by
  rw [editStep]
  by_cases copy : (copies.find? inst).isSome = true
  · simp only [copy, if_true]
    exact ⟨trivial, fun _ => trivial⟩
  · simp only [copy]
    constructor
    · exact Operation.outline_update_uses _ (fun tally operand => Tally.outline_substitute _ tally operand) tally operation
    · exact fun impossible => Bool.noConfusion impossible

namespace Body

-- Bodies apart in the variables that some of these instructions read, and in nothing else.
structure VariablesOnly (body other : Body) (among : Inst → Prop) : Prop extends OperationsOnly body other where
  operands : ∀ inst operation, body.operation? inst = some operation →
    ∃ now, other.operation? inst = some now ∧ now.outline = operation.outline ∧ (now ≠ operation → among inst)

variable (body : Body) (accepted : body.check = .ok ()) (fuel : Fuel)

include accepted

theorem number_values_edits : ∃ pinned left other, body.addressTaken = .ok pinned ∧
    body.numberValues fuel = .ok (left, other) ∧
    CodeEdited (ValueTable.step pinned) (fun _ => some {}) body other := by
  obtain ⟨pinned, taken, _⟩ := address_taken_total body body.layout (well_formed_of_check body accepted).laid
  obtain ⟨left, other, done, edited⟩ := edit_code_edits (ValueTable.step pinned) (fun _ => some {}) body accepted fuel
  refine ⟨pinned, left, other, taken, ?_, edited⟩
  rw [numberValues, taken]
  exact done

def knownAt (facts : BlockFacts ConstFact) (block : Block) : Option ConstFact :=
  (facts.atEntry.get? block).filter fun fact => !fact.isTop

omit accepted in
theorem propagate_constants_eq (pinned : OrderedSet Var) (facts : BlockFacts ConstFact) (taken : body.addressTaken = .ok pinned)
    (found : body.analyze (Constants.analysis pinned body) = .ok facts) :
    body.propagateConstants fuel = body.editCode fuel (Constants.editStep pinned) (knownAt facts) := by
  rw [propagateConstants, taken]
  simp only [bind, Except.bind, found]
  rfl

theorem propagate_constants_edits : ∃ pinned facts left other, body.addressTaken = .ok pinned ∧
    body.Solved (Constants.analysis pinned body) (Bindings.Over body.definedScope) Bindings.le facts ∧
    body.propagateConstants fuel = .ok (left, other) ∧
    CodeEdited (Constants.editStep pinned) (knownAt facts) body other := by
  obtain ⟨pinned, taken, _⟩ := address_taken_total body body.layout (well_formed_of_check body accepted).laid
  obtain ⟨facts, solved⟩ := constants_solved body accepted pinned
  obtain ⟨left, other, done, edited⟩ := edit_code_edits (Constants.editStep pinned) (knownAt facts) body accepted fuel
  exact ⟨pinned, facts, left, other, taken, solved,
    (propagate_constants_eq body fuel pinned facts taken solved.found).trans done, edited⟩

def holdingAt (order : FlowOrder) (facts : BlockFacts (OrderedSet Inst)) (block : Block) : Option (OrderedSet Inst) :=
  if order.isReachable block then facts.atEntry.get? block else none

theorem propagate_copies_edits : ∃ copies facts order left other, body.copies = .ok copies ∧ CopiesOf body body.layout copies ∧
    body.Solved (copies.analysis body) (OrderedSet.Over copies.all.toList) (Meet.le .intersection) facts ∧
    order.Describes body ∧ body.propagateCopies fuel = .ok (left, other) ∧
    CodeEdited copies.editStep (holdingAt order facts) body other := by
  have wellFormed := well_formed_of_check body accepted
  obtain ⟨copies, facts, found, copiesOf, solved⟩ := copies_solved body accepted
  obtain ⟨order, ordered, describes⟩ := flow_order_total body wellFormed.edges wellFormed.entry
  obtain ⟨left, other, done, edited⟩ := edit_code_edits copies.editStep (holdingAt order facts) body accepted fuel
  refine ⟨copies, facts, order, left, other, found, copiesOf, solved, describes, ?_, edited⟩
  rw [propagateCopies, found]
  simp only [bind, Except.bind, solved.found, ordered]
  exact done

theorem copies_variables (copies : Copies) (facts : BlockFacts (OrderedSet Inst)) (order : FlowOrder)
    (describes : order.Describes body) (other : Body) (edited : CodeEdited copies.editStep (holdingAt order facts) body other) :
    body.VariablesOnly other fun inst =>
      copies.find? inst = none ∧ ∃ block, body.Reaches body.entry block ∧ inst ∈ body.layout block := by
  have laid := (well_formed_of_check body accepted).laid
  refine ⟨edited.rest, fun inst operation found => ?_⟩
  obtain ⟨now, foundNow, change⟩ := operation_edited _ _ body other accepted edited
    (fun inst old new => new.outline = old.outline ∧ ((copies.find? inst).isSome = true → new = old))
    copies.step_outline inst operation found
  refine ⟨now, foundNow, ?_⟩
  rcases change with same | ⟨⟨outline, tracked⟩, block, member, begins⟩
  · exact ⟨congrArg _ same, fun differs => (differs same).elim⟩
  · refine ⟨outline, fun differs => ?_⟩
    have untracked : copies.find? inst = none :=
      Option.not_isSome_iff_eq_none.mp fun found => differs (tracked found)
    have reached : order.isReachable block = true := by
      by_contra unreached
      simp only [holdingAt, unreached] at begins
      cases begins
    have inside := placed_inside body body.layout laid block inst member
    exact ⟨untracked, block, (describes.reachable block inside).mp reached, member⟩

omit accepted in
theorem copies_kept (copies : Copies) (copiesOf : CopiesOf body body.layout copies) (other : Body) (among : Inst → Prop)
    (renamed : body.VariablesOnly other among) (untracked : ∀ inst, among inst → copies.find? inst = none) (copy : Copy)
    (listed : copy ∈ copies.list) : other.operation? copy.inst = body.operation? copy.inst := by
  obtain ⟨operation, found, _⟩ := Option.bind_eq_some_iff.mp ((copiesOf.listed copy).mp listed).2
  obtain ⟨now, foundNow, _, only⟩ := renamed.operands copy.inst operation found
  have same : now = operation := by
    by_contra differs
    have missing := List.find?_eq_none.mp (untracked copy.inst (only differs)) copy listed
    exact missing (beq_self_eq_true copy.inst)
  rw [foundNow, found, same]

variable (unmarked : body.Unmarked)

include unmarked

theorem number_values_keeps : body.PassKeeps (body.numberValues fuel) := by
  obtain ⟨pinned, left, other, _, done, edited⟩ := number_values_edits body accepted fuel
  exact ⟨left, other, done, edited_keeps _ _ body other accepted unmarked edited (ValueTable.step_keeps pinned)⟩

theorem propagate_constants_keeps : body.PassKeeps (body.propagateConstants fuel) := by
  obtain ⟨pinned, facts, left, other, _, _, done, edited⟩ := propagate_constants_edits body accepted fuel
  exact ⟨left, other, done, edited_keeps _ _ body other accepted unmarked edited (Constants.step_keeps pinned)⟩

theorem propagate_copies_keeps : body.PassKeeps (body.propagateCopies fuel) := by
  obtain ⟨copies, facts, order, left, other, _, _, _, _, done, edited⟩ := propagate_copies_edits body accepted fuel
  exact ⟨left, other, done, edited_keeps _ _ body other accepted unmarked edited (Copies.step_keeps copies)⟩

end Body

end ThreeAddress
