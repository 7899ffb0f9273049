import ThreeAddress.Proofs.Dataflow.Resolving
import ThreeAddress.Proofs.Optimizer.Structure

/-!
Bodies that one edit sets apart. All instructions but one keep their operations, blocks and order; that one reads another
operand, or is an assignment in place of arithmetic, or is no longer placed, or is placed in another block.
-/

set_option autoImplicit false

namespace ThreeAddress

namespace Operation

def withUse (operation : Operation) (index : Nat) (operand : Operand) : Operation :=
  (operation.updateUses (fun place current => (place + 1, if place = index then operand else current)) 0).2

def OneOperand (old new : Operation) : Prop :=
  ∃ index before operand, old.uses[index]? = some before ∧ before ≠ operand ∧ new = old.withUse index operand

def BecomesAssign (old new : Operation) : Prop :=
  old.isArithmetic = true ∧ ∃ dst src, old.def? = some dst ∧ new = .assign dst src

def Rewritten (old new : Operation) : Prop := old.OneOperand new ∨ old.BecomesAssign new

theorem update_uses_cases (operation : Operation) :
    (∀ (f : Tally → Operand → Tally × Operand) state, operation.updateUses f state = (state, operation)) ∨
    (∃ (make : Operand → Operation) (operand : Operand), operation = make operand ∧
      (∀ a b, a ≠ b → (make a).OneOperand (make b)) ∧
      ∀ (f : Tally → Operand → Tally × Operand) state,
        operation.updateUses f state = ((f state operand).1, make (f state operand).2)) ∨
    ∃ (make : Operand → Operand → Operation) (first second : Operand), operation = make first second ∧
      (∀ a b c, a ≠ b → (make a c).OneOperand (make b c)) ∧
      (∀ a b c, b ≠ c → (make a b).OneOperand (make a c)) ∧
      ∀ (f : Tally → Operand → Tally × Operand) state, operation.updateUses f state =
        ((f (f state first).1 second).1, make (f state first).2 (f (f state first).1 second).2) := by
  cases operation with
  | label | addrOf | goto | declare | call | param | read => exact .inl fun _ _ => rfl
  | assign dst src =>
    exact .inr (.inl ⟨assign dst, src, rfl, fun a b differ => ⟨0, a, b, rfl, differ, rfl⟩, fun _ _ => rfl⟩)
  | unary op dst src =>
    exact .inr (.inl ⟨unary op dst, src, rfl, fun a b differ => ⟨0, a, b, rfl, differ, rfl⟩, fun _ _ => rfl⟩)
  | load dst addr =>
    exact .inr (.inl ⟨load dst, addr, rfl, fun a b differ => ⟨0, a, b, rfl, differ, rfl⟩, fun _ _ => rfl⟩)
  | ret src => exact .inr (.inl ⟨ret, src, rfl, fun a b differ => ⟨0, a, b, rfl, differ, rfl⟩, fun _ _ => rfl⟩)
  | arg src => exact .inr (.inl ⟨arg, src, rfl, fun a b differ => ⟨0, a, b, rfl, differ, rfl⟩, fun _ _ => rfl⟩)
  | write src => exact .inr (.inl ⟨write, src, rfl, fun a b differ => ⟨0, a, b, rfl, differ, rfl⟩, fun _ _ => rfl⟩)
  | binary op dst lhs rhs =>
    exact .inr (.inr ⟨binary op dst, lhs, rhs, rfl, fun a b _ differ => ⟨0, a, b, rfl, differ, rfl⟩,
      fun _ b c differ => ⟨1, b, c, rfl, differ, rfl⟩, fun _ _ => rfl⟩)
  | branch rel lhs rhs target =>
    exact .inr (.inr ⟨fun a b => branch rel a b target, lhs, rhs, rfl, fun a b _ differ => ⟨0, a, b, rfl, differ, rfl⟩,
      fun _ b c differ => ⟨1, b, c, rfl, differ, rfl⟩, fun _ _ => rfl⟩)
  | store addr src =>
    exact .inr (.inr ⟨store, addr, src, rfl, fun a b _ differ => ⟨0, a, b, rfl, differ, rfl⟩,
      fun _ b c differ => ⟨1, b, c, rfl, differ, rfl⟩, fun _ _ => rfl⟩)

end Operation

namespace Body

def RewrittenAt (body other : Body) (inst : Inst) : Prop :=
  other.layout = body.layout ∧ (∃ block, inst ∈ body.layout block) ∧
    ∃ old new, body.operation? inst = some old ∧ other.operation? inst = some new ∧ old.Rewritten new

def RemovedAt (body other : Body) (inst : Inst) : Prop :=
  other.operation? = body.operation? ∧ (∃ block, inst ∈ body.layout block) ∧ ∀ block, inst ∉ other.layout block

def MovedAt (body other : Body) (inst : Inst) : Prop :=
  other.operation? = body.operation? ∧ ∃ source target, source ≠ target ∧ inst ∈ body.layout source ∧ inst ∈ other.layout target

structure ApartAt (body other : Body) (inst : Inst) : Prop where
  frame : body.SameFrame other
  operations : ∀ elsewhere, elsewhere ≠ inst → other.operation? elsewhere = body.operation? elsewhere
  order : ∀ block, (other.layout block).filter (· != inst) = (body.layout block).filter (· != inst)
  change : body.RewrittenAt other inst ∨ body.RemovedAt other inst ∨ body.MovedAt other inst

def OneEditApart (body other : Body) : Prop := ∃ inst, body.ApartAt other inst

def withOperation (body : Body) (inst : Inst) (operation : Operation) : Body :=
  match body.cells.get? inst with
  | some cell => { body with cells := body.cells.put inst { cell with operation := operation } }
  | none => body

section WithOperation

variable (body : Body) (inst : Inst) (old operation : Operation) (found : body.operation? inst = some old)

include found

theorem set_operation_with_operation : body.setOperation inst operation = .ok (body.withOperation inst operation) := by
  obtain ⟨cell, present, _⟩ := Option.map_eq_some_iff.mp found
  rw [setOperation, withOperation, present, (modify_present body.cells inst cell _ present).1]
  rfl

theorem with_operation_self : body.withOperation inst old = body := by
  obtain ⟨cell, present, same⟩ := Option.map_eq_some_iff.mp found
  rw [withOperation, present]
  have held : body.cells.put inst { cell with operation := old } = body.cells := by
    rw [← same]
    exact Arena.put_held body.cells inst cell present
  simp only [held]

variable (layout : Block → List Inst) (laid : body.Laid layout)

include laid

theorem with_operation_laid : body.SameFrame (body.withOperation inst operation) ∧ (body.withOperation inst operation).Laid layout ∧
    (body.withOperation inst operation).operation? = Function.update body.operation? inst (some operation) := by
  obtain ⟨other, done, frame, otherLaid, operations, _⟩ := set_operation_laid body layout laid inst old operation found
  rw [set_operation_with_operation body inst old operation found] at done
  cases done
  exact ⟨frame, otherLaid, operations⟩

theorem with_operation_apart (block : Block) (member : inst ∈ layout block) (new : Operation) (rewritten : operation.Rewritten new) :
    (body.withOperation inst operation).ApartAt (body.withOperation inst new) inst := by
  obtain ⟨frame, firstLaid, firstOperations⟩ := with_operation_laid body inst old operation found layout laid
  obtain ⟨otherFrame, secondLaid, secondOperations⟩ := with_operation_laid body inst old new found layout laid
  have first := layout_laid _ layout firstLaid
  have second := layout_laid _ layout secondLaid
  refine ⟨frame_trans _ body _ (frame_symm _ _ frame) otherFrame, fun elsewhere apart => ?_, fun block => ?_, .inl ⟨?_, ?_, ?_⟩⟩
  · rw [firstOperations, secondOperations, Function.update_of_ne apart, Function.update_of_ne apart]
  · rw [first, second]
  · rw [first, second]
  · exact ⟨block, first ▸ member⟩
  · exact ⟨operation, new, by rw [firstOperations, Function.update_self], by rw [secondOperations, Function.update_self], rewritten⟩

end WithOperation

end Body

end ThreeAddress
