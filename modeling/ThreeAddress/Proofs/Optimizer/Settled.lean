import ThreeAddress.Proofs.Optimizer.EditCode
import ThreeAddress.Proofs.Optimizer.OneEdit

/-!
Edits that find nothing to do. With fuel that never ends every edit that can be made is made; where none is left, the body
stays as it is, whatever the fuel, and nothing is counted.
-/

set_option autoImplicit false

namespace ThreeAddress

namespace Tally

def Unlimited (tally : Tally) : Prop := tally.fuel.remaining = none

theorem pay_unlimited (tally : Tally) (unlimited : tally.Unlimited) : tally.pay.1 = true ∧ tally.pay.2.Unlimited := by
  have granted : tally.fuel.consume = (true, tally.fuel.count) := by rw [Fuel.consume, unlimited]
  rw [pay, granted]
  exact ⟨rfl, unlimited⟩

section Unlimited

variable (tally : Tally) (unlimited : tally.Unlimited)

include unlimited

theorem substitute_unlimited (replacement? : Var → Option Operand) (operand : Operand) :
    (tally.substitute replacement? operand).1.Unlimited ∧
      (tally.substitute replacement? operand).2 = (operand.var?.bind replacement?).getD operand := by
  obtain ⟨granted, still⟩ := pay_unlimited tally unlimited
  rw [substitute]
  cases operand.var?.bind replacement? with
  | none => exact ⟨unlimited, rfl⟩
  | some replacement =>
    simp only [granted, if_true]
    exact ⟨still, rfl⟩

theorem replace_unlimited (operation : Operation) (replacement? : Option Operation) :
    (tally.replace operation replacement?).1.Unlimited ∧
      (tally.replace operation replacement?).2 = replacement?.getD operation := by
  obtain ⟨granted, still⟩ := pay_unlimited tally unlimited
  cases replacement? with
  | none => exact ⟨unlimited, rfl⟩
  | some replacement =>
    simp only [replace, granted, if_true]
    exact ⟨still, rfl⟩

end Unlimited

end Tally

namespace Operation

variable {σ : Type} (f : σ → Operand → σ × Operand)

theorem update_uses_each (kept : σ → Prop) (good : Operand → Prop)
    (each : ∀ state operand, kept state → kept (f state operand).1 ∧ good (f state operand).2) (state : σ) (first : kept state)
    (operation : Operation) :
    kept (operation.updateUses f state).1 ∧ ∀ operand ∈ (operation.updateUses f state).2.uses, good operand := by
  have one (operand : Operand) := each state operand first
  have two (operand later : Operand) := each (f state operand).1 later (one operand).1
  cases operation with
  | label | addrOf | goto | declare | call | param | read => exact ⟨first, nofun⟩
  | assign dst src | unary op dst src | ret src | arg src | write src | load dst src =>
    exact ⟨(one src).1, List.forall_mem_singleton.mpr (one src).2⟩
  | binary op dst lhs rhs | branch rel lhs rhs target | store lhs rhs =>
    exact ⟨(two lhs rhs).1, List.forall_mem_cons.mpr ⟨(one lhs).2, List.forall_mem_singleton.mpr (two lhs rhs).2⟩⟩

theorem update_uses_same (operation : Operation)
    (same : ∀ state, ∀ operand ∈ operation.uses, f state operand = (state, operand)) (state : σ) :
    operation.updateUses f state = (state, operation) := by
  cases operation with
  | label | addrOf | goto | declare | call | param | read => rfl
  | assign dst src | unary op dst src | ret src | arg src | write src | load dst src =>
    simp only [updateUses, same state src List.mem_cons_self]
  | binary op dst lhs rhs | branch rel lhs rhs target | store lhs rhs =>
    simp only [updateUses, same state lhs List.mem_cons_self, same state rhs (List.mem_cons_of_mem lhs List.mem_cons_self)]

end Operation

section Literals

variable (known? : Var → Option Int64)

theorem Operation.update_uses_unknown (operation : Operation)
    (unknown : ∀ operand ∈ operation.uses, ∀ var, operand = .var var → known? var = none) (tally : Tally) :
    operation.updateUses (Tally.substitute fun var => (known? var).map .lit) tally = (tally, operation) := by
  refine update_uses_same _ operation (fun tally operand member => ?_) tally
  cases operand with
  | lit value => rfl
  | var name => simp [Tally.substitute, Operand.var?, unknown _ member name rfl]

theorem Tally.substitute_unknown (tally : Tally) (operand : Operand) (unlimited : tally.Unlimited) :
    (tally.substitute (fun var => (known? var).map .lit) operand).1.Unlimited ∧
      ∀ var, (tally.substitute (fun var => (known? var).map .lit) operand).2 = .var var → known? var = none := by
  obtain ⟨still, becomes⟩ := tally.substitute_unlimited unlimited (fun var => (known? var).map .lit) operand
  refine ⟨still, fun var left => ?_⟩
  rw [becomes] at left
  cases operand with
  | lit value => cases left
  | var name =>
    rw [Operand.var?, Option.bind_some] at left
    cases found : known? name with
    | none =>
      rw [found] at left
      cases left
      exact found
    | some value =>
      rw [found] at left
      cases left

theorem Operation.update_uses_unlimited (operation : Operation) (tally : Tally) (unlimited : tally.Unlimited) :
    (operation.updateUses (Tally.substitute fun var => (known? var).map .lit) tally).1.Unlimited ∧
      ∀ operand ∈ (operation.updateUses (Tally.substitute fun var => (known? var).map .lit) tally).2.uses,
        ∀ var, operand = .var var → known? var = none :=
  update_uses_each _ Tally.Unlimited (fun operand => ∀ var, operand = .var var → known? var = none)
    (Tally.substitute_unknown known?) tally unlimited operation

end Literals

namespace Body

variable {σ : Type} (step : Step σ)

-- Code of which each instruction stays as it is and costs nothing.
def Idles : σ → List (Inst × Operation) → Prop
  | _, [] => True
  | state, (inst, operation) :: rest => ∀ tally, (step state tally inst operation).2 = (tally, operation) ∧
      Idles (step state tally inst operation).1 rest

variable (body : Body) (layout : Block → List Inst) (laid : body.Laid layout)

include laid

theorem edit_insts_idles (block : Block) (insts : List Inst) (placed : ∀ inst ∈ insts, inst ∈ layout block) (state : σ)
    (tally : Tally) (idles : Idles step state (body.codeOf insts)) :
    body.editInsts step state tally insts = .ok (tally, body) := by
  induction insts generalizing state with
  | nil => rfl
  | cons inst rest ih =>
    obtain ⟨operation, found, reads⟩ := operation_placed body layout laid block inst (placed inst List.mem_cons_self)
    rw [code_of_cons body inst operation rest found] at idles
    obtain ⟨same, later⟩ := idles tally
    have written : body.setOperation inst operation = .ok body := by
      rw [set_operation_with_operation body inst operation operation found, with_operation_self body inst operation found]
    simp only [editInsts, reads, bind, Except.bind, same, written]
    exact ih (fun other member => placed other (List.mem_cons_of_mem _ member)) _ later

theorem edit_blocks_idles (start : Block → Option σ) (blocks : List Block)
    (inside : ∀ block ∈ blocks, body.blocks.contains block = true)
    (idles : ∀ block ∈ blocks, ∀ state, start block = some state → Idles step state (body.codeOf (layout block)))
    (tally : Tally) : body.editBlocks step start tally blocks = .ok (tally, body) := by
  induction blocks with
  | nil => rfl
  | cons block rest ih =>
    obtain ⟨here, restInside⟩ := List.forall_mem_cons.mp inside
    obtain ⟨first, restIdles⟩ := List.forall_mem_cons.mp idles
    cases begins : start block with
    | none =>
      simp only [editBlocks, begins]
      exact ih restInside restIdles
    | some state =>
      have edited := edit_insts_idles step body layout laid block (layout block) (fun _ => id) state tally (first state begins)
      simp only [editBlocks, begins, members_laid body layout laid block here, bind, Except.bind, edited]
      exact ih restInside restIdles

omit laid in
theorem edit_code_idles (start : Block → Option σ) (accepted : body.check = .ok ())
    (idles : ∀ block, body.blocks.contains block = true → ∀ state, start block = some state →
      Idles step state (body.code block)) (fuel : Fuel) :
    body.editCode fuel step start = .ok (⟨fuel, 0⟩, body) := by
  have laid := (well_formed_of_check body accepted).laid
  have inside (block : Block) := (Arena.mem_refs_iff body.blocks block).mp
  refine edit_blocks_idles step body body.layout laid start body.blocks.refs inside (fun block member state begins => ?_) _
  rw [← code_laid body body.layout laid]
  exact idles block (inside block member) state begins

end Body

end ThreeAddress
