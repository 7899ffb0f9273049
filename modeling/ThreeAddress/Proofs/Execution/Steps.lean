import ThreeAddress.Proofs.Execution.Simulation
import ThreeAddress.Proofs.Optimizer.EditCode

/-!
What a step reads and what it changes: it depends on the operands alone, writes its destination, and overwrites
variables in memory at stores and calls.
-/

set_option autoImplicit false

namespace ThreeAddress

namespace Machine

variable (around : Surroundings)

structure AgreeOn (within : Var → Prop) (a b : Machine) : Prop where
  asked : a.asked = b.asked
  env : ∀ var, within var → a.env var = b.env var

theorem agree_mono (within fewer : Var → Prop) (a b : Machine) (agree : AgreeOn within a b)
    (inside : ∀ var, fewer var → within var) : AgreeOn fewer a b :=
  ⟨agree.asked, fun var member => agree.env var (inside var member)⟩

theorem agree_value (within : Var → Prop) (a b : Machine) (agree : AgreeOn within a b) (operand : Operand)
    (reads : ∀ var, operand.var? = some var → within var) : a.value operand = b.value operand := by
  cases operand with
  | lit value => rfl
  | var name => exact agree.env name (reads name rfl)

theorem agree_assign (within : Var → Prop) (a b : Machine) (agree : AgreeOn within a b) (dst : Var) (value : Int64) :
    AgreeOn (fun var => within var ∨ var = dst) (a.assign dst value) (b.assign dst value) := by
  refine ⟨agree.asked, fun var member => ?_⟩
  by_cases same : var = dst
  · rw [same, assign_here, assign_here]
  · rw [assign_elsewhere _ _ _ _ same, assign_elsewhere _ _ _ _ same]
    exact agree.env var (member.resolve_right same)

theorem agree_ask (within : Var → Prop) (a b : Machine) (agree : AgreeOn within a b) : AgreeOn within a.ask b.ask :=
  ⟨congrArg (· + 1) agree.asked, agree.env⟩

theorem agree_clobber (within : Var → Prop) (a b : Machine) (agree : AgreeOn within a b) (memory : Var → Int64) :
    AgreeOn within (a.clobber around memory) (b.clobber around memory) := by
  refine ⟨agree.asked, fun var member => ?_⟩
  simp only [clobber]
  rw [agree.env var member]

theorem agree_used (within : Var → Prop) (a b : Machine) (agree : AgreeOn within a b) (operation : Operation)
    (reads : ∀ var ∈ operation.usedVars, within var) (operand : Operand) (used : operand ∈ operation.uses) :
    a.value operand = b.value operand := by
  apply agree_value within a b agree
  intro var names
  exact reads var (List.mem_filterMap.mpr ⟨operand, used, names⟩)

theorem agree_kept (within : Var → Prop) (a b : Machine) (agree : AgreeOn within a b) (operation : Operation)
    (undefining : operation.def? = none) : AgreeOn (fun var => within var ∨ operation.def? = some var) a b := by
  refine agree_mono _ _ a b agree fun var member => member.resolve_right ?_
  rw [undefining]
  exact Option.some_ne_none var |>.symm

theorem agree_written (within : Var → Prop) (a b : Machine) (agree : AgreeOn within a b) (operation : Operation) (dst : Var)
    (defines : operation.def? = some dst) (result : Int64) :
    AgreeOn (fun var => within var ∨ operation.def? = some var) (a.assign dst result) (b.assign dst result) := by
  refine agree_mono _ _ _ _ (agree_assign within a b agree dst result) fun var member => member.imp_right fun defined => ?_
  rw [defines] at defined
  exact (Option.some.inj defined).symm

theorem step_agree (within : Var → Prop) (a b : Machine) (agree : AgreeOn within a b) (operation : Operation)
    (reads : ∀ var ∈ operation.usedVars, within var) :
    Alike (AgreeOn fun var => within var ∨ operation.def? = some var) (a.step around operation) (b.step around operation) := by
  have value := agree_used within a b agree operation reads
  have kept := agree_kept within a b agree operation
  have written := agree_written within a b agree operation
  have askAgree := agree_ask within a b agree
  cases operation with
  | label | goto target | declare place size => exact .on [] a b (kept rfl)
  | assign dst src | unary op dst src =>
    simp only [step, value src List.mem_cons_self]
    exact .on [] _ _ (written dst rfl _)
  | binary op dst lhs rhs =>
    simp only [step, value lhs List.mem_cons_self, value rhs (List.mem_cons_of_mem _ List.mem_cons_self)]
    cases op.eval? (b.value lhs) (b.value rhs) with
    | none => exact .ended _
    | some result => exact .on [] _ _ (written dst rfl result)
  | addrOf dst place => exact .on [] _ _ (written dst rfl _)
  | load dst addr =>
    simp only [step, value addr List.mem_cons_self, agree.asked]
    exact .on _ _ _ (agree_written within _ _ askAgree _ dst rfl _)
  | store addr src =>
    simp only [step, value addr List.mem_cons_self, value src (List.mem_cons_of_mem _ List.mem_cons_self), agree.asked]
    exact .on _ _ _ (agree_kept within _ _ (agree_clobber around within _ _ askAgree _) _ rfl)
  | branch rel lhs rhs target =>
    simp only [step, value lhs List.mem_cons_self, value rhs (List.mem_cons_of_mem _ List.mem_cons_self)]
    exact .on _ a b (kept rfl)
  | ret src | arg src | write src =>
    simp only [step, value src List.mem_cons_self]
    exact .on _ a b (kept rfl)
  | call dst function =>
    simp only [step, agree.asked]
    exact .on _ _ _ (agree_written within _ _ (agree_clobber around within _ _ askAgree _) _ dst rfl _)
  | param dst | read dst =>
    simp only [step, agree.asked]
    exact .on _ _ _ (agree_written within _ _ askAgree _ dst rfl _)

theorem clobber_elsewhere (machine : Machine) (memory : Var → Int64) (var : Var)
    (outside : around.inMemory.contains var = false) : (machine.clobber around memory).env var = machine.env var := by
  simp only [clobber, outside]
  rfl

theorem step_elsewhere (machine after : Machine) (operation : Operation) (went : (machine.step around operation).2 = some after)
    (var : Var) (unwritten : operation.def? ≠ some var)
    (unclobbered : operation.clobbersMemory = true → around.inMemory.contains var = false) :
    after.env var = machine.env var := by
  have apart (dst : Var) (defines : operation.def? = some dst) : var ≠ dst := fun same => unwritten (same ▸ defines)
  cases operation with
  | binary op dst lhs rhs =>
    simp only [step] at went
    split at went
    · cases went
      exact assign_elsewhere _ _ _ _ (apart dst rfl)
    · cases went
  | call dst function =>
    cases went
    exact (assign_elsewhere _ _ _ _ (apart dst rfl)).trans (clobber_elsewhere around _ _ var (unclobbered rfl))
  | store addr src =>
    cases went
    exact clobber_elsewhere around _ _ var (unclobbered rfl)
  | assign dst _ | unary _ dst _ | addrOf dst _ | load dst _ | param dst | read dst =>
    cases went
    exact assign_elsewhere _ _ _ _ (apart dst rfl)
  | label | goto _ | branch _ _ _ _ | ret _ | declare _ _ | arg _ | write _ =>
    cases went
    rfl

theorem step_update_uses {σ : Type} (machine : Machine) (f : σ → Operand → σ × Operand)
    (same : ∀ state operand, machine.value (f state operand).2 = machine.value operand) (state : σ) (operation : Operation) :
    machine.step around (operation.updateUses f state).2 = machine.step around operation := by
  cases operation <;> simp only [Operation.updateUses, step, same]

theorem step_substitute (machine : Machine) (replacement? : Var → Option Operand)
    (same : ∀ var replacement, replacement? var = some replacement → machine.value replacement = machine.env var)
    (tally : Tally) (operation : Operation) :
    machine.step around (operation.updateUses (Tally.substitute replacement?) tally).2 = machine.step around operation := by
  apply step_update_uses
  intro tally operand
  rw [Tally.substitute]
  cases found : operand.var?.bind replacement? with
  | none => rfl
  | some replacement =>
    obtain ⟨var, names, replaces⟩ := Option.bind_eq_some_iff.mp found
    have read : operand = .var var := by
      cases operand with
      | lit value => cases names
      | var name => exact congrArg Operand.var (Option.some.inj names)
    by_cases granted : tally.pay.1 = true
    · simp only [granted, if_true]
      rw [same var replacement replaces, read]
      rfl
    · simp only [granted]
      rfl

theorem step_replace (machine : Machine) (tally : Tally) (operation : Operation) (replacement? : Option Operation)
    (same : ∀ replacement, replacement? = some replacement → machine.step around replacement = machine.step around operation) :
    machine.step around (tally.replace operation replacement?).2 = machine.step around operation := by
  cases replacement? with
  | none => rfl
  | some replacement =>
    by_cases granted : tally.pay.1 = true
    · simp only [Tally.replace, granted, if_true]
      exact same replacement rfl
    · simp only [Tally.replace, granted]
      rfl

theorem step_simplify (machine : Machine) (known? : Var → Option Int64) (better? : Operation → Option Operation)
    (known : ∀ var value, known? var = some value → machine.env var = value)
    (better : ∀ operation replacement, better? operation = some replacement →
      machine.step around replacement = machine.step around operation) (tally : Tally) (operation : Operation) :
    let substituted := operation.updateUses (Tally.substitute fun var => (known? var).map .lit) tally
    machine.step around (substituted.1.replace substituted.2 (better? substituted.2)).2 = machine.step around operation := by
  intro substituted
  have first : machine.step around substituted.2 = machine.step around operation := by
    apply step_substitute
    intro var replacement found
    obtain ⟨value, bound, made⟩ := Option.map_eq_some_iff.mp found
    rw [← made, known var value bound]
    rfl
  exact (step_replace around machine substituted.1 substituted.2 _ (better substituted.2)).trans first

end Machine

section Code

variable {σ : Type} (around : Surroundings)

def EditUnseen (step : Body.Step σ) (holds : σ → Machine → Prop) (inst : Inst) (operation : Operation) : Prop :=
  ∀ state tally machine, holds state machine →
    machine.step around (step state tally inst operation).2.2 = machine.step around operation ∧
      ∀ after, (machine.step around operation).2 = some after → holds (step state tally inst operation).1 after

theorem edited_code_run (step : Body.Step σ) (holds : σ → Machine → Prop) (code : List (Inst × Operation))
    (same : ∀ inst operation, (inst, operation) ∈ code → EditUnseen around step holds inst operation)
    (state : σ) (tally : Tally) (machine : Machine) (start : holds state machine) :
    machine.run around ((Body.editedCode step state tally code).2.map Prod.snd) = machine.run around (code.map Prod.snd) := by
  induction code generalizing state tally machine with
  | nil => rfl
  | cons first rest ih =>
    obtain ⟨inst, operation⟩ := first
    obtain ⟨sameStep, holdsAfter⟩ := same inst operation List.mem_cons_self state tally machine start
    simp only [Body.editedCode, List.map_cons, Machine.run_cons]
    rw [sameStep]
    cases stepped : machine.step around operation with
    | mk shown after =>
      cases after with
      | none => rfl
      | some after =>
        rw [stepped] at holdsAfter
        simp only [Outcome.andThen]
        rw [ih (fun inst operation later => same inst operation (List.mem_cons_of_mem _ later)) _ _ after (holdsAfter after rfl)]

end Code

end ThreeAddress
