import ThreeAddress.Proofs.Flow.LoopNesting
import ThreeAddress.Proofs.Optimizer.InvariantMotion

/-!
Where hoisting leaves the instructions. What moves ends in the preheader of a loop that it was in, also if it moves out
of one loop after the other, and everything else stays where it is.
-/

set_option autoImplicit false

namespace ThreeAddress.Body

structure Relocates (body other : Body) (loops : List Loop) (gone : List Inst) : Prop where
  operations : other.operation? = body.operation?
  others : ∀ block, (other.layout block).filter (· ∉ gone) = (body.layout block).filter (· ∉ gone)
  each : ∀ inst ∈ gone, ∃ loop ∈ loops, ∃ source ∈ loop.blocks.toList, ∃ preheader, loop.preheader? body = some preheader ∧
    inst ∈ body.layout source ∧ inst ∈ other.layout preheader

theorem relocates_refl (body : Body) (loops : List Loop) : body.Relocates body loops [] where
  operations := rfl
  others := fun _ => rfl
  each := fun _ => nofun

section Moved

variable (body : Body) (accepted : body.check = .ok ()) (dominance : Dominance)
  (solved : body.Solved body.dominatorAnalysis (OrderedSet.Over body.blocks.refs) (Meet.le .intersection) dominance.facts)
  (describes : dominance.order.Describes body) (plan : HoistPlan) (listed : plan.loop ∈ body.loops dominance)
  (enters : plan.loop.preheader? body = some plan.preheader)

include accepted solved describes listed enters

-- What moved before lay in the preheader of a loop inside this one.
theorem relocates_moved (state after : HoistPlan.State) (ready : plan.Ready state) (gone : List Inst)
    (before : body.Relocates state.body (body.loops dominance) gone) (block : Block) (inLoop : block ∈ plan.loop.blocks.toList)
    (inst : Inst) (member : inst ∈ state.body.layout block) (operation : Operation) (dst : Var)
    (moved : plan.Moved block inst operation dst state after) :
    body.Relocates after.body (body.loops dominance) (inst :: gone) := by
  have layout := layout_laid after.body _ moved.laid
  have unseen (view : Inst → Bool) (hidden : view inst = false) (place : Block) :
      (after.body.layout place).filter view = (state.body.layout place).filter view :=
    layout ▸ moved_filter plan state ready block inLoop inst view hidden place
  have arrived : inst ∈ after.body.layout plan.preheader := by
    rw [layout, HoistPlan.movedLayout, Function.update_self]
    exact (before_terminator_perm state.body _ inst).mem_iff.mpr List.mem_cons_self
  refine ⟨moved.operations.trans before.operations, fun place => ?_, fun other listedGone => ?_⟩
  · have both : (fun other => decide (other ∉ inst :: gone)) = fun other => decide (other ≠ inst) && decide (other ∉ gone) := by
      funext other
      simp [List.mem_cons, not_or]
    rw [unseen _ (by simp) place, both, ← List.filter_filter, before.others, List.filter_filter]
  · by_cases same : other = inst
    · rw [same]
      by_cases again : inst ∈ gone
      · obtain ⟨inner, innerListed, source, inInner, target, innerEnters, placed, now⟩ := before.each inst again
        have here := placed_once state.body state.body.layout ready.laid target block inst now member
        exact ⟨plan.loop, listed, source, body.loop_nested accepted dominance solved describes inner plan.loop innerListed listed
          target innerEnters (here ▸ inLoop) source inInner, plan.preheader, enters, placed, arrived⟩
      · have kept : inst ∈ (state.body.layout block).filter (· ∉ gone) := List.mem_filter.mpr ⟨member, by simpa using again⟩
        rw [before.others] at kept
        exact ⟨plan.loop, listed, block, inLoop, plan.preheader, enters, (List.mem_filter.mp kept).1, arrived⟩
    · have earlier := (List.mem_cons.mp listedGone).resolve_left same
      obtain ⟨loop, loopListed, source, inSource, target, loopEnters, placed, now⟩ := before.each other earlier
      have stays : other ∈ (after.body.layout target).filter (· ≠ inst) := by
        rw [unseen _ (by simp) target]
        exact List.mem_filter.mpr ⟨now, by simpa using same⟩
      exact ⟨loop, loopListed, source, inSource, target, loopEnters, placed, (List.mem_filter.mp stays).1⟩

end Moved

theorem hoist_invariants_relocates (body : Body) (accepted : body.check = .ok ()) (fuel : Fuel) (dominance : Dominance)
    (computed : body.dominance = .ok dominance) : ∃ left moved gone, body.hoistInvariants fuel = .ok (left, moved) ∧
      moved.check = .ok () ∧ body.KeepsStructure moved ∧ body.Relocates moved (body.loops dominance) gone := by
  let may : HoistPlan → HoistPlan.State → Block → Inst → Prop := fun _ _ _ _ => True
  let holds (other : Body) : Prop := other.check = .ok () ∧ body.KeepsStructure other ∧
    ∃ gone, body.Relocates other (body.loops dominance) gone
  obtain ⟨left, moved, ran, movedAccepted, keeps, gone, relocates⟩ : ∃ left moved,
      body.hoistInvariants fuel = .ok (left, moved) ∧ holds moved := by
    apply hoist_invariants_run body accepted fuel may (along_motion_of_all may (fun _ _ _ _ => trivial) fuel body) holds
      ⟨accepted, structure_refl body, [], body.relocates_refl _⟩ (fun _ kept => kept.1) (fun _ kept => kept.2.1.frame)
    intro found pinned plan defs tally other after same solved describes _ start listed _ planned ready runs
    rw [computed] at same
    cases same
    have enters := (preheader_frame body other start.2.1.frame plan.loop).symm.trans planned.preheader
    refine (visits_keep plan (may plan) (fun other _ => holds other) ?_ _ after ready start runs).2
    intro state last block inst operation dst ready ⟨stateAccepted, keeps, gone, before⟩ inLoop member _ _ moved
    have step := moved_structure plan state last ready block inLoop inst member operation dst moved
    exact ⟨check_of_structure state.body last.body _ stateAccepted step moved.laid,
      structure_trans body state.body last.body keeps step, inst :: gone,
      body.relocates_moved accepted dominance solved describes plan listed enters state last ready gone before block inLoop inst
        member operation dst moved⟩
  exact ⟨left, moved, gone, ran, movedAccepted, keeps, relocates⟩

end ThreeAddress.Body
