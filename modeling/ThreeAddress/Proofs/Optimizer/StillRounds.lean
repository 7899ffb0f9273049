import ThreeAddress.Proofs.Optimizer.Drained
import ThreeAddress.Proofs.Optimizer.MotionRounds
import ThreeAddress.Proofs.Optimizer.Settled

/-!
Rounds that move nothing. With fuel that never ends such a round has refused every operation of the loop; and where all are
refused a round leaves everything as it is, whatever the fuel.
-/

set_option autoImplicit false

namespace ThreeAddress

namespace HoistPlan

section Still

variable (plan : HoistPlan)

def Refuses (state : State) (inst : Inst) (block : Block) : Prop :=
  ∀ operation, state.body.operation? inst = some operation → ∀ dst, operation.def? = some dst →
    operation.isHoistable = true → plan.mayMove state.defs block operation dst = false

theorem hoist_inst_unlimited (block : Block) (state after : State) (inst : Inst) (unlimited : state.tally.Unlimited)
    (ran : plan.hoistInst block state inst = .ok after) :
    after.tally.Unlimited ∧ (after.tally.count = state.tally.count → after = state ∧ plan.Refuses state inst block) := by
  obtain ⟨operation, reads, ran⟩ := (bind_ok_iff _ _ _).mp ran
  obtain ⟨cell, found, same⟩ := (bind_ok_iff _ _ _).mp reads
  have known : state.body.operation? inst = some operation := by
    rw [Body.operation?, (Arena.get_ok_iff _ _ _).mp found, ← Except.ok.inj same]
    rfl
  obtain ⟨granted, still⟩ := state.tally.pay_unlimited unlimited
  cases defines : operation.def? with
  | none =>
    rw [defines] at ran
    cases ran
    refine ⟨unlimited, fun _ => ⟨rfl, fun other otherKnown dst writes => ?_⟩⟩
    cases known.symm.trans otherKnown
    cases defines.symm.trans writes
  | some dst =>
    simp only [defines, granted, if_true] at ran
    split at ran
    · obtain ⟨body, _, ran⟩ := (bind_ok_iff _ _ _).mp ran
      cases ran
      refine ⟨still, fun counted => ?_⟩
      have more : state.tally.pay.2.count = state.tally.count + 1 := by
        simp only [Tally.pay] at granted ⊢
        simp [granted]
      simp only [more] at counted
      omega
    · rename_i refused
      cases ran
      refine ⟨unlimited, fun _ => ⟨rfl, fun other otherKnown var writes hoistable => ?_⟩⟩
      cases known.symm.trans otherKnown
      cases defines.symm.trans writes
      rw [hoistable, Bool.true_and] at refused
      exact Bool.eq_false_of_not_eq_true refused

theorem insts_unlimited (block : Block) (insts : List Inst) (state after : State) (unlimited : state.tally.Unlimited)
    (ran : insts.foldlM (plan.hoistInst block) state = .ok after) :
    after.tally.Unlimited ∧
      (after.tally.count = state.tally.count → after = state ∧ ∀ inst ∈ insts, plan.Refuses state inst block) := by
  induction insts generalizing state with
  | nil =>
    cases ran
    exact ⟨unlimited, fun _ => ⟨rfl, nofun⟩⟩
  | cons inst rest ih =>
    rw [List.foldlM_cons] at ran
    obtain ⟨middle, visited, ran⟩ := (bind_ok_iff _ _ _).mp ran
    obtain ⟨middleUnlimited, first⟩ := plan.hoist_inst_unlimited block state middle inst unlimited visited
    obtain ⟨afterUnlimited, others⟩ := ih middle middleUnlimited ran
    refine ⟨afterUnlimited, fun counted => ?_⟩
    have early := (plan.hoist_inst_spends block state middle inst visited).counted
    have late := (plan.insts_spend block rest middle after ran).counted
    obtain ⟨rfl, refused⟩ := first (by omega)
    obtain ⟨same, restRefused⟩ := others counted
    exact ⟨same, List.forall_mem_cons.mpr ⟨refused, restRefused⟩⟩

theorem round_unlimited (blocks : List Block) (state after : State) (unlimited : state.tally.Unlimited)
    (ran : plan.hoistRound blocks state = .ok after) :
    after.tally.Unlimited ∧ (after.tally.count = state.tally.count → after = state ∧
      ∀ block ∈ blocks, ∀ insts, state.body.members block = .ok insts → ∀ inst ∈ insts, plan.Refuses state inst block) := by
  induction blocks generalizing state with
  | nil =>
    cases ran
    exact ⟨unlimited, fun _ => ⟨rfl, nofun⟩⟩
  | cons block rest ih =>
    obtain ⟨insts, read, ran⟩ := (bind_ok_iff _ _ _).mp ran
    obtain ⟨middle, visited, ran⟩ := (bind_ok_iff _ _ _).mp ran
    obtain ⟨middleUnlimited, first⟩ := plan.insts_unlimited block insts state middle unlimited visited
    obtain ⟨afterUnlimited, others⟩ := ih middle middleUnlimited ran
    refine ⟨afterUnlimited, fun counted => ?_⟩
    have early := (plan.insts_spend block insts state middle visited).counted
    have late := (plan.round_spends rest middle after ran).counted
    obtain ⟨rfl, refused⟩ := first (by omega)
    obtain ⟨same, restRefused⟩ := others counted
    refine ⟨same, List.forall_mem_cons.mpr ⟨fun other again => ?_, restRefused⟩⟩
    cases read.symm.trans again
    exact refused

theorem settles_idle (state after : State) (settles : plan.Settles state after) (unlimited : state.tally.Unlimited)
    (ready : plan.Ready after) : after.tally.Unlimited ∧ plan.Idle after.body after.defs := by
  induction settles with
  | still state after ran same =>
    obtain ⟨afterUnlimited, refused⟩ := plan.round_unlimited _ state after unlimited ran
    obtain ⟨rfl, all⟩ := refused same
    refine ⟨afterUnlimited, fun block inLoop operation member dst defines hoistable => ?_⟩
    rw [Body.operations_in_laid _ _ ready.laid] at member
    obtain ⟨inst, placed, known⟩ := List.mem_filterMap.mp member
    have read := Body.members_laid after.body after.body.layout ready.laid block (ready.sits.inside block inLoop)
    exact all block inLoop _ read inst placed operation known dst defines hoistable
  | again state middle after ran _ _ ih => exact ih (plan.round_unlimited _ state middle unlimited ran).1 ready

end Still

section Idle

variable (plan : HoistPlan) (state : State) (ready : plan.Ready state) (idle : plan.Idle state.body state.defs)

include ready idle

theorem hoist_inst_idle (block : Block) (inLoop : block ∈ plan.loop.blocks.toList) (inst : Inst)
    (member : inst ∈ state.body.layout block) : plan.hoistInst block state inst = .ok state := by
  obtain ⟨operation, known, reads⟩ := Body.operation_placed state.body state.body.layout ready.laid block inst member
  have placed : operation ∈ state.body.operationsIn block := by
    rw [Body.operations_in_laid _ _ ready.laid]
    exact List.mem_filterMap.mpr ⟨inst, member, known⟩
  simp only [hoistInst, reads, bind, Except.bind]
  cases defines : operation.def? with
  | none => rfl
  | some dst =>
    have refused : (operation.isHoistable && plan.mayMove state.defs block operation dst) = false := by
      cases hoistable : operation.isHoistable with
      | false => rfl
      | true => exact idle block inLoop operation placed dst defines hoistable
    simp only [refused]
    rfl

theorem insts_idle (block : Block) (inLoop : block ∈ plan.loop.blocks.toList) (insts : List Inst)
    (placed : ∀ inst ∈ insts, inst ∈ state.body.layout block) : insts.foldlM (plan.hoistInst block) state = .ok state := by
  induction insts with
  | nil => rfl
  | cons inst rest ih =>
    obtain ⟨here, later⟩ := List.forall_mem_cons.mp placed
    rw [List.foldlM_cons, plan.hoist_inst_idle state ready idle block inLoop inst here]
    exact ih later

theorem round_idle (blocks : List Block) (inLoop : ∀ block ∈ blocks, block ∈ plan.loop.blocks.toList) :
    plan.hoistRound blocks state = .ok state := by
  induction blocks with
  | nil => rfl
  | cons block rest ih =>
    obtain ⟨here, later⟩ := List.forall_mem_cons.mp inLoop
    have read := Body.members_laid state.body state.body.layout ready.laid block (ready.sits.inside block here)
    simp only [hoistRound, read, bind, Except.bind, plan.insts_idle state ready idle block here _ fun _ => id]
    exact ih later

theorem hoist_idle (rounds : Nat) : plan.hoist rounds state = .ok state := by
  cases rounds with
  | zero => rfl
  | succ rounds =>
    simp only [hoist, bind, Except.bind, plan.round_idle state ready idle _ fun _ => id, if_true]
    rfl

end Idle

end HoistPlan

end ThreeAddress
