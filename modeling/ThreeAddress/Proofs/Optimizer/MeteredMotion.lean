import ThreeAddress.Proofs.Optimizer.InvariantMotion
import ThreeAddress.Proofs.Optimizer.MeteredRewrites

/-!
Loop-invariant code motion, paid edit by edit: every move is paid for, and moves one computation into another block.
-/

set_option autoImplicit false

namespace ThreeAddress

namespace HoistPlan

abbrev Progress := Nat × Body × List Var

def Progress.state (progress : Progress) (fuel : Fuel) : State := ⟨progress.2.1, ⟨fuel, progress.1⟩, progress.2.2⟩

def Goes (run : State → Except Fault State) (start : Progress) (fuel left : Fuel) (made : Progress) : Prop :=
  run (start.state fuel) = .ok (made.state left)

def MovedOnce (a b : Progress) : Prop := Counted (fun a b : Body × List Var => a.1.OneEditApart b.1) a b

variable (plan : HoistPlan)

def ReadyAt (progress : Progress) : Prop := ∀ fuel, plan.Ready (progress.state fuel)

theorem ready_at (progress : Progress) (fuel : Fuel) (ready : plan.Ready (progress.state fuel)) : plan.ReadyAt progress :=
  fun _ => ⟨ready.laid, ready.sits⟩

theorem moved_apart (block : Block) (inst : Inst) (operation : Operation) (dst : Var) (state after : State)
    (ready : plan.Ready state) (inLoop : block ∈ plan.loop.blocks.toList) (member : inst ∈ state.body.layout block)
    (moved : plan.Moved block inst operation dst state after) : state.body.ApartAt after.body inst := by
  have layout := Body.layout_laid after.body _ moved.laid
  have apart : block ≠ plan.preheader := fun same => ready.sits.outside (same ▸ inLoop)
  refine ⟨moved.frame, fun elsewhere _ => congrFun moved.operations elsewhere, fun other => ?_,
    .inr (.inr ⟨moved.operations, block, plan.preheader, apart, member, ?_⟩)⟩
  · rw [layout]
    exact Body.moved_filter plan state ready block inLoop inst (· != inst) (by simp) other
  · rw [layout, movedLayout, Function.update_self]
    exact (Body.before_terminator_perm state.body _ inst).mem_iff.mpr List.mem_cons_self

theorem move_metered (block : Block) (inLoop : block ∈ plan.loop.blocks.toList) (inst : Inst) (start : Progress)
    (here : plan.Ready (start.state .infinite)) (member : inst ∈ start.2.1.layout block) (operation : Operation) (dst : Var)
    (found : start.2.1.operation? inst = some operation) (reads : start.2.1.operation inst = .ok operation)
    (defines : operation.def? = some dst) (hoistable : operation.isHoistable = true)
    (mayMove : plan.mayMove start.2.2 block operation dst = true) :
    MeteredFrom MovedOnce (Goes (plan.hoistInst block · inst) start) start := by
  have apart : plan.preheader ≠ block := fun same => here.sits.outside (same ▸ inLoop)
  obtain ⟨other, done, frame, otherLaid, operations, marks⟩ := Body.move_laid start.2.1 start.2.1.layout here.laid block
    plan.preheader inst member apart here.sits.preheader
  have known (fuel : Fuel) : (start.state fuel).body.operation inst = .ok operation := reads
  have choice (fuel : Fuel) : (operation.isHoistable && plan.mayMove (start.state fuel).defs block operation dst) = true :=
    Bool.and_eq_true_iff.mpr ⟨hoistable, mayMove⟩
  have moved (fuel : Fuel) : (start.state fuel).body.moveBeforeTerminator inst plan.preheader = .ok other := done
  let next : Progress := (start.1 + 1, other, start.2.2.erase dst)
  let ends (made : Progress) (fuel left : Fuel) (result : Progress) : Prop := left = fuel ∧ result = made
  refine metered_pay _ _ start next ⟨rfl, inst, ?_⟩ (ends next) (ends start) ?_ ?_ (metered_idle _ _ _ fun _ => ⟨rfl, rfl⟩)
    (metered_idle _ _ _ fun _ => ⟨rfl, rfl⟩)
  · exact plan.moved_apart block inst operation dst (start.state .infinite) (next.state .infinite) here inLoop member
      ⟨found, defines, hoistable, mayMove, frame, otherLaid, operations, marks, rfl, rfl⟩
  · rintro fuel left made granted ⟨same, result⟩
    have paid : (start.state fuel).tally.pay = (true, ⟨fuel.consume.2, start.1 + 1⟩) := by
      simp only [Progress.state, Tally.pay, granted, if_true]
    rw [same, result]
    simp only [Goes, hoistInst, known, bind, Except.bind, defines, choice, paid, if_true, moved]
    rfl
  · rintro fuel left made denied ⟨same, result⟩
    have unpaid : (start.state fuel).tally.pay = (false, ⟨fuel.consume.2, start.1⟩) := by
      simp [Progress.state, Tally.pay, denied]
    rw [same, result]
    simp only [Goes, hoistInst, known, bind, Except.bind, defines, choice, unpaid, if_true]
    rfl

theorem hoist_inst_metered (block : Block) (inLoop : block ∈ plan.loop.blocks.toList) (inst : Inst) (start : Progress)
    (ready : plan.ReadyAt start) (member : inst ∈ start.2.1.layout block) :
    MeteredFrom MovedOnce (Goes (plan.hoistInst block · inst) start) start := by
  have here := ready .infinite
  obtain ⟨operation, found, reads⟩ := Body.operation_placed start.2.1 start.2.1.layout here.laid block inst member
  have known (fuel : Fuel) : (start.state fuel).body.operation inst = .ok operation := reads
  cases defines : operation.def? with
  | none =>
    refine metered_idle _ _ _ fun fuel => ?_
    simp only [Goes, hoistInst, known, bind, Except.bind, defines]
    rfl
  | some dst =>
    by_cases moves : (operation.isHoistable && plan.mayMove start.2.2 block operation dst) = true
    · obtain ⟨hoistable, mayMove⟩ := Bool.and_eq_true_iff.mp moves
      exact move_metered plan block inLoop inst start here member operation dst found reads defines hoistable mayMove
    · refine metered_idle _ _ _ fun fuel => ?_
      have choice : ¬ (operation.isHoistable && plan.mayMove (start.state fuel).defs block operation dst) = true := moves
      simp only [Goes, hoistInst, known, bind, Except.bind, defines, choice]
      rfl

theorem insts_metered (block : Block) (inLoop : block ∈ plan.loop.blocks.toList) (insts : List Inst) (once : insts.Nodup)
    (start : Progress) (ready : plan.ReadyAt start) (placed : ∀ inst ∈ insts, inst ∈ start.2.1.layout block) :
    MeteredFrom MovedOnce (Goes (insts.foldlM (plan.hoistInst block)) start) start := by
  induction insts generalizing start with
  | nil => exact metered_idle _ _ _ fun fuel => rfl
  | cons inst rest ih =>
    obtain ⟨fresh, restOnce⟩ := List.nodup_cons.mp once
    obtain ⟨member, restPlaced⟩ := List.forall_mem_cons.mp placed
    refine metered_and_then _ _ _ _ start id (Goes (rest.foldlM (plan.hoistInst block)))
      (plan.hoist_inst_metered block inLoop inst start ready member) (fun _ _ => id) (fun fuel middle between done => ?_)
      fun fuel middle left between made done later => ?_
    · obtain ⟨after, again, outcome⟩ := plan.hoist_inst_outcome (start.state fuel) (ready fuel).laid (ready fuel).sits block
        inLoop inst member
      obtain rfl : between.state middle = after := Except.ok.inj (done.symm.trans again)
      obtain ⟨betweenReady, stays⟩ := plan.outcome_ready _ _ (ready fuel) block inLoop inst outcome
      refine ih restOnce between (plan.ready_at between middle betweenReady) fun other inRest => ?_
      exact stays other (fun same => fresh (same ▸ inRest)) (restPlaced other inRest)
    · rw [Goes] at done later ⊢
      rw [List.foldlM_cons, done]
      exact later

theorem round_metered (blocks : List Block) (inLoop : ∀ block ∈ blocks, block ∈ plan.loop.blocks.toList) (start : Progress)
    (ready : plan.ReadyAt start) : MeteredFrom MovedOnce (Goes (plan.hoistRound blocks) start) start := by
  induction blocks generalizing start with
  | nil => exact metered_idle _ _ _ fun fuel => rfl
  | cons block rest ih =>
    obtain ⟨here, restInLoop⟩ := List.forall_mem_cons.mp inLoop
    have laid := (ready .infinite).laid
    have once := Body.nodup_layout start.2.1 start.2.1.layout laid block
    have read (fuel : Fuel) : (start.state fuel).body.members block = .ok (start.2.1.layout block) :=
      Body.members_laid start.2.1 start.2.1.layout laid block ((ready .infinite).sits.inside block here)
    refine metered_and_then _ _ _ _ start id (Goes (plan.hoistRound rest))
      (plan.insts_metered block here (start.2.1.layout block) once start ready (fun _ => id)) (fun _ _ => id)
      (fun fuel middle between done => ?_) fun fuel middle left between made done later => ?_
    · obtain ⟨after, again, afterReady, _⟩ := plan.insts_run (fun _ _ _ => True) block here (start.2.1.layout block) once
        (start.state fuel) (ready fuel) (fun _ => id)
      obtain rfl : between.state middle = after := Except.ok.inj (done.symm.trans again)
      exact ih restInLoop between (plan.ready_at between middle afterReady)
    · rw [Goes] at done later ⊢
      simp only [hoistRound, read, bind, Except.bind, done]
      exact later

-- Whether another round follows depends on what this one moved, so on the fuel as well; without fuel it moves nothing.
theorem hoist_metered (rounds : Nat) (start : Progress) (ready : plan.ReadyAt start) :
    MeteredFrom MovedOnce (Goes (plan.hoist rounds) start) start := by
  induction rounds generalizing start with
  | zero => exact metered_idle _ _ _ fun fuel => rfl
  | succ rounds ih =>
    let more (between : Progress) (fuel left : Fuel) (made : Progress) : Prop :=
      (if between.1 = start.1 then .ok (between.state fuel) else plan.hoist rounds (between.state fuel)) =
        Except.ok (made.state left)
    refine metered_and_then _ _ _ _ start id more
      (plan.round_metered plan.loop.blocks.toList (fun _ => id) start ready) (fun _ _ => id)
      (fun fuel middle between done => ?_) fun fuel middle left between made done later => ?_
    · by_cases settled : between.1 = start.1
      · exact metered_idle _ _ _ fun fuel => if_pos settled
      · obtain ⟨after, again, afterReady, _⟩ := plan.round_run (fun _ _ _ => True) plan.loop.blocks.toList (fun _ => id)
          (start.state fuel) (ready fuel)
        obtain rfl : between.state middle = after := Except.ok.inj (done.symm.trans again)
        refine metered_view _ _ _ _ between id (ih between (plan.ready_at between middle afterReady)) (fun _ _ => id)
          fun fuel left made done => ?_
        exact (if_neg settled).trans done
    · rw [Goes] at done ⊢
      simp only [hoist, done, bind, Except.bind]
      exact later

end HoistPlan

namespace Body

section Loops

variable (dominance : Dominance) (pinned : OrderedSet Var) (first : Body)

theorem hoist_loop_metered (body : Body) (accepted : body.check = .ok ()) (loop : Loop)
    (natural : Loop.Natural body dominance loop) (count : Nat) :
    MeteredFrom (Counted OneEditApart) (Leaves (hoistLoop dominance pinned · body loop) count) (count, body) := by
  cases entered : loop.preheader? body with
  | none =>
    refine metered_idle _ _ _ fun fuel => ?_
    simp only [Leaves, hoistLoop, entered]
    rfl
  | some preheader =>
    obtain ⟨live, defs, _, ready, hoists⟩ := body.hoist_loop_planned dominance pinned accepted loop natural preheader entered
    let plan : HoistPlan := ⟨loop, preheader, loop.exits body, live, dominance, pinned⟩
    refine metered_view _ _ _ _ (count, body, defs) (fun made => (made.1, made.2.1))
      (plan.hoist_metered (defs.length + 1) (count, body, defs) fun fuel => ready ⟨fuel, count⟩) (fun _ _ => id)
      fun fuel left made done => ?_
    have ran : plan.hoist (defs.length + 1) ⟨body, ⟨fuel, count⟩, defs⟩ = .ok (HoistPlan.Progress.state made left) := done
    rw [Leaves, hoists, ran]
    rfl

theorem hoist_loop_kept (body : Body) (kept : first.KeptFrom body) (loop : Loop) (natural : Loop.Natural first dominance loop)
    (tally : Tally) : ∃ left other, body.hoistLoop dominance pinned tally loop = .ok (left, other) ∧ first.KeptFrom other := by
  let may : HoistPlan → HoistPlan.State → Block → Inst → Prop := fun _ _ _ _ => True
  obtain ⟨left, other, done, otherKept⟩ := hoist_loops_run may dominance pinned first first.KeptFrom (fun _ kept => kept.1)
    (fun _ kept => kept.2.2.frame) (Loop.Natural first dominance) (fun _ => id)
    (fun plan defs tally other after start _ _ _ ready runs => (visits_kept first plan (may plan) _ after ready start runs).2)
    [loop] (fun other member => List.mem_singleton.mp member ▸ natural) tally body kept
    (along_loops_of_all may dominance pinned (fun _ _ _ _ => trivial) tally [loop] body)
  obtain ⟨result, hoisted, rest⟩ := (bind_ok_iff _ _ _).mp done
  cases rest
  exact ⟨result.1, result.2, hoisted, otherKept⟩

theorem hoist_loops_metered (loops : List Loop) (natural : ∀ loop ∈ loops, Loop.Natural first dominance loop) (body : Body)
    (kept : first.KeptFrom body) (count : Nat) :
    MeteredFrom (Counted OneEditApart) (Leaves (hoistLoops dominance pinned · loops body) count) (count, body) := by
  induction loops generalizing count body with
  | nil => exact metered_idle _ _ _ fun fuel => rfl
  | cons loop rest ih =>
    obtain ⟨here, restNatural⟩ := List.forall_mem_cons.mp natural
    have current := natural_frame dominance first body kept.2.2.frame loop here
    refine metered_and_then _ _ _ _ (count, body) id
      (fun between => Leaves (hoistLoops dominance pinned · rest between.2) between.1)
      (hoist_loop_metered dominance pinned body kept.1 loop current count) (fun _ _ => id) (fun fuel middle between done => ?_)
      fun fuel middle left between made done later => ?_
    · obtain ⟨left, other, again, otherKept⟩ := hoist_loop_kept dominance pinned first body kept loop here ⟨fuel, count⟩
      obtain rfl : between.2 = other := congrArg Prod.snd (Except.ok.inj (done.symm.trans again))
      exact ih restNatural between.2 otherKept between.1
    · rw [Leaves] at done later ⊢
      simp only [hoistLoops, done, bind, Except.bind]
      exact later

end Loops

theorem hoist_invariants_metered (body : Body) (accepted : body.check = .ok ()) (unmarked : body.Unmarked) :
    body.MeteredPass body.hoistInvariants := by
  have wellFormed := well_formed_of_check body accepted
  obtain ⟨dominance, dominated, solved, describes⟩ := dominance_total body accepted
  obtain ⟨pinned, taken, _⟩ := address_taken_total body body.layout wellFormed.laid
  refine metered_view _ _ _ _ (0, body) id (hoist_loops_metered dominance pinned body (body.loops dominance)
    (loops_natural body dominance wellFormed.edges describes) body ⟨accepted, unmarked, structure_refl body⟩ 0)
    (fun _ _ => id) fun fuel left made done => ?_
  rw [hoistInvariants, dominated]
  simp only [bind, Except.bind, taken]
  exact done

end Body

end ThreeAddress
