import ThreeAddress.Proofs.Flow.Dominance
import ThreeAddress.Proofs.Optimizer.EditCode

/-!
Hoisting as a run of single moves. Each move takes one computation out of a block of the loop and puts it at the
end of the preheader; nothing else happens, and no step can fail.
-/

set_option autoImplicit false

namespace ThreeAddress

section Results

variable {α β : Type} (holds : β → Prop) [∀ value, Decidable (holds value)]

instance decidableOk (result : Except α β) : Decidable (∀ value, result = .ok value → holds value) :=
  match result with
  | .ok value => decidable_of_iff (holds value) ⟨fun here _ same => Except.ok.inj same ▸ here, fun all => all value rfl⟩
  | .error _ => .isTrue nofun

instance decidableSome (result : Option β) : Decidable (∀ value, result = some value → holds value) :=
  match result with
  | some value => decidable_of_iff (holds value) ⟨fun here _ same => Option.some.inj same ▸ here, fun all => all value rfl⟩
  | none => .isTrue nofun

end Results

theorem Operation.hoistable_is_computation (operation : Operation) (hoistable : operation.isHoistable = true) :
    operation.isComputation = true := by
  cases operation <;> first | rfl | simp [isHoistable, isPure, canTrap] at hoistable

namespace HoistPlan

variable (plan : HoistPlan)

structure MayMove (defs : List Var) (operation : Operation) (dst : Var) : Prop where
  operands : ∀ var ∈ operation.usedVars, var ∉ defs ∧ plan.pinned.contains var = false
  once : defs.count dst = 1
  unpinned : plan.pinned.contains dst = false
  dead : (plan.live.liveIn plan.loop.header).contains dst = false

theorem may_move_spec (defs : List Var) (block : Block) (operation : Operation) (dst : Var)
    (may : plan.mayMove defs block operation dst = true) : plan.MayMove defs operation dst := by
  simp only [mayMove, Bool.and_eq_true, List.all_eq_true, Bool.not_eq_true', beq_iff_eq] at may
  obtain ⟨⟨⟨⟨operands, once⟩, unpinned⟩, dead⟩, _⟩ := may
  refine ⟨fun var used => ⟨fun member => ?_, (operands var used).2⟩, once, unpinned, dead⟩
  have absent := (operands var used).1
  rw [List.contains_iff_mem.mpr member] at absent
  cases absent

structure Sits (body : Body) : Prop where
  sound : plan.loop.blocks.Sound
  inside : ∀ block ∈ plan.loop.blocks.toList, body.blocks.contains block = true
  preheader : body.blocks.contains plan.preheader = true
  outside : plan.preheader ∉ plan.loop.blocks.toList

theorem sits_frame (body other : Body) (frame : body.SameFrame other) (sits : plan.Sits body) : plan.Sits other where
  sound := sits.sound
  inside := fun block member => (Body.frame_contains body other frame block).trans (sits.inside block member)
  preheader := (Body.frame_contains body other frame _).trans sits.preheader
  outside := sits.outside

def movedLayout (body : Body) (block : Block) (inst : Inst) : Block → List Inst :=
  Function.update (Function.update body.layout block ((body.layout block).erase inst)) plan.preheader
    (body.beforeTerminator (body.layout plan.preheader) inst)

structure Moved (block : Block) (inst : Inst) (operation : Operation) (dst : Var) (state after : State) : Prop where
  found : state.body.operation? inst = some operation
  defines : operation.def? = some dst
  hoistable : operation.isHoistable = true
  mayMove : plan.mayMove state.defs block operation dst = true
  frame : state.body.SameFrame after.body
  laid : after.body.Laid (plan.movedLayout state.body block inst)
  operations : after.body.operation? = state.body.operation?
  marks : after.body.isMarked = state.body.isMarked
  defs : after.defs = state.defs.erase dst
  counted : after.tally.count = state.tally.count + 1

structure Stayed (state after : State) : Prop where
  body : after.body = state.body
  defs : after.defs = state.defs
  counted : after.tally.count = state.tally.count

theorem hoist_inst_outcome (state : State) (laid : state.body.Laid state.body.layout) (sits : plan.Sits state.body)
    (block : Block) (inLoop : block ∈ plan.loop.blocks.toList) (inst : Inst) (member : inst ∈ state.body.layout block) :
    ∃ after, plan.hoistInst block state inst = .ok after ∧
      (Stayed state after ∨ ∃ operation dst, plan.Moved block inst operation dst state after) := by
  obtain ⟨operation, found, reads⟩ := Body.operation_placed state.body state.body.layout laid block inst member
  have apart : plan.preheader ≠ block := fun same => sits.outside (same ▸ inLoop)
  simp only [hoistInst, reads, bind, Except.bind]
  cases defines : operation.def? with
  | none => exact ⟨state, rfl, .inl ⟨rfl, rfl, rfl⟩⟩
  | some dst =>
    by_cases moves : (operation.isHoistable && plan.mayMove state.defs block operation dst) = true
    · obtain ⟨hoistable, mayMove⟩ := Bool.and_eq_true_iff.mp moves
      simp only [moves, if_true]
      by_cases granted : state.tally.pay.1 = true
      · obtain ⟨other, done, frame, otherLaid, operations, marks⟩ := Body.move_laid state.body state.body.layout laid block
          plan.preheader inst member apart sits.preheader
        have counted : state.tally.pay.2.count = state.tally.count + 1 := by
          simp only [Tally.pay] at granted ⊢
          simp [granted]
        refine ⟨⟨other, state.tally.pay.2, state.defs.erase dst⟩, ?_, .inr ⟨operation, dst, ?_⟩⟩
        · simp only [granted, if_true, done]
          rfl
        · exact ⟨found, defines, hoistable, mayMove, frame, otherLaid, operations, marks, rfl, counted⟩
      · have counted : state.tally.pay.2.count = state.tally.count := by
          simp only [Tally.pay] at granted ⊢
          simp [granted]
        refine ⟨{ state with tally := state.tally.pay.2 }, ?_, .inl ⟨rfl, rfl, counted⟩⟩
        simp only [granted]
        rfl
    · simp only [moves]
      exact ⟨state, rfl, .inl ⟨rfl, rfl, rfl⟩⟩

section Along

variable (may : State → Block → Inst → Prop)

def AlongInsts (block : Block) : List Inst → State → Prop
  | [], _ => True
  | inst :: rest, state =>
      may state block inst ∧ ∀ after, plan.hoistInst block state inst = .ok after → AlongInsts block rest after

def AlongRound : List Block → State → Prop
  | [], _ => True
  | block :: rest, state => ∀ insts, state.body.members block = .ok insts →
      plan.AlongInsts may block insts state ∧
        ∀ after, insts.foldlM (plan.hoistInst block) state = .ok after → AlongRound rest after

def AlongHoist : Nat → State → Prop
  | 0, _ => True
  | rounds + 1, state => plan.AlongRound may plan.loop.blocks.toList state ∧
      ∀ after, plan.hoistRound plan.loop.blocks.toList state = .ok after →
        after.tally.count ≠ state.tally.count → AlongHoist rounds after

section Decide

variable [∀ state block inst, Decidable (may state block inst)]

instance decideInsts (block : Block) (insts : List Inst) (state : State) : Decidable (plan.AlongInsts may block insts state) :=
  match insts with
  | [] => .isTrue trivial
  | inst :: rest =>
      have := fun after => decideInsts block rest after
      inferInstanceAs (Decidable (may state block inst ∧ ∀ after, plan.hoistInst block state inst = .ok after →
        plan.AlongInsts may block rest after))

instance decideRound (blocks : List Block) (state : State) : Decidable (plan.AlongRound may blocks state) :=
  match blocks with
  | [] => .isTrue trivial
  | block :: rest =>
      have := fun after => decideRound rest after
      inferInstanceAs (Decidable (∀ insts, state.body.members block = .ok insts → plan.AlongInsts may block insts state ∧
        ∀ after, insts.foldlM (plan.hoistInst block) state = .ok after → plan.AlongRound may rest after))

instance decideHoist (rounds : Nat) (state : State) : Decidable (plan.AlongHoist may rounds state) :=
  match rounds with
  | 0 => .isTrue trivial
  | rounds + 1 =>
      have := fun after => decideHoist rounds after
      inferInstanceAs (Decidable (plan.AlongRound may plan.loop.blocks.toList state ∧
        ∀ after, plan.hoistRound plan.loop.blocks.toList state = .ok after →
          after.tally.count ≠ state.tally.count → plan.AlongHoist may rounds after))

end Decide

structure Visit (state after : State) : Prop where
  visited : ∃ block ∈ plan.loop.blocks.toList, ∃ inst ∈ state.body.layout block, may state block inst ∧
    plan.hoistInst block state inst = .ok after

structure Ready (state : State) : Prop where
  laid : state.body.Laid state.body.layout
  sits : plan.Sits state.body

theorem moved_ready (state after : State) (ready : plan.Ready state) (block : Block) (inst : Inst) (operation : Operation)
    (dst : Var) (moved : plan.Moved block inst operation dst state after) : plan.Ready after :=
  ⟨by rw [Body.layout_laid after.body _ moved.laid]; exact moved.laid, plan.sits_frame _ _ moved.frame ready.sits⟩

theorem stayed_ready (state after : State) (ready : plan.Ready state) (stayed : Stayed state after) : plan.Ready after := by
  refine ⟨?_, ?_⟩
  · rw [stayed.body]
    exact ready.laid
  · rw [stayed.body]
    exact ready.sits

theorem outcome_ready (state middle : State) (ready : plan.Ready state) (block : Block)
    (inLoop : block ∈ plan.loop.blocks.toList) (inst : Inst)
    (outcome : Stayed state middle ∨ ∃ operation dst, plan.Moved block inst operation dst state middle) :
    plan.Ready middle ∧ ∀ other, other ≠ inst → other ∈ state.body.layout block → other ∈ middle.body.layout block := by
  rcases outcome with stayed | ⟨operation, dst, moved⟩
  · refine ⟨plan.stayed_ready state middle ready stayed, fun other _ there => ?_⟩
    rw [stayed.body]
    exact there
  · refine ⟨plan.moved_ready state middle ready block inst operation dst moved, fun other different there => ?_⟩
    have apart : block ≠ plan.preheader := fun same => ready.sits.outside (same ▸ inLoop)
    rw [Body.layout_laid middle.body _ moved.laid, movedLayout, Function.update_of_ne apart, Function.update_self]
    exact (List.mem_erase_of_ne different).mpr there

def Runs (state after : State) (along : Prop) : Prop :=
  plan.Ready after ∧ (along → Relation.ReflTransGen (plan.Visit may) state after)

theorem insts_run (block : Block) (inLoop : block ∈ plan.loop.blocks.toList) (insts : List Inst) (once : insts.Nodup)
    (state : State) (ready : plan.Ready state) (placed : ∀ inst ∈ insts, inst ∈ state.body.layout block) :
    ∃ after, insts.foldlM (plan.hoistInst block) state = .ok after ∧
      plan.Runs may state after (plan.AlongInsts may block insts state) := by
  induction insts generalizing state with
  | nil => exact ⟨state, rfl, ready, fun _ => .refl⟩
  | cons inst rest ih =>
    obtain ⟨fresh, restOnce⟩ := List.nodup_cons.mp once
    have member := placed inst List.mem_cons_self
    obtain ⟨middle, visited, outcome⟩ := plan.hoist_inst_outcome state ready.laid ready.sits block inLoop inst member
    obtain ⟨middleReady, stays⟩ := plan.outcome_ready state middle ready block inLoop inst outcome
    have still (other : Inst) (later : other ∈ rest) : other ∈ middle.body.layout block :=
      stays other (fun same => fresh (same ▸ later)) (placed other (List.mem_cons_of_mem _ later))
    obtain ⟨after, done, afterReady, runs⟩ := ih restOnce middle middleReady still
    refine ⟨after, ?_, afterReady, fun along => ?_⟩
    · rw [List.foldlM_cons, visited]
      exact done
    · exact Relation.ReflTransGen.head ⟨block, inLoop, inst, member, along.1, visited⟩ (runs (along.2 middle visited))

theorem round_run (blocks : List Block) (inLoop : ∀ block ∈ blocks, block ∈ plan.loop.blocks.toList) (state : State)
    (ready : plan.Ready state) :
    ∃ after, plan.hoistRound blocks state = .ok after ∧ plan.Runs may state after (plan.AlongRound may blocks state) := by
  induction blocks generalizing state with
  | nil => exact ⟨state, rfl, ready, fun _ => .refl⟩
  | cons block rest ih =>
    have here := inLoop block List.mem_cons_self
    have read := Body.members_laid state.body state.body.layout ready.laid block (ready.sits.inside block here)
    obtain ⟨middle, visited, middleReady, first⟩ := plan.insts_run may block here (state.body.layout block)
      (Body.nodup_layout state.body state.body.layout ready.laid block) state ready (fun _ => id)
    obtain ⟨after, done, afterReady, second⟩ := ih (fun other later => inLoop other (List.mem_cons_of_mem _ later)) middle middleReady
    refine ⟨after, ?_, afterReady, fun along => ?_⟩
    · simp only [hoistRound, read, bind, Except.bind, visited]
      exact done
    · obtain ⟨alongInsts, alongRest⟩ := along _ read
      exact (first alongInsts).trans (second (alongRest middle visited))

theorem hoist_run (rounds : Nat) (state : State) (ready : plan.Ready state) :
    ∃ after, plan.hoist rounds state = .ok after ∧ plan.Runs may state after (plan.AlongHoist may rounds state) := by
  induction rounds generalizing state with
  | zero => exact ⟨state, rfl, ready, fun _ => .refl⟩
  | succ rounds ih =>
    obtain ⟨middle, visited, middleReady, first⟩ := plan.round_run may plan.loop.blocks.toList (fun _ => id) state ready
    by_cases settled : middle.tally.count = state.tally.count
    · refine ⟨middle, ?_, middleReady, fun along => first along.1⟩
      simp only [hoist, visited, bind, Except.bind, settled, if_true]
      rfl
    · obtain ⟨after, done, afterReady, second⟩ := ih middle middleReady
      refine ⟨after, ?_, afterReady, fun along => (first along.1).trans (second (along.2 middle visited settled))⟩
      simp only [hoist, visited, bind, Except.bind, settled, if_false]
      exact done

theorem along_insts_of_all (all : ∀ state block inst, may state block inst) (block : Block) (insts : List Inst) (state : State) :
    plan.AlongInsts may block insts state := by
  induction insts generalizing state with
  | nil => trivial
  | cons inst rest ih => exact ⟨all state block inst, fun after _ => ih after⟩

theorem along_round_of_all (all : ∀ state block inst, may state block inst) (blocks : List Block) (state : State) :
    plan.AlongRound may blocks state := by
  induction blocks generalizing state with
  | nil => trivial
  | cons block rest ih => exact fun insts _ => ⟨plan.along_insts_of_all may all block insts state, fun after _ => ih after⟩

theorem along_hoist_of_all (all : ∀ state block inst, may state block inst) (rounds : Nat) (state : State) :
    plan.AlongHoist may rounds state := by
  induction rounds generalizing state with
  | zero => trivial
  | succ rounds ih => exact ⟨plan.along_round_of_all may all _ state, fun after _ _ => ih after⟩

end Along

structure Planned (body : Body) (defs : List Var) : Prop where
  preheader : plan.loop.preheader? body = some plan.preheader
  live : body.Solved body.livenessAnalysis (OrderedSet.Over body.usedScope) (Meet.le .union) plan.live
  defs : body.definitions plan.loop.blocks.toList = .ok defs

theorem planned_ready (body : Body) (accepted : body.check = .ok ()) (dominance : Dominance)
    (natural : Loop.Natural body dominance plan.loop) (defs : List Var) (planned : plan.Planned body defs) (tally : Tally) :
    plan.Ready ⟨body, tally, defs⟩ := by
  have wellFormed := Body.well_formed_of_check body accepted
  obtain ⟨enters, apart, _⟩ := Loop.preheader_spec body plan.loop plan.preheader planned.preheader
  have inside := wellFormed.edges.predInside plan.loop.header plan.preheader enters
  have outside := (OrderedSet.contains_eq_false_iff _ natural.sound plan.preheader).mp apart
  exact ⟨wellFormed.laid, natural.sound, fun block member => natural.inside block (.inl member), inside, outside⟩

end HoistPlan

namespace Body

section Loops

variable (may : HoistPlan → HoistPlan.State → Block → Inst → Prop) (dominance : Dominance) (pinned : OrderedSet Var)

def AlongLoop (tally : Tally) (body : Body) (loop : Loop) : Prop :=
  ∀ preheader, loop.preheader? body = some preheader → ∀ live, body.liveness = .ok live →
    ∀ defs, body.definitions loop.blocks.toList = .ok defs →
      let plan : HoistPlan := ⟨loop, preheader, loop.exits body, live, dominance, pinned⟩
      plan.AlongHoist (may plan) (defs.length + 1) ⟨body, tally, defs⟩

def AlongLoops : Tally → List Loop → Body → Prop
  | _, [], _ => True
  | tally, loop :: rest, body => AlongLoop may dominance pinned tally body loop ∧
      ∀ after, body.hoistLoop dominance pinned tally loop = .ok after → AlongLoops after.1 rest after.2

def AlongMotion (fuel : Fuel) (body : Body) : Prop :=
  ∀ dominance, body.dominance = .ok dominance → ∀ pinned, body.addressTaken = .ok pinned →
    AlongLoops may dominance pinned ⟨fuel, 0⟩ (body.loops dominance) body

section Decide

variable [∀ plan state block inst, Decidable (may plan state block inst)]

instance (tally : Tally) (body : Body) (loop : Loop) : Decidable (AlongLoop may dominance pinned tally body loop) :=
  inferInstanceAs (Decidable (∀ preheader, loop.preheader? body = some preheader → ∀ live, body.liveness = .ok live →
    ∀ defs, body.definitions loop.blocks.toList = .ok defs →
      let plan : HoistPlan := ⟨loop, preheader, loop.exits body, live, dominance, pinned⟩
      plan.AlongHoist (may plan) (defs.length + 1) ⟨body, tally, defs⟩))

instance decideLoops (tally : Tally) (loops : List Loop) (body : Body) :
    Decidable (AlongLoops may dominance pinned tally loops body) :=
  match loops with
  | [] => .isTrue trivial
  | loop :: rest =>
      have := fun left after => decideLoops left rest after
      inferInstanceAs (Decidable (AlongLoop may dominance pinned tally body loop ∧
        ∀ after, body.hoistLoop dominance pinned tally loop = .ok after → AlongLoops may dominance pinned after.1 rest after.2))

instance (fuel : Fuel) (body : Body) : Decidable (AlongMotion may fuel body) :=
  inferInstanceAs (Decidable (∀ dominance, body.dominance = .ok dominance → ∀ pinned, body.addressTaken = .ok pinned →
    AlongLoops may dominance pinned ⟨fuel, 0⟩ (body.loops dominance) body))

end Decide

theorem along_loops_of_all (all : ∀ plan state block inst, may plan state block inst) (tally : Tally) (loops : List Loop)
    (body : Body) : AlongLoops may dominance pinned tally loops body := by
  induction loops generalizing tally body with
  | nil => trivial
  | cons loop rest ih =>
    exact ⟨fun _ _ _ _ _ _ => HoistPlan.along_hoist_of_all _ _ (all _) _ _, fun after _ => ih after.1 after.2⟩

theorem along_motion_of_all (all : ∀ plan state block inst, may plan state block inst) (fuel : Fuel) (body : Body) :
    AlongMotion may fuel body :=
  fun dominance _ pinned _ => along_loops_of_all may dominance pinned all _ _ _

theorem definitions_total (body : Body) (accepted : body.check = .ok ()) (blocks : List Block)
    (inside : ∀ block ∈ blocks, body.blocks.contains block = true) :
    body.definitions blocks =
      .ok ((blocks.flatMap body.layout).filterMap fun inst => (body.operation? inst).bind Operation.def?) := by
  have laid := (well_formed_of_check body accepted).laid
  have reads := map_m_ok body.members body.layout blocks fun block member => members_laid body body.layout laid block (inside block member)
  rw [definitions, reads]
  rfl

theorem natural_frame (body other : Body) (frame : body.SameFrame other) (loop : Loop)
    (natural : Loop.Natural body dominance loop) : Loop.Natural other dominance loop where
  sound := natural.sound
  entered := natural.entered
  inside := fun block member => (frame_contains body other frame block).trans (natural.inside block member)
  closed := fun block member apart pred edge reached =>
    natural.closed block member apart pred (frame.preds block ▸ edge) ((frame_reaches body other frame pred).mp reached)
  returns := fun block member apart => by
    obtain ⟨latch, blocks, isLatch, path, avoids⟩ := natural.returns block member apart
    exact ⟨latch, blocks, isLatch, frame_path body other frame block latch blocks path, avoids⟩

theorem preheader_frame (body other : Body) (frame : body.SameFrame other) (loop : Loop) :
    loop.preheader? other = loop.preheader? body := by
  simp only [Loop.preheader?, frame.preds, frame.succs]

theorem hoist_loop_planned (body : Body) (accepted : body.check = .ok ()) (loop : Loop) (natural : Loop.Natural body dominance loop)
    (preheader : Block) (entered : loop.preheader? body = some preheader) :
    ∃ live defs, let plan : HoistPlan := ⟨loop, preheader, loop.exits body, live, dominance, pinned⟩
      plan.Planned body defs ∧ (∀ tally, plan.Ready ⟨body, tally, defs⟩) ∧
        ∀ tally, body.hoistLoop dominance pinned tally loop =
          (plan.hoist (defs.length + 1) ⟨body, tally, defs⟩).map fun state => (state.tally, state.body) := by
  obtain ⟨live, solved⟩ := liveness_solved body accepted
  have defined := definitions_total body accepted loop.blocks.toList fun block member => natural.inside block (.inl member)
  have planned : HoistPlan.Planned ⟨loop, preheader, loop.exits body, live, dominance, pinned⟩ body _ := ⟨entered, solved, defined⟩
  refine ⟨live, _, planned, HoistPlan.planned_ready _ body accepted dominance natural _ planned, fun tally => ?_⟩
  simp only [hoistLoop, entered, liveness, solved.found, defined, bind, Except.bind]
  cases HoistPlan.hoist _ _ _ <;> rfl

-- What holds of the body, and survives every run of single moves, survives hoisting from all loops.
theorem hoist_loops_run (first : Body) (holds : Body → Prop) (accepts : ∀ body, holds body → body.check = .ok ())
    (framed : ∀ body, holds body → first.SameFrame body)
    (known : Loop → Prop) (natural : ∀ loop, known loop → Loop.Natural first dominance loop)
    (survives : ∀ (plan : HoistPlan) defs tally body after, holds body → known plan.loop → plan.pinned = pinned →
      plan.Planned body defs → plan.Ready ⟨body, tally, defs⟩ →
      Relation.ReflTransGen (plan.Visit (may plan)) ⟨body, tally, defs⟩ after → holds after.body)
    (loops : List Loop) (listed : ∀ loop ∈ loops, known loop) (tally : Tally) (body : Body) (start : holds body)
    (along : AlongLoops may dominance pinned tally loops body) :
    ∃ left other, body.hoistLoops dominance pinned tally loops = .ok (left, other) ∧ holds other := by
  induction loops generalizing tally body with
  | nil => exact ⟨tally, body, rfl, start⟩
  | cons loop rest ih =>
    obtain ⟨left, middle, done, holdsMiddle⟩ : ∃ left middle,
        body.hoistLoop dominance pinned tally loop = .ok (left, middle) ∧ holds middle := by
      cases entered : loop.preheader? body with
      | none =>
        refine ⟨tally, body, ?_, start⟩
        rw [hoistLoop, entered]
        rfl
      | some preheader =>
        have accepted := accepts body start
        have here := listed loop List.mem_cons_self
        have current := natural_frame dominance first body (framed body start) loop (natural loop here)
        obtain ⟨live, defs, planned, ready, hoists⟩ := body.hoist_loop_planned dominance pinned accepted loop current preheader entered
        obtain ⟨after, ran, _, runs⟩ := HoistPlan.hoist_run _ (may _) (defs.length + 1) _ (ready tally)
        refine ⟨after.tally, after.body, ?_, survives _ defs tally body after start here rfl planned (ready tally)
          (runs (along.1 preheader entered live planned.live.found defs planned.defs))⟩
        rw [hoists, ran]
        rfl
    obtain ⟨last, other, rested, holdsOther⟩ := ih (fun loop later => listed loop (List.mem_cons_of_mem _ later)) left middle
      holdsMiddle (along.2 (left, middle) done)
    refine ⟨last, other, ?_, holdsOther⟩
    simp only [hoistLoops, done, bind, Except.bind]
    exact rested

end Loops

theorem hoist_invariants_run (body : Body) (accepted : body.check = .ok ()) (fuel : Fuel)
    (may : HoistPlan → HoistPlan.State → Block → Inst → Prop) (along : AlongMotion may fuel body) (holds : Body → Prop)
    (start : holds body) (accepts : ∀ other, holds other → other.check = .ok ())
    (framed : ∀ other, holds other → body.SameFrame other)
    (survives : ∀ dominance pinned (plan : HoistPlan) defs tally other after, body.dominance = .ok dominance →
      body.Solved body.dominatorAnalysis (OrderedSet.Over body.blocks.refs) (Meet.le .intersection) dominance.facts →
      dominance.order.Describes body → body.addressTaken = .ok pinned → holds other → plan.loop ∈ body.loops dominance →
      plan.pinned = pinned → plan.Planned other defs → plan.Ready ⟨other, tally, defs⟩ →
      Relation.ReflTransGen (plan.Visit (may plan)) ⟨other, tally, defs⟩ after → holds after.body) :
    ∃ left other, body.hoistInvariants fuel = .ok (left, other) ∧ holds other := by
  have wellFormed := well_formed_of_check body accepted
  obtain ⟨dominance, dominated, solved, describes⟩ := dominance_total body accepted
  obtain ⟨pinned, taken, _⟩ := address_taken_total body body.layout wellFormed.laid
  obtain ⟨left, other, done, holdsOther⟩ := hoist_loops_run may dominance pinned body holds accepts framed
    (· ∈ body.loops dominance) (loops_natural body dominance wellFormed.edges describes)
    (fun plan defs tally other after => survives dominance pinned plan defs tally other after dominated solved describes taken)
    (body.loops dominance) (fun _ => id) ⟨fuel, 0⟩ body start (along dominance dominated pinned taken)
  refine ⟨left, other, ?_, holdsOther⟩
  rw [hoistInvariants, dominated]
  simp only [bind, Except.bind, taken]
  exact done

section Structure

variable (plan : HoistPlan) (state after : HoistPlan.State) (ready : plan.Ready state) (block : Block)
  (inLoop : block ∈ plan.loop.blocks.toList) (inst : Inst) (member : inst ∈ state.body.layout block)

theorem before_terminator_perm (body : Body) (insts : List Inst) (inst : Inst) :
    (body.beforeTerminator insts inst).Perm (inst :: insts) := by
  rw [beforeTerminator]
  split
  · rename_i last ends
    have final : insts.getLast? = some last := (Option.filter_eq_some_iff.mp ends).1
    have whole : insts = insts.dropLast ++ [last] := (List.dropLast_append_getLast? last final).symm
    have swapped : (insts.dropLast ++ [inst, last]).Perm (inst :: (insts.dropLast ++ [last])) := List.perm_middle
    rw [← whole] at swapped
    exact swapped
  · exact List.perm_append_singleton inst insts

theorem before_terminator_filter (body : Body) (insts : List Inst) (inst : Inst) (view : Inst → Bool)
    (unseen : view inst = false) : (body.beforeTerminator insts inst).filter view = insts.filter view := by
  rw [beforeTerminator]
  split
  · rename_i last ends
    have final : insts.getLast? = some last := (Option.filter_eq_some_iff.mp ends).1
    have whole : insts = insts.dropLast ++ [last] := (List.dropLast_append_getLast? last final).symm
    conv_rhs => rw [whole]
    rw [List.filter_append, List.filter_append, List.filter_cons_of_neg (by simp [unseen])]
  · rw [List.filter_append, List.filter_cons_of_neg (by simp [unseen]), List.filter_nil, List.append_nil]

include ready inLoop in
theorem moved_filter (view : Inst → Bool) (unseen : view inst = false) (other : Block) :
    (plan.movedLayout state.body block inst other).filter view = (state.body.layout other).filter view := by
  have apart : block ≠ plan.preheader := fun same => ready.sits.outside (same ▸ inLoop)
  rw [HoistPlan.movedLayout]
  by_cases here : other = plan.preheader
  · rw [here, Function.update_self]
    exact before_terminator_filter state.body _ inst view unseen
  · rw [Function.update_of_ne here]
    by_cases there : other = block
    · have once := nodup_layout state.body state.body.layout ready.laid block
      rw [there, Function.update_self, once.erase_eq_filter, List.filter_filter]
      apply List.filter_congr
      intro later _
      by_cases same : later = inst
      · simp [same, unseen]
      · simp [same]
    · rw [Function.update_of_ne there]

include member in
theorem moved_mem (other : Block) (later : Inst) (there : later ∈ plan.movedLayout state.body block inst other) :
    ∃ before, later ∈ state.body.layout before := by
  rw [HoistPlan.movedLayout] at there
  by_cases here : other = plan.preheader
  · rw [here, Function.update_self] at there
    rcases List.mem_cons.mp ((before_terminator_perm state.body _ inst).mem_iff.mp there) with same | before
    · exact ⟨block, same ▸ member⟩
    · exact ⟨plan.preheader, before⟩
  · rw [Function.update_of_ne here] at there
    by_cases source : other = block
    · rw [source, Function.update_self] at there
      exact ⟨block, List.mem_of_mem_erase there⟩
    · rw [Function.update_of_ne source] at there
      exact ⟨other, there⟩

include ready inLoop member in
theorem moved_structure (operation : Operation) (dst : Var) (moved : plan.Moved block inst operation dst state after) :
    state.body.KeepsStructure after.body := by
  have layout := layout_laid after.body _ moved.laid
  have computes := operation.hoistable_is_computation moved.hoistable
  have labels : after.body.isLabelAt = state.body.isLabelAt := funext fun inst => by rw [isLabelAt, isLabelAt, moved.operations]
  have fixed : after.body.isFixedAt = state.body.isFixedAt := funext fun inst => by rw [isFixedAt, isFixedAt, moved.operations]
  refine ⟨moved.frame, fun other operation found => ⟨operation, ?_, Operation.keeps_refl operation⟩, fun other => ?_,
    fun other _ => ?_, fun other later there => ?_⟩
  · rw [moved.operations, found]
  · rw [labels, layout]
    apply moved_filter plan state ready block inLoop inst
    rw [isLabelAt, moved.found]
    cases operation <;> first | rfl | cases computes
  · rw [fixed, layout]
    apply moved_filter plan state ready block inLoop inst
    rw [isFixedAt, moved.found, Option.any_some, computes]
    rfl
  · rw [layout] at there
    exact moved_mem plan state block inst member other later there

end Structure

def KeptFrom (body other : Body) : Prop := other.check = .ok () ∧ other.Unmarked ∧ body.KeepsStructure other

theorem visits_keep (plan : HoistPlan) (may : HoistPlan.State → Block → Inst → Prop) (holds : Body → List Var → Prop)
    (moves : ∀ state after block inst operation dst, plan.Ready state → holds state.body state.defs →
      block ∈ plan.loop.blocks.toList → inst ∈ state.body.layout block → may state block inst →
      plan.hoistInst block state inst = .ok after → plan.Moved block inst operation dst state after → holds after.body after.defs)
    (state after : HoistPlan.State) (ready : plan.Ready state) (start : holds state.body state.defs)
    (runs : Relation.ReflTransGen (plan.Visit may) state after) : plan.Ready after ∧ holds after.body after.defs := by
  induction runs with
  | refl => exact ⟨ready, start⟩
  | @tail middle last _ visit ih =>
    obtain ⟨middleReady, held⟩ := ih
    obtain ⟨block, inLoop, inst, member, allowed, visited⟩ := visit
    obtain ⟨found, same, outcome⟩ := plan.hoist_inst_outcome middle middleReady.laid middleReady.sits block inLoop inst member
    rw [visited] at same
    cases same
    rcases outcome with stayed | ⟨operation, dst, moved⟩
    · exact ⟨plan.stayed_ready middle last middleReady stayed, stayed.body ▸ stayed.defs ▸ held⟩
    · exact ⟨plan.moved_ready middle last middleReady block inst operation dst moved,
        moves middle last block inst operation dst middleReady held inLoop member allowed visited moved⟩

theorem visits_kept (body : Body) (plan : HoistPlan) (may : HoistPlan.State → Block → Inst → Prop)
    (state after : HoistPlan.State) (ready : plan.Ready state) (start : body.KeptFrom state.body)
    (runs : Relation.ReflTransGen (plan.Visit may) state after) : plan.Ready after ∧ body.KeptFrom after.body := by
  refine visits_keep plan may (fun other _ => body.KeptFrom other) ?_ state after ready start runs
  intro middle last block inst operation dst ready kept inLoop member _ _ moved
  have step := moved_structure plan middle last ready block inLoop inst member operation dst moved
  refine ⟨check_of_structure middle.body last.body _ kept.1 step moved.laid, fun place later there => ?_,
    structure_trans body middle.body last.body kept.2.2 step⟩
  rw [layout_laid last.body _ moved.laid] at there
  obtain ⟨before, placed⟩ := moved_mem plan middle block inst member place later there
  rw [moved.marks]
  exact kept.2.1 before later placed

theorem hoist_invariants_keeps (body : Body) (accepted : body.check = .ok ()) (unmarked : body.Unmarked) (fuel : Fuel) :
    body.PassKeeps (body.hoistInvariants fuel) := by
  let may : HoistPlan → HoistPlan.State → Block → Inst → Prop := fun _ _ _ _ => True
  apply hoist_invariants_run body accepted fuel may (along_motion_of_all may (fun _ _ _ _ => trivial) fuel body) body.KeptFrom
    ⟨accepted, unmarked, structure_refl body⟩ (fun _ kept => kept.1) (fun _ kept => kept.2.2.frame)
  intro dominance pinned plan defs tally other after _ _ _ _ start _ _ _ ready runs
  exact (visits_kept body plan (may plan) _ after ready start runs).2

end Body

end ThreeAddress
