import ThreeAddress.Proofs.Execution.LoopMotion
import ThreeAddress.Proofs.Flow.SameFrame
import ThreeAddress.Proofs.Optimizer.StillRounds

/-!
Hoisting leaves nothing to hoist. Each loop is drained in its turn, and the loops that follow neither take from it nor free
anything in it; so a second run finds every loop drained. This fails where a move goes in front of a terminator that reads
what moves: it may have been live in an earlier loop because of that terminator alone.
-/

set_option autoImplicit false

namespace ThreeAddress

namespace HoistPlan

theorem overtakes_nothing (plan : HoistPlan) (state : State) (block : Block) (inst : Inst)
    (only : plan.OvertakesOnly [] state block inst) (after : State) (ran : plan.hoistInst block state inst = .ok after)
    (counted : after.tally.count ≠ state.tally.count) (dst : Var)
    (defines : (state.body.operation? inst).bind Operation.def? = some dst) : state.body.endReads plan.preheader dst = false := by
  cases reads : state.body.endReads plan.preheader dst with
  | false => rfl
  | true =>
    have listed := only after ran counted dst defines reads
    rw [Body.endReads] at reads
    split at reads
    · rename_i last closes
      exact (List.not_mem_nil (listed _ closes last rfl)).elim
    · cases reads

-- The facts that were found before the first move hold of what is left in the loop after one more.
theorem sees_moved (plan : HoistPlan) (state after : State) (ready : plan.Ready state) (sees : plan.Sees state.body state.defs)
    (natural : Loop.Natural state.body plan.dominance plan.loop) (block : Block) (inLoop : block ∈ plan.loop.blocks.toList)
    (inst : Inst) (operation : Operation) (dst : Var) (moved : plan.Moved block inst operation dst state after)
    (code : plan.CodeMoved state.body.operationsIn after.body.operationsIn (dst ∉ ·.usedVars) block operation)
    (leaves : state.body.CanLeave plan.pinned plan.loop block operation dst) : plan.Sees after.body after.defs := by
  have defined := plan.moved_defined_in state.body after.body _ block operation code dst moved.defines plan.loop.blocks.toList
    (OrderedSet.nodup_to_list _ natural.sound) ready.sits.outside inLoop
  have left := (sees.left.trans defined).erase dst
  rw [List.erase_cons_head] at left
  rw [moved.defs]
  refine ⟨left, sees.sound, fun var kept place inside => ?_, sees.exits.trans (Body.frame_exits _ _ moved.frame plan.loop).symm⟩
  have known := List.mem_of_mem_erase kept
  rw [Body.frame_contains state.body after.body moved.frame] at inside
  have unread : var ∉ operation.usedVars := fun used => (leaves.operands var used).1 (sees.left.mem_iff.mp known)
  have unwritten : operation.def? ≠ some var := by
    rw [moved.defines]
    rintro ⟨rfl⟩
    have gone : (state.defs.erase dst).count dst = 0 := by
      rw [List.count_erase_self, sees.left.count_eq dst, leaves.once]
    exact List.count_eq_zero.mp gone kept
  rw [sees.live var known place inside,
    plan.unmentioned_live_iff state.body after.body var moved.frame _ block operation code unread unwritten]

end HoistPlan

namespace Body

theorem earlier_nested (body : Body) (accepted : body.check = .ok ()) (dominance : Dominance)
    (solved : body.Solved body.dominatorAnalysis (OrderedSet.Over body.blocks.refs) (Meet.le .intersection) dominance.facts)
    (describes : dominance.order.Describes body) (earlier loop : Loop) (earlierListed : earlier ∈ body.loops dominance)
    (listed : loop ∈ body.loops dominance) (apart : earlier.header ≠ loop.header) (size : earlier.blocks.size ≤ loop.blocks.size)
    (pre : Block) (enters : loop.preheader? body = some pre) :
    (earlier.Apart loop ∨ earlier.Inside loop) ∧ pre ∉ earlier.blocks.toList := by
  have edges := (well_formed_of_check body accepted).edges
  obtain ⟨closed, _⟩ := loops_listed body dominance edges describes loop listed
  have nested : earlier.Apart loop ∨ earlier.Inside loop := by
    rcases body.loops_overlap accepted dominance solved describes earlier loop earlierListed listed apart with
      disjoint | inside | around
    · exact .inl disjoint
    · exact .inr inside
    · have smaller := body.size_lt_of_inside dominance describes loop earlier listed earlierListed edges around
      exact (Nat.not_lt_of_le size smaller).elim
  refine ⟨nested, fun inEarlier => ?_⟩
  have within := body.loop_nested accepted dominance solved describes loop earlier listed earlierListed pre enters inEarlier
  rcases nested with disjoint | inside
  · exact disjoint loop.header (within _ closed.grown.entered) closed.grown.entered
  · obtain ⟨block, member, outside⟩ := inside.more
    exact outside (within block member)

theorem placed_moved (plan : HoistPlan) (body other : Body) (ends : Operation → Prop) (block : Block) (operation : Operation)
    (code : plan.CodeMoved body.operationsIn other.operationsIn ends block operation) (placed : Operation) :
    (∃ place, placed ∈ other.operationsIn place) ↔ ∃ place, placed ∈ body.operationsIn place := by
  obtain ⟨front, tail, before, now, _⟩ := code.target
  obtain ⟨early, late, were, are⟩ := code.source
  have taken : operation ∈ body.operationsIn block := were ▸ List.mem_append_right early List.mem_cons_self
  have arrived : operation ∈ other.operationsIn plan.preheader := now ▸ List.mem_append_right front List.mem_cons_self
  constructor
  · rintro ⟨place, member⟩
    by_cases target : place = plan.preheader
    · rw [target, now, List.mem_append, List.mem_cons] at member
      rcases member with here | rfl | here
      · exact ⟨plan.preheader, before ▸ List.mem_append_left tail here⟩
      · exact ⟨block, taken⟩
      · exact ⟨plan.preheader, before ▸ List.mem_append_right front here⟩
    · by_cases source : place = block
      · rw [source, are, List.mem_append] at member
        exact ⟨block, were ▸ List.mem_append.mpr (member.imp_right (List.mem_cons_of_mem operation))⟩
      · exact ⟨place, code.elsewhere place target source ▸ member⟩
  · rintro ⟨place, member⟩
    by_cases target : place = plan.preheader
    · rw [target, before, List.mem_append] at member
      exact ⟨plan.preheader, now ▸ List.mem_append.mpr (member.imp_right (List.mem_cons_of_mem operation))⟩
    · by_cases source : place = block
      · rw [source, were, List.mem_append, List.mem_cons] at member
        rcases member with here | rfl | here
        · exact ⟨block, are ▸ List.mem_append_left late here⟩
        · exact ⟨plan.preheader, arrived⟩
        · exact ⟨block, are ▸ List.mem_append_right early here⟩
      · exact ⟨place, (code.elsewhere place target source).symm ▸ member⟩

def Memory (body : Body) (pinned : OrderedSet Var) : Prop :=
  ∀ var, pinned.contains var = true ↔ ∃ operation, (∃ block, operation ∈ body.operationsIn block) ∧ operation.pinned? = some var

-- What hoisting keeps from loop to loop: those that are done stay drained.
structure Drains (first : Body) (pinned : OrderedSet Var) (done : List Loop) (body : Body) : Prop where
  accepted : body.check = .ok ()
  frame : first.SameFrame body
  memory : body.Memory pinned
  drained : ∀ loop ∈ done, ∀ pre, loop.preheader? first = some pre → body.Drained pinned loop

section Draining

variable (first : Body) (firstAccepted : first.check = .ok ()) (dominance : Dominance)
  (computed : first.dominance = .ok dominance) (done : List Loop)

include firstAccepted computed

theorem drains_solved (pinned : OrderedSet Var) (body : Body) (drains : Drains first pinned done body) :
    body.Solved body.dominatorAnalysis (OrderedSet.Over body.blocks.refs) (Meet.le .intersection) dominance.facts ∧
      dominance.order.Describes body ∧ body.loops dominance = first.loops dominance := by
  obtain ⟨found, again, solved, describes⟩ := body.dominance_total drains.accepted
  rw [frame_dominance first body drains.frame firstAccepted drains.accepted, computed] at again
  cases again
  exact ⟨solved, describes, frame_loops first body drains.frame dominance⟩

section Plan

variable (plan : HoistPlan) (same : plan.dominance = dominance) (listed : plan.loop ∈ first.loops dominance)
  (enters : plan.loop.preheader? first = some plan.preheader)
  (before : ∀ loop ∈ done, loop ∈ first.loops dominance ∧ (loop.Apart plan.loop ∨ loop.Inside plan.loop) ∧
    plan.preheader ∉ loop.blocks.toList)

include same listed enters before

theorem drains_moved (state after : HoistPlan.State) (ready : plan.Ready state)
    (drains : Drains first plan.pinned done state.body) (sees : plan.Sees state.body state.defs) (block : Block)
    (inLoop : block ∈ plan.loop.blocks.toList) (inst : Inst) (member : inst ∈ state.body.layout block) (operation : Operation)
    (dst : Var) (moved : plan.Moved block inst operation dst state after)
    (only : state.body.endReads plan.preheader dst = false) :
    Drains first plan.pinned done after.body ∧ plan.Sees after.body after.defs := by
  obtain ⟨solved, describes, loops⟩ := drains_solved first firstAccepted dominance computed done plan.pinned state.body drains
  rw [← loops] at listed
  rw [← preheader_frame first state.body drains.frame] at enters
  have natural := loops_natural state.body dominance (well_formed_of_check state.body drains.accepted).edges describes plan.loop listed
  have code : plan.CodeMoved state.body.operationsIn after.body.operationsIn (dst ∉ ·.usedVars) block operation := by
    rw [← heard_in_all, ← heard_in_all]
    refine plan.heard_moved [] state after ready block inLoop inst member operation dst moved fun reads => ?_
    rw [only] at reads
    cases reads
  have placed : operation ∈ state.body.operationsIn block := by
    obtain ⟨front, back, were, _⟩ := code.source
    exact were ▸ List.mem_append_right front List.mem_cons_self
  subst same
  have leaves := (plan.may_move_iff state.body drains.accepted solved natural state.defs sees block inLoop operation dst).mp
    moved.mayMove
  have keeps := moved_structure plan state after ready block inLoop inst member operation dst moved
  refine ⟨⟨check_of_structure state.body after.body _ drains.accepted keeps moved.laid,
    frame_trans first state.body after.body drains.frame moved.frame, fun var => ?_, fun loop isDone pre loopEnters => ?_⟩,
    plan.sees_moved state after ready sees natural block inLoop inst operation dst moved code leaves⟩
  · have placed := placed_moved plan state.body after.body _ block operation code
    exact (drains.memory var).trans (exists_congr fun other => and_congr_left fun _ => (placed other).symm)
  · obtain ⟨loopListed, nested, away⟩ := before loop isDone
    exact plan.drained_moved state.body after.body drains.accepted plan.dominance solved describes plan.pinned listed enters
      moved.frame block inLoop operation placed dst moved.defines leaves code loop (loops ▸ loopListed) nested
      (drains.drained loop isDone pre loopEnters) moved.hoistable away

theorem drains_visits (state after : HoistPlan.State) (ready : plan.Ready state) (drains : Drains first plan.pinned done state.body)
    (sees : plan.Sees state.body state.defs) (runs : Relation.ReflTransGen (plan.Visit (plan.OvertakesOnly [])) state after) :
    plan.Ready after ∧ Drains first plan.pinned done after.body ∧ plan.Sees after.body after.defs := by
  refine visits_keep plan _ (fun body defs => Drains first plan.pinned done body ∧ plan.Sees body defs) ?_ state after ready
    ⟨drains, sees⟩ runs
  intro middle last block inst operation dst ready ⟨drains, sees⟩ inLoop member allowed visited moved
  have defines : (middle.body.operation? inst).bind Operation.def? = some dst := by
    rw [moved.found]
    exact moved.defines
  exact drains_moved first firstAccepted dominance computed done plan same listed enters before middle last ready drains sees block
    inLoop inst member operation dst moved
    (plan.overtakes_nothing middle block inst allowed last visited (by rw [moved.counted]; omega) dst defines)

end Plan

section Loop

variable (pinned : OrderedSet Var) (loop : Loop) (listed : loop ∈ first.loops dominance)
  (before : ∀ earlier ∈ done, earlier ∈ first.loops dominance ∧ earlier.header ≠ loop.header ∧
    earlier.blocks.size ≤ loop.blocks.size)
  (tally : Tally) (unlimited : tally.Unlimited) (body : Body) (drains : Drains first pinned done body)

omit firstAccepted computed in
theorem drains_done (after : Body) (drains : Drains first pinned done after)
    (drained : ∀ pre, loop.preheader? first = some pre → after.Drained pinned loop) :
    Drains first pinned (done ++ [loop]) after := by
  refine ⟨drains.accepted, drains.frame, drains.memory, fun other isDone pre enters => ?_⟩
  rcases List.mem_append.mp isDone with old | new
  · exact drains.drained other old pre enters
  · rw [List.mem_singleton.mp new] at enters ⊢
    exact drained pre enters

include listed before unlimited drains

theorem hoist_entered_drains (preheader : Block) (entered : loop.preheader? body = some preheader)
    (along : AlongLoop (fun plan => plan.OvertakesOnly []) dominance pinned tally body loop) :
    ∃ left moved, body.hoistLoop dominance pinned tally loop = .ok (left, moved) ∧ left.Unlimited ∧
      Drains first pinned (done ++ [loop]) moved := by
  obtain ⟨solved, describes, loops⟩ := drains_solved first firstAccepted dominance computed done pinned body drains
  have enters := preheader_frame first body drains.frame loop
  have natural := loops_natural body dominance (well_formed_of_check body drains.accepted).edges describes loop (loops ▸ listed)
  obtain ⟨live, defs, planned, ready, hoists⟩ := body.hoist_loop_planned dominance pinned drains.accepted loop natural preheader entered
  let plan : HoistPlan := ⟨loop, preheader, loop.exits body, live, dominance, pinned⟩
  have sees := plan.planned_sees body defs planned (fun block member => natural.inside block (.inl member)) drains.accepted rfl
  obtain ⟨after, ran, afterReady, runs⟩ := plan.hoist_run (plan.OvertakesOnly []) (defs.length + 1) _ (ready tally)
  obtain ⟨left, idle⟩ :=
    plan.settles_idle _ after (plan.hoist_settles _ _ after ran (Nat.lt_succ_self _)) unlimited afterReady
  have nested (earlier : Loop) (isDone : earlier ∈ done) : earlier ∈ first.loops dominance ∧
      (earlier.Apart loop ∨ earlier.Inside loop) ∧ preheader ∉ earlier.blocks.toList := by
    obtain ⟨earlierListed, apart, size⟩ := before earlier isDone
    exact ⟨earlierListed, body.earlier_nested drains.accepted dominance solved describes earlier loop (loops ▸ earlierListed)
      (loops ▸ listed) apart size preheader entered⟩
  obtain ⟨_, afterDrains, afterSees⟩ := drains_visits first firstAccepted dominance computed done plan rfl listed
    (enters ▸ entered) nested _ after (ready tally) drains sees (runs (along preheader entered live planned.live.found defs planned.defs))
  obtain ⟨afterSolved, afterDescribes, afterLoops⟩ :=
    drains_solved first firstAccepted dominance computed done pinned after.body afterDrains
  have afterNatural := loops_natural after.body dominance (well_formed_of_check after.body afterDrains.accepted).edges
    afterDescribes loop (afterLoops ▸ listed)
  have drained := (plan.idle_iff_drained after.body afterDrains.accepted afterSolved afterNatural after.defs afterSees).mp idle
  refine ⟨after.tally, after.body, ?_, left, drains_done first done pinned loop after.body afterDrains fun _ _ => drained⟩
  rw [hoists, ran]
  rfl

theorem hoist_loop_drains (along : AlongLoop (fun plan => plan.OvertakesOnly []) dominance pinned tally body loop) :
    ∃ left moved, body.hoistLoop dominance pinned tally loop = .ok (left, moved) ∧ left.Unlimited ∧
      Drains first pinned (done ++ [loop]) moved := by
  cases entered : loop.preheader? body with
  | none =>
    refine ⟨tally, body, by rw [hoistLoop, entered]; rfl, unlimited, drains_done first done pinned loop body drains ?_⟩
    intro pre enters
    rw [← preheader_frame first body drains.frame loop, entered] at enters
    cases enters
  | some preheader =>
    exact hoist_entered_drains first firstAccepted dominance computed done pinned loop listed before tally unlimited body drains
      preheader entered along

end Loop

theorem hoist_loops_drains (pinned : OrderedSet Var) (rest : List Loop) (split : first.loops dominance = done ++ rest)
    (tally : Tally) (unlimited : tally.Unlimited) (body : Body) (drains : Drains first pinned done body)
    (along : AlongLoops (fun plan => plan.OvertakesOnly []) dominance pinned tally rest body) :
    ∃ left moved, body.hoistLoops dominance pinned tally rest = .ok (left, moved) ∧
      Drains first pinned (first.loops dominance) moved := by
  induction rest generalizing done tally body with
  | nil =>
    rw [List.append_nil] at split
    exact ⟨tally, body, rfl, split ▸ drains⟩
  | cons loop rest ih =>
    obtain ⟨_, describes, loops⟩ := drains_solved first firstAccepted dominance computed done pinned body drains
    have edges := (well_formed_of_check body drains.accepted).edges
    have once := (loops_headers body dominance edges describes).1
    have sorted := body.loops_sorted dominance
    rw [loops, split] at once sorted
    rw [List.map_append, List.map_cons] at once
    have listed : loop ∈ first.loops dominance := split ▸ List.mem_append_right done List.mem_cons_self
    have before (earlier : Loop) (isDone : earlier ∈ done) : earlier ∈ first.loops dominance ∧ earlier.header ≠ loop.header ∧
        earlier.blocks.size ≤ loop.blocks.size :=
      ⟨split ▸ List.mem_append_left _ isDone,
        (List.nodup_append.mp once).2.2 _ (List.mem_map_of_mem isDone) _ List.mem_cons_self,
        (List.pairwise_append.mp sorted).2.2 earlier isDone loop List.mem_cons_self⟩
    obtain ⟨left, middle, hoisted, leftUnlimited, middleDrains⟩ := hoist_loop_drains first firstAccepted dominance computed done pinned
      loop listed before tally unlimited body drains along.1
    obtain ⟨last, moved, rested, movedDrains⟩ := ih (done ++ [loop]) (by rw [split, List.append_assoc]; rfl) left leftUnlimited
      middle middleDrains (along.2 (left, middle) hoisted)
    refine ⟨last, moved, ?_, movedDrains⟩
    simp only [hoistLoops, hoisted, bind, Except.bind]
    exact rested

end Draining

section Again

variable (body : Body) (pinned : OrderedSet Var)

theorem memory_taken (laid : body.Laid body.layout) (taken : body.addressTaken = .ok pinned) : body.Memory pinned := by
  obtain ⟨found, again, sound, members⟩ := address_taken_total body body.layout laid
  cases taken.symm.trans again
  intro var
  rw [pinned.contains_iff sound, members]
  simp only [operations_in_laid body body.layout laid, List.mem_filterMap, Option.bind_eq_some_iff]
  constructor
  · exact fun ⟨block, inst, placed, operation, known, pins⟩ => ⟨operation, ⟨block, inst, placed, known⟩, pins⟩
  · exact fun ⟨operation, ⟨block, inst, placed, known⟩, pins⟩ => ⟨block, inst, placed, operation, known, pins⟩

theorem drained_congr (others : OrderedSet Var) (memory : body.Memory pinned) (otherMemory : body.Memory others) (loop : Loop)
    (drained : body.Drained pinned loop) : body.Drained others loop := by
  have same (var : Var) : others.contains var = pinned.contains var := by
    rw [Bool.eq_iff_iff, memory, otherMemory]
  intro block here operation member dst defines hoistable leaves
  refine drained block here operation member dst defines hoistable ⟨fun var used => ?_, leaves.once, ?_, leaves.dead, leaves.exits⟩
  · rw [← same]
    exact leaves.operands var used
  · rw [← same]
    exact leaves.unpinned

variable (accepted : body.check = .ok ()) (dominance : Dominance)
  (solved : body.Solved body.dominatorAnalysis (OrderedSet.Over body.blocks.refs) (Meet.le .intersection) dominance.facts)

include accepted solved

theorem hoist_loop_drained (loop : Loop) (natural : Loop.Natural body dominance loop)
    (drained : ∀ pre, loop.preheader? body = some pre → body.Drained pinned loop) (tally : Tally) :
    body.hoistLoop dominance pinned tally loop = .ok (tally, body) := by
  cases entered : loop.preheader? body with
  | none =>
    rw [hoistLoop, entered]
    rfl
  | some preheader =>
    obtain ⟨live, defs, planned, ready, hoists⟩ := body.hoist_loop_planned dominance pinned accepted loop natural preheader entered
    let plan : HoistPlan := ⟨loop, preheader, loop.exits body, live, dominance, pinned⟩
    have sees := plan.planned_sees body defs planned (fun block member => natural.inside block (.inl member)) accepted rfl
    have idle := (plan.idle_iff_drained body accepted solved natural defs sees).mpr (drained preheader entered)
    rw [hoists, plan.hoist_idle _ (ready tally) idle]
    rfl

theorem hoist_loops_drained (loops : List Loop) (natural : ∀ loop ∈ loops, Loop.Natural body dominance loop)
    (drained : ∀ loop ∈ loops, ∀ pre, loop.preheader? body = some pre → body.Drained pinned loop) (tally : Tally) :
    body.hoistLoops dominance pinned tally loops = .ok (tally, body) := by
  induction loops with
  | nil => rfl
  | cons loop rest ih =>
    obtain ⟨here, later⟩ := List.forall_mem_cons.mp natural
    obtain ⟨first, others⟩ := List.forall_mem_cons.mp drained
    simp only [hoistLoops, body.hoist_loop_drained pinned accepted dominance solved loop here first, bind, Except.bind]
    exact ih later others

end Again

-- With fuel that never ends and no move in front of a terminator that reads what moves, a second run moves nothing and leaves
-- the body as it is, whatever its fuel.
theorem motion_settles (body : Body) (accepted : body.check = .ok ()) (fuel : Fuel) (unlimited : fuel.remaining = none)
    (spares : AlongMotion (fun plan => plan.OvertakesOnly []) fuel body) :
    ∃ left moved, body.hoistInvariants fuel = .ok (left, moved) ∧
      ∀ more, moved.hoistInvariants more = .ok (⟨more, 0⟩, moved) := by
  obtain ⟨dominance, computed, _⟩ := body.dominance_total accepted
  obtain ⟨pinned, taken, _⟩ := address_taken_total body body.layout (well_formed_of_check body accepted).laid
  have memory := memory_taken body pinned (well_formed_of_check body accepted).laid taken
  obtain ⟨left, moved, ran, drains⟩ := hoist_loops_drains body accepted dominance computed [] pinned (body.loops dominance) rfl
    ⟨fuel, 0⟩ unlimited body ⟨accepted, frame_refl body, memory, nofun⟩ (spares dominance computed pinned taken)
  obtain ⟨solved, describes, loops⟩ := drains_solved body accepted dominance computed _ pinned moved drains
  have wellFormed := well_formed_of_check moved drains.accepted
  obtain ⟨others, otherTaken, _⟩ := address_taken_total moved moved.layout wellFormed.laid
  have movedComputed := (frame_dominance body moved drains.frame accepted drains.accepted).trans computed
  refine ⟨left, moved, ?_, fun more => ?_⟩
  · rw [hoistInvariants, computed]
    simp only [bind, Except.bind, taken]
    exact ran
  · rw [hoistInvariants, movedComputed]
    simp only [bind, Except.bind, otherTaken]
    refine moved.hoist_loops_drained others drains.accepted dominance solved _
      (loops_natural moved dominance wellFormed.edges describes) (fun loop listed pre enters => ?_) _
    rw [loops] at listed
    rw [preheader_frame body moved drains.frame] at enters
    exact drained_congr moved pinned others drains.memory (memory_taken moved others wellFormed.laid otherTaken) loop
      (drains.drained loop listed pre enters)

theorem spiral_settles : spiral.check = .ok () ∧ ∃ left moved, spiral.hoistInvariants .infinite = .ok (left, moved) ∧
    left.count = 2 ∧ ∀ more, moved.hoistInvariants more = .ok (⟨more, 0⟩, moved) := by
  have accepted : spiral.check = .ok () := by rfl
  have spares : AlongMotion (fun plan => plan.OvertakesOnly []) .infinite spiral := by decide +kernel
  have counts : ∀ after, spiral.hoistInvariants .infinite = .ok after → after.1.count = 2 := by decide +kernel
  obtain ⟨left, moved, ran, settled⟩ := motion_settles spiral accepted .infinite rfl spares
  exact ⟨accepted, left, moved, ran, counts _ ran, settled⟩

-- One loop after the other. The branch between them is all that reads what the first one writes, and the second loop
-- overwrites it.
def unsettled : Body where
  name := "unsettled"
  entry := .nth 0
  blocks := .ofList [
    { chain := ⟨.nth 0, .nth 0, 1⟩, succs := [.nth 1] },
    { chain := ⟨.nth 1, .nth 2, 2⟩, succs := [.nth 2, .nth 3], preds := [.nth 0, .nth 2] },
    { chain := ⟨.nth 3, .nth 5, 3⟩, succs := [.nth 1], preds := [.nth 1] },
    { chain := ⟨.nth 6, .nth 7, 2⟩, succs := [.nth 4, .nth 4], preds := [.nth 1] },
    { chain := ⟨.nth 8, .nth 10, 3⟩, succs := [.nth 5], preds := [.nth 3, .nth 3, .nth 5] },
    { chain := ⟨.nth 11, .nth 11, 1⟩, succs := [.nth 4], preds := [.nth 4] }]
  cells := .ofList [
    { operation := .read (.nth 1), block := .nth 0 },
    { operation := .label, block := .nth 1, next := .nth 2 },
    { operation := .branch .eq (.var (.nth 1)) (.lit 0) (.nth 6), block := .nth 1, prev := .nth 1 },
    { operation := .assign (.nth 0) (.lit 5), block := .nth 2, next := .nth 4 },
    { operation := .read (.nth 1), block := .nth 2, prev := .nth 3, next := .nth 5 },
    { operation := .goto (.nth 1), block := .nth 2, prev := .nth 4 },
    { operation := .label, block := .nth 3, next := .nth 7 },
    { operation := .branch .lt (.var (.nth 0)) (.lit 3) (.nth 8), block := .nth 3, prev := .nth 6 },
    { operation := .label, block := .nth 4, next := .nth 9 },
    { operation := .assign (.nth 0) (.lit 7), block := .nth 4, prev := .nth 8, next := .nth 10 },
    { operation := .write (.var (.nth 0)), block := .nth 4, prev := .nth 9 },
    { operation := .goto (.nth 8), block := .nth 5 }]
  vars := .ofList [some "x", some "y"]

theorem unsettled_motion_goes_on : unsettled.check = .ok () ∧ ∃ left moved, unsettled.hoistInvariants .infinite = .ok (left, moved) ∧
    ∃ more other, moved.hoistInvariants .infinite = .ok (more, other) ∧ more.count = 1 ∧ .nth 3 ∈ moved.layout (.nth 2) ∧
      .nth 3 ∈ other.layout (.nth 0) := by
  have accepted : unsettled.check = .ok () := by rfl
  obtain ⟨dominance, computed, _⟩ := unsettled.dominance_total accepted
  obtain ⟨left, moved, _, ran, movedAccepted, _⟩ := unsettled.hoist_invariants_relocates accepted .infinite dominance computed
  obtain ⟨movedDominance, movedComputed, _⟩ := moved.dominance_total movedAccepted
  obtain ⟨more, other, _, again, _⟩ := moved.hoist_invariants_relocates movedAccepted .infinite movedDominance movedComputed
  have moves : ∀ after, unsettled.hoistInvariants .infinite = .ok after →
      ∀ later, after.2.hoistInvariants .infinite = .ok later →
        later.1.count = 1 ∧ .nth 3 ∈ after.2.layout (.nth 2) ∧ .nth 3 ∈ later.2.layout (.nth 0) := by decide +kernel
  exact ⟨accepted, left, moved, ran, more, other, again, moves _ ran _ again⟩

end Body

end ThreeAddress
