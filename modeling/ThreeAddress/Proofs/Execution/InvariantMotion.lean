import ThreeAddress.Proofs.Execution.Ahead
import ThreeAddress.Proofs.Execution.DeadCode
import ThreeAddress.Proofs.Execution.Heard
import ThreeAddress.Proofs.Optimizer.InvariantMotion

/-!
Hoisting changes no trace as long as it is safe: the loop does not start the body, and the terminator of the
preheader does not read what moves in front of it. Then the body after a move is ahead in the loop, and the
liveness found before the first move still covers all that has not moved. Where a terminator does read it, that
is all that changes, and so the argument is made for the code without some terminators.
-/

set_option autoImplicit false

namespace ThreeAddress

namespace Body

def endReads (body : Body) (block : Block) (var : Var) : Bool :=
  match body.terminator? block with
  | .ok (some last) => (body.operation? last).any fun operation => operation.usedVars.contains var
  | _ => false

theorem operations_in_laid (body : Body) (layout : Block → List Inst) (laid : body.Laid layout) (block : Block) :
    body.operationsIn block = (layout block).filterMap body.operation? := by
  rw [operationsIn, code_laid body layout laid, codeOf, List.map_filterMap]
  apply List.filterMap_congr
  intro inst _
  cases body.operation? inst <;> rfl

def definedIn (body : Body) (blocks : List Block) : List Var :=
  (blocks.flatMap body.operationsIn).filterMap Operation.def?

theorem definitions_defined_in (body : Body) (accepted : body.check = .ok ()) (blocks : List Block)
    (inside : ∀ block ∈ blocks, body.blocks.contains block = true) : body.definitions blocks = .ok (body.definedIn blocks) := by
  have laid := (well_formed_of_check body accepted).laid
  have operations : body.operationsIn = fun block => (body.layout block).filterMap body.operation? :=
    funext (operations_in_laid body body.layout laid)
  rw [definitions_total body accepted blocks inside, definedIn, operations, ← List.filterMap_flatMap, List.filterMap_filterMap]

theorem mem_defined_in (body : Body) (blocks : List Block) (block : Block) (inBlocks : block ∈ blocks) (operation : Operation)
    (member : operation ∈ body.operationsIn block) (var : Var) (defines : operation.def? = some var) :
    var ∈ body.definedIn blocks :=
  List.mem_filterMap.mpr ⟨operation, List.mem_flatMap.mpr ⟨block, inBlocks, member⟩, defines⟩

end Body

theorem Liveness.mem_through (code : List (Inst × Operation)) (live : OrderedSet Var) (sound : live.Sound) (var : Var) :
    (through code.reverse live).Sound ∧
      (var ∈ (through code.reverse live).toList ↔ LiveBefore var (var ∈ live.toList) (code.map Prod.snd)) := by
  induction code with
  | nil => exact ⟨sound, Iff.rfl⟩
  | cons first rest ih =>
    obtain ⟨inst, operation⟩ := first
    obtain ⟨restSound, restLive⟩ := ih
    have last : through ((inst, operation) :: rest).reverse live = step inst operation (through rest.reverse live) := by
      rw [through, List.reverse_cons, List.foldl_append]
      rfl
    rw [last, mem_step inst operation _ restSound, restLive]
    exact ⟨sound_step inst operation _ restSound, Iff.rfl⟩

theorem Operation.terminator_writes_nothing (operation : Operation) (terminates : operation.isTerminator = true) :
    operation.def? = none ∧ operation.clobbersMemory = false := by
  cases operation <;> first | exact ⟨rfl, rfl⟩ | cases terminates

-- Terminators write nothing, so leaving one out only takes reads away.
theorem live_before_of_heard (overtaken : List Inst) (code : List (Inst × Operation)) (var : Var) (after : Prop)
    (live : LiveBefore var after ((code.filter (Body.isHeard overtaken)).map Prod.snd)) :
    LiveBefore var after (code.map Prod.snd) := by
  induction code with
  | nil => exact live
  | cons entry rest ih =>
    cases hears : Body.isHeard overtaken entry with
    | true =>
      rw [List.filter_cons_of_pos hears] at live
      exact live.imp_right fun ⟨unwritten, later⟩ => ⟨unwritten, ih later⟩
    | false =>
      rw [List.filter_cons_of_neg (by simp [hears])] at live
      have unwritten := (entry.2.terminator_writes_nothing (Body.terminator_of_unheard overtaken entry hears)).1
      exact .inr ⟨unwritten ▸ nofun, ih live⟩

namespace HoistPlan

variable (plan : HoistPlan)

-- A move goes wrong if the loop starts the body, because nothing runs the preheader then, or if the preheader's
-- terminator reads the destination.
def SafeMove (state : State) (block : Block) (inst : Inst) : Prop :=
  ∀ after, plan.hoistInst block state inst = .ok after → after.tally.count ≠ state.tally.count →
    plan.loop.header ≠ state.body.entry ∧
      ∀ dst, (state.body.operation? inst).bind Operation.def? = some dst → state.body.endReads plan.preheader dst = false

instance (state : State) (block : Block) (inst : Inst) : Decidable (plan.SafeMove state block inst) :=
  inferInstanceAs (Decidable (∀ after, plan.hoistInst block state inst = .ok after → after.tally.count ≠ state.tally.count →
    plan.loop.header ≠ state.body.entry ∧
      ∀ dst, (state.body.operation? inst).bind Operation.def? = some dst → state.body.endReads plan.preheader dst = false))

def OvertakesOnly (overtaken : List Inst) (state : State) (block : Block) (inst : Inst) : Prop :=
  ∀ after, plan.hoistInst block state inst = .ok after → after.tally.count ≠ state.tally.count →
    ∀ dst, (state.body.operation? inst).bind Operation.def? = some dst → state.body.endReads plan.preheader dst = true →
      ∀ ending, state.body.terminator? plan.preheader = .ok ending → ∀ last, ending = some last → last ∈ overtaken

instance (overtaken : List Inst) (state : State) (block : Block) (inst : Inst) :
    Decidable (plan.OvertakesOnly overtaken state block inst) :=
  inferInstanceAs (Decidable (∀ after, plan.hoistInst block state inst = .ok after → after.tally.count ≠ state.tally.count →
    ∀ dst, (state.body.operation? inst).bind Operation.def? = some dst → state.body.endReads plan.preheader dst = true →
      ∀ ending, state.body.terminator? plan.preheader = .ok ending → ∀ last, ending = some last → last ∈ overtaken))

structure QuietMove (overtaken : List Inst) (state : State) (block : Block) (inst : Inst) : Prop where
  apart : ∀ after, plan.hoistInst block state inst = .ok after → after.tally.count ≠ state.tally.count →
    plan.loop.header ≠ state.body.entry
  only : plan.OvertakesOnly overtaken state block inst

theorem quiet_of_safe (state : State) (block : Block) (inst : Inst) (safe : plan.SafeMove state block inst) :
    plan.QuietMove [] state block inst where
  apart := fun after ran counted => (safe after ran counted).1
  only := fun after ran counted dst defines reads => by
    rw [(safe after ran counted).2 dst defines] at reads
    cases reads

structure CodeMoved (before now : Block → List Operation) (ends : Operation → Prop) (block : Block) (operation : Operation) : Prop where
  elsewhere : ∀ unrelated, unrelated ≠ plan.preheader → unrelated ≠ block → now unrelated = before unrelated
  source : ∃ front back, before block = front ++ operation :: back ∧ now block = front ++ back
  target : ∃ front tail, before plan.preheader = front ++ tail ∧ now plan.preheader = front ++ operation :: tail ∧
    ∀ last ∈ tail, last.isTerminator = true ∧ ends last

theorem before_terminator_split (body : Body) (insts : List Inst) (inst : Inst) : ∃ front tail, insts = front ++ tail ∧
    body.beforeTerminator insts inst = front ++ inst :: tail ∧
    ∀ last ∈ tail, insts.getLast?.filter (fun last => (body.operation? last).any Operation.isTerminator) = some last := by
  rw [Body.beforeTerminator]
  split
  · rename_i last ends
    have final : insts.getLast? = some last := (Option.filter_eq_some_iff.mp ends).1
    refine ⟨insts.dropLast, [last], (List.dropLast_append_getLast? last final).symm, rfl, fun other member => ?_⟩
    rw [List.mem_singleton.mp member]
    exact ends
  · exact ⟨insts, [], (List.append_nil insts).symm, rfl, fun _ member => (List.not_mem_nil member).elim⟩

theorem moved_code (state after : State) (ready : plan.Ready state) (block : Block) (inLoop : block ∈ plan.loop.blocks.toList)
    (inst : Inst) (member : inst ∈ state.body.layout block) (operation : Operation) (dst : Var)
    (moved : plan.Moved block inst operation dst state after) (overtaken : List Inst) (ends : Operation → Prop)
    (heard : ∀ place last, state.body.terminator? plan.preheader = .ok (some place) → place ∉ overtaken →
      state.body.operation? place = some last → ends last) :
    plan.CodeMoved (state.body.heardIn overtaken) (after.body.heardIn overtaken) ends block operation := by
  have apart : block ≠ plan.preheader := fun same => ready.sits.outside (same ▸ inLoop)
  have before (other : Block) := state.body.heard_in_laid overtaken state.body.layout ready.laid other
  have now (other : Block) : after.body.heardIn overtaken other =
      state.body.heardOf overtaken (plan.movedLayout state.body block inst other) := by
    rw [Body.heard_in_laid _ _ _ moved.laid, Body.heardOf, Body.heardOf,
      Body.code_of_congr state.body after.body _ fun inst _ => congrFun moved.operations inst]
  have goesOn : operation.isTerminator = false := by
    have computes := operation.hoistable_is_computation moved.hoistable
    cases operation <;> first | rfl | cases computes
  refine ⟨fun other offPreheader offBlock => ?_, ?_, ?_⟩
  · rw [now, before, movedLayout, Function.update_of_ne offPreheader, Function.update_of_ne offBlock]
  · obtain ⟨front, back, whole⟩ := List.append_of_mem member
    have once := Body.nodup_layout state.body state.body.layout ready.laid block
    have erased : (state.body.layout block).erase inst = front ++ back := by
      rw [whole] at once ⊢
      have absent : inst ∉ front := fun early => (List.disjoint_of_nodup_append once) early List.mem_cons_self
      rw [List.erase_append_right _ absent, List.erase_cons_head]
    refine ⟨state.body.heardOf overtaken front, state.body.heardOf overtaken back, ?_, ?_⟩
    · rw [before, whole, Body.heard_of_append, Body.heard_of_cons _ _ inst back operation moved.found goesOn]
    · rw [now, movedLayout, Function.update_of_ne apart, Function.update_self, erased, Body.heard_of_append]
  · obtain ⟨front, tail, whole, split, final⟩ := before_terminator_split state.body (state.body.layout plan.preheader) inst
    refine ⟨state.body.heardOf overtaken front, state.body.heardOf overtaken tail, ?_, ?_, fun last member => ?_⟩
    · conv_lhs => rw [before, whole, Body.heard_of_append]
    · rw [now, movedLayout, Function.update_self, split, Body.heard_of_append,
        Body.heard_of_cons _ _ inst tail operation moved.found goesOn]
    · obtain ⟨place, inTail, found, unlisted⟩ := Body.heard_of_mem _ _ tail last member
      have closing := final place inTail
      obtain ⟨_, terminates⟩ := Option.filter_eq_some_iff.mp closing
      rw [found] at terminates
      have read := Body.terminator_laid state.body state.body.layout ready.laid plan.preheader ready.sits.preheader
      exact ⟨terminates, heard place last (read.trans (congrArg Except.ok closing)) (unlisted terminates) found⟩

def LiveOut (body : Body) (block : Block) (var : Var) : Prop :=
  ∃ succ ∈ body.succs block, var ∈ (plan.live.liveIn succ).toList

-- The facts about liveness hold of this code and this variable, whatever has moved since they were found.
def Covers (body : Body) (code : Block → List Operation) (var : Var) : Prop :=
  ∀ block, body.blocks.contains block = true →
    LiveBefore var (plan.LiveOut body block var) (code block) → var ∈ (plan.live.liveIn block).toList

theorem planned_covers (body : Body) (accepted : body.check = .ok ())
    (solved : body.Solved body.livenessAnalysis (OrderedSet.Over body.usedScope) (Meet.le .union) plan.live) (var : Var) :
    plan.Covers body body.operationsIn var := by
  intro block inside live
  have laid := (Body.well_formed_of_check body accepted).laid
  have laws := Body.liveness_lawful body body.usedScope (Body.mem_used_scope body)
  have flows := Solver.inflow_within body.livenessAnalysis _ plan.live solved.within laws.init block
  obtain ⟨_, joins, passes⟩ := body.solved_bounds _ _ _ laws plan.live solved block inside
  have through : body.livenessAnalysis.transfer block (Solver.inflow body.livenessAnalysis plan.live block) =
      Liveness.through (body.code block).reverse (Solver.inflow body.livenessAnalysis plan.live block) := by
    rw [← Body.code_rev_laid body laid block inside]
    rfl
  apply passes var
  rw [through, (Liveness.mem_through (body.code block) _ flows.sound var).2]
  apply live_before_mono var _ _ _ _ live
  exact fun ⟨succ, edge, member⟩ => joins succ edge var member

theorem CodeMoved.live_before_iff (before now : Block → List Operation) (ends : Operation → Prop) (block : Block) (operation : Operation)
    (code : plan.CodeMoved before now ends block operation) (var : Var) (unread : var ∉ operation.usedVars)
    (unwritten : operation.def? ≠ some var) (after : Prop) (place : Block) :
    LiveBefore var after (now place) ↔ LiveBefore var after (before place) := by
  by_cases target : place = plan.preheader
  · obtain ⟨front, tail, were, are, _⟩ := code.target
    rw [target, are, were]
    exact live_before_insert var after front tail operation unread unwritten
  · by_cases source : place = block
    · obtain ⟨front, back, were, are⟩ := code.source
      rw [source, are, were]
      exact (live_before_insert var after front back operation unread unwritten).symm
    · rw [code.elsewhere place target source]

theorem moved_covers (body other : Body) (frame : body.SameFrame other) (before now : Block → List Operation)
    (ends : Operation → Prop) (block : Block) (operation : Operation) (code : plan.CodeMoved before now ends block operation)
    (var : Var) (unread : var ∉ operation.usedVars) (unwritten : operation.def? ≠ some var) (covers : plan.Covers body before var) :
    plan.Covers other now var := by
  intro place inside live
  rw [LiveOut, frame.succs] at live
  apply covers place ((Body.frame_contains body other frame place).symm.trans inside)
  exact (code.live_before_iff plan before now ends block operation var unread unwritten _ place).mp live

theorem heard_covers (body : Body) (overtaken : List Inst) (var : Var) (covers : plan.Covers body body.operationsIn var) :
    plan.Covers body (body.heardIn overtaken) var :=
  fun block inside live => covers block inside (live_before_of_heard overtaken (body.code block) var _ live)

theorem moved_defined_in (body other : Body) (ends : Operation → Prop) (block : Block) (operation : Operation)
    (code : plan.CodeMoved body.operationsIn other.operationsIn ends block operation) (dst : Var) (defines : operation.def? = some dst)
    (blocks : List Block) (once : blocks.Nodup) (outside : plan.preheader ∉ blocks) (member : block ∈ blocks) :
    (body.definedIn blocks).Perm (dst :: other.definedIn blocks) := by
  obtain ⟨front, back, before, now⟩ := code.source
  have rest : (blocks.erase block).flatMap other.operationsIn = (blocks.erase block).flatMap body.operationsIn := by
    apply List.flatMap_congr
    intro place later
    have inBlocks := List.mem_of_mem_erase later
    apply code.elsewhere place (fun same => outside (same ▸ inBlocks))
    exact fun same => once.not_mem_erase (same ▸ later)
  have first := List.perm_cons_erase member
  have whole : (blocks.flatMap body.operationsIn).Perm (operation :: blocks.flatMap other.operationsIn) := by
    calc blocks.flatMap body.operationsIn
      _ |>.Perm ((block :: blocks.erase block).flatMap body.operationsIn) := first.flatMap_right _
      _ = (front ++ operation :: back) ++ (blocks.erase block).flatMap other.operationsIn := by
          rw [List.flatMap_cons, before, rest]
      _ |>.Perm (operation :: ((front ++ back) ++ (blocks.erase block).flatMap other.operationsIn)) := by
          rw [List.append_assoc, List.append_assoc]
          exact List.perm_middle
      _ = operation :: (block :: blocks.erase block).flatMap other.operationsIn := by rw [List.flatMap_cons, now]
      _ |>.Perm (operation :: blocks.flatMap other.operationsIn) := (first.symm.flatMap_right _).cons _
  have defined := whole.filterMap Operation.def?
  rw [List.filterMap_cons_some defines] at defined
  exact defined

section Move

variable (first : Body) (accepted : first.check = .ok ()) (dominance : Dominance)
  (solved : first.Solved first.dominatorAnalysis (OrderedSet.Over first.blocks.refs) (Meet.le .intersection) dominance.facts)
  (natural : Loop.Natural first dominance plan.loop) (around : Surroundings) (pinnedSound : plan.pinned.Sound)
  (memory : around.Within plan.pinned) (liveSound : (plan.live.liveIn plan.loop.header).Sound) (overtaken : List Inst)

structure Hoisting (body : Body) (defs : List Var) : Prop where
  accepted : body.check = .ok ()
  frame : first.SameFrame body
  entered : plan.loop.preheader? body = some plan.preheader
  left : defs.Perm (body.definedIn plan.loop.blocks.toList)
  covers : ∀ var ∈ defs, plan.Covers body body.operationsIn var
  hears : first.HearsAs body overtaken around

include pinnedSound memory in
theorem moved_undisturbed (body : Body) (defs : List Var) (operation : Operation) (dst : Var)
    (may : plan.MayMove defs operation dst) (left : (defs.erase dst).Perm (body.definedIn plan.loop.blocks.toList))
    (block : Block) (inLoop : block ∈ plan.loop.blocks.toList) :
    Machine.Undisturbed around dst operation (body.operationsIn block) := by
  have outside (var : Var) (unpinned : plan.pinned.contains var = false) : around.inMemory.contains var = false :=
    outside_memory around plan.pinned memory var ((OrderedSet.contains_eq_false_iff _ pinnedSound var).mp unpinned)
  intro other member var involved
  have absent : var ∉ defs.erase dst ∧ plan.pinned.contains var = false := by
    rcases involved with same | used
    · have none : (defs.erase dst).count dst = 0 := by rw [List.count_erase_self, may.once]
      rw [same]
      exact ⟨List.count_eq_zero.mp none, may.unpinned⟩
    · obtain ⟨unwritten, unpinned⟩ := may.operands var used
      exact ⟨fun kept => unwritten (List.mem_of_mem_erase kept), unpinned⟩
  refine ⟨fun defines => absent.1 ?_, fun _ => outside var absent.2⟩
  exact left.mem_iff.mpr (body.mem_defined_in _ block inLoop other member var defines)

structure SoundMove (body : Body) (before now : Block → List Operation) (block : Block) (operation : Operation) (dst : Var)
    (value : Machine → Int64) : Prop where
  code : plan.CodeMoved before now (dst ∉ ·.usedVars) block operation
  covers : plan.Covers body before dst
  computes : Machine.Computes around dst operation value
  unread : dst ∉ operation.usedVars
  undisturbed : ∀ place ∈ plan.loop.blocks.toList, Machine.Undisturbed around dst operation (now place)
  dead : dst ∉ (plan.live.liveIn plan.loop.header).toList

section Blocks

variable (body : Body) (before now : Block → List Operation) (block : Block) (operation : Operation) (dst : Var)
  (value : Machine → Int64) (move : plan.SoundMove around body before now block operation dst value) (a b : Machine)

include move

theorem inside_alike (place : Block) (inLoop : place ∈ plan.loop.blocks.toList) (apart : place ≠ plan.preheader)
    (agree : Machine.AgreeBut dst (LiveBefore dst (plan.LiveOut body place dst) (before place)) a b)
    (ahead : Machine.Ahead dst value b) :
    Alike (fun a b => Machine.AgreeBut dst (plan.LiveOut body place dst) a b ∧ Machine.Ahead dst value b)
      (a.run around (before place)) (b.run around (now place)) := by
  have free := move.undisturbed place inLoop
  by_cases source : place = block
  · obtain ⟨front, back, were, are⟩ := move.code.source
    rw [source] at agree free ⊢
    rw [were] at agree ⊢
    rw [are] at free ⊢
    apply Machine.source_alike around dst operation value move.computes move.unread _ front back _ _ a b agree ahead
    · exact fun other member => free other (List.mem_append_left back member)
    · exact fun other member => free other (List.mem_append_right front member)
  · rw [move.code.elsewhere place apart source] at free ⊢
    exact Machine.shared_alike around dst operation value move.computes _ _ free a b agree ahead

-- At the end of the preheader it gets ahead, and from there to the header the destination is dead.
theorem preheader_alike
    (agree : Machine.AgreeBut dst (LiveBefore dst (plan.LiveOut body plan.preheader dst) (before plan.preheader)) a b) :
    Alike (fun a b => Machine.AgreeBut dst False a b ∧ Machine.Ahead dst value b)
      (a.run around (before plan.preheader)) (b.run around (now plan.preheader)) := by
  obtain ⟨front, tail, were, are, ends⟩ := move.code.target
  have free : Machine.Undisturbed around dst operation tail := by
    intro last member var _
    obtain ⟨noDestination, noClobber⟩ := last.terminator_writes_nothing (ends last member).1
    rw [noDestination, noClobber]
    exact ⟨nofun, nofun⟩
  rw [were] at agree ⊢
  rw [are]
  apply Machine.target_alike around dst operation value move.computes move.unread front tail free
    (fun last member => (ends last member).2) a b
  exact Machine.agree_mono _ _ a b agree fun _ => Or.imp_right (live_before_mono dst False _ (front ++ tail) False.elim)

end Blocks

include accepted solved natural in
theorem moved_alike (body : Body) (defs : List Var) (hoisting : plan.Hoisting first around overtaken body defs)
    (outside : plan.preheader ∉ plan.loop.blocks.toList) (before now : Block → List Operation) (block : Block)
    (inLoop : block ∈ plan.loop.blocks.toList) (operation : Operation) (dst : Var) (value : Machine → Int64)
    (move : plan.SoundMove around body before now block operation dst value) (apart : plan.loop.header ≠ body.entry)
    (path : List Block) (target : Block) (leads : Path body body.entry path target) (machine : Machine) :
    Alike (fun _ _ => True) (machine.run around (path.flatMap before)) (machine.run around (path.flatMap now)) := by
  have wellFormed := Body.well_formed_of_check body hoisting.accepted
  have current := Body.natural_frame dominance first body hoisting.frame plan.loop natural
  obtain ⟨_, _, _, flows⟩ := Loop.preheader_spec body plan.loop plan.preheader hoisting.entered
  let related (place : Block) (a b : Machine) : Prop :=
    Machine.AgreeBut dst (dst ∈ (plan.live.liveIn place).toList) a b ∧ (place ∈ plan.loop.blocks.toList → Machine.Ahead dst value b)
  apply Body.path_alike body around before now related _ body.entry target path leads (Body.reaches_self _ _)
  · refine ⟨⟨rfl, fun _ _ => rfl⟩, fun member => ?_⟩
    rw [hoisting.frame.entry] at apart member
    exact (entry_outside first accepted dominance solved plan.loop natural apart member).elim
  · intro place reached a b ⟨agree, ahead⟩
    have inside := Body.reaches_inside body wellFormed.edges body.entry place wellFormed.entry reached
    have agrees := Machine.agree_mono _ _ a b agree fun _ => Or.imp_right (move.covers place inside)
    by_cases here : place ∈ plan.loop.blocks.toList
    · have stays := plan.inside_alike around body before now block operation dst value move a b place here
        (fun same => outside (same ▸ here)) agrees (ahead here)
      refine alike_mono _ _ _ _ stays fun a b ⟨agree, ahead⟩ succ edge => ⟨?_, fun _ => ahead⟩
      exact Machine.agree_mono _ _ a b agree fun _ => Or.imp_right fun member => ⟨succ, edge, member⟩
    · by_cases target : place = plan.preheader
      · rw [target] at agrees ⊢
        have leads := plan.preheader_alike around body before now block operation dst value move a b agrees
        refine alike_mono _ _ _ _ leads fun a b ⟨agree, ahead⟩ succ edge => ⟨?_, fun _ => ahead⟩
        exact Machine.agree_mono _ _ a b agree fun _ => Or.imp_right fun member => move.dead (flows succ edge ▸ member)
      · rw [move.code.elsewhere place target fun same => here (same ▸ inLoop)]
        refine alike_mono _ _ _ _ (Machine.run_unread around dst _ _ a b agrees) fun a b agree succ edge => ⟨?_, fun member => ?_⟩
        · exact Machine.agree_mono _ _ a b agree fun _ => Or.imp_right fun member => ⟨succ, edge, member⟩
        · rcases loop_entered body dominance plan.loop current plan.preheader hoisting.entered wellFormed.edges place succ
            reached edge member with inLoop | ⟨_, enters⟩
          · exact (here inLoop).elim
          · exact (target enters).elim

theorem hoisting_planned (start : Body) (startAccepted : start.check = .ok ()) (frame : first.SameFrame start)
    (hears : first.HearsAs start overtaken around) (defs : List Var) (planned : plan.Planned start defs) (sits : plan.Sits start) :
    plan.Hoisting first around overtaken start defs := by
  have collected := Body.definitions_defined_in start startAccepted plan.loop.blocks.toList sits.inside
  rw [planned.defs] at collected
  exact ⟨startAccepted, frame, planned.preheader, by rw [Except.ok.inj collected],
    fun var _ => plan.planned_covers start startAccepted planned.live var, hears⟩

section Moved

variable (state after : State) (ready : plan.Ready state) (hoisting : plan.Hoisting first around overtaken state.body state.defs)
  (block : Block) (inLoop : block ∈ plan.loop.blocks.toList) (inst : Inst) (member : inst ∈ state.body.layout block)
  (operation : Operation) (dst : Var) (moved : plan.Moved block inst operation dst state after)

include ready inLoop member moved

theorem whole_moved : plan.CodeMoved state.body.operationsIn after.body.operationsIn (fun _ => True) block operation := by
  rw [← Body.heard_in_all, ← Body.heard_in_all]
  exact plan.moved_code state after ready block inLoop inst member operation dst moved [] _ fun _ _ _ _ _ => trivial

theorem heard_moved (only : state.body.endReads plan.preheader dst = true → ∀ ending,
      state.body.terminator? plan.preheader = .ok ending → ∀ last, ending = some last → last ∈ overtaken) :
    plan.CodeMoved (state.body.heardIn overtaken) (after.body.heardIn overtaken) (dst ∉ ·.usedVars) block operation := by
  apply plan.moved_code state after ready block inLoop inst member operation dst moved overtaken
  intro place last closes unlisted found used
  have reads : state.body.endReads plan.preheader dst = true := by
    rw [Body.endReads, closes]
    simp only [found, Option.any_some]
    exact List.contains_iff_mem.mpr used
  exact unlisted (only reads _ closes place rfl)

include natural hoisting

theorem left_moved : (state.defs.erase dst).Perm (after.body.definedIn plan.loop.blocks.toList) := by
  have code := plan.whole_moved state after ready block inLoop inst member operation dst moved
  have defined := plan.moved_defined_in state.body after.body _ block operation code dst moved.defines plan.loop.blocks.toList
    (OrderedSet.nodup_to_list _ natural.sound) ready.sits.outside inLoop
  have erased := (hoisting.left.trans defined).erase dst
  rw [List.erase_cons_head] at erased
  exact erased

include accepted solved pinnedSound memory liveSound

theorem hears_moved (apart : plan.loop.header ≠ state.body.entry)
    (only : state.body.endReads plan.preheader dst = true → ∀ ending, state.body.terminator? plan.preheader = .ok ending →
      ∀ last, ending = some last → last ∈ overtaken) : state.body.HearsAs after.body overtaken around := by
  have may := plan.may_move_spec state.defs block operation dst moved.mayMove
  have present : dst ∈ state.defs := List.count_pos_iff.mp (by rw [may.once]; exact Nat.one_pos)
  have left := plan.left_moved first dominance natural around overtaken state after ready hoisting block inLoop inst member
    operation dst moved
  have undisturbed := plan.moved_undisturbed around pinnedSound memory after.body state.defs operation dst may left
  obtain ⟨value, computes⟩ := Machine.hoistable_computes around dst operation moved.hoistable moved.defines
  have sound : plan.SoundMove around state.body (state.body.heardIn overtaken) (after.body.heardIn overtaken) block operation dst
      value :=
    { code := plan.heard_moved overtaken state after ready block inLoop inst member operation dst moved only
      covers := plan.heard_covers state.body overtaken dst (hoisting.covers dst present)
      computes := computes
      unread := fun used => (may.operands dst used).1 present
      undisturbed := fun place inLoop other member =>
        undisturbed place inLoop other (after.body.mem_operations_in_of_heard overtaken place other member)
      dead := (OrderedSet.contains_eq_false_iff _ liveSound dst).mp may.dead }
  exact fun env path target leads => plan.moved_alike first accepted dominance solved natural around overtaken state.body
    state.defs hoisting ready.sits.outside _ _ block inLoop operation dst value sound apart path target leads ⟨env, 0⟩

theorem hoisting_moved (apart : plan.loop.header ≠ state.body.entry)
    (only : state.body.endReads plan.preheader dst = true → ∀ ending, state.body.terminator? plan.preheader = .ok ending →
      ∀ last, ending = some last → last ∈ overtaken) : plan.Hoisting first around overtaken after.body after.defs := by
  have may := plan.may_move_spec state.defs block operation dst moved.mayMove
  have gone : dst ∉ state.defs.erase dst := by
    rw [← List.count_eq_zero, List.count_erase_self, may.once]
  have left := plan.left_moved first dominance natural around overtaken state after ready hoisting block inLoop inst member
    operation dst moved
  have hears := plan.hears_moved first accepted dominance solved natural around pinnedSound memory liveSound overtaken state after
    ready hoisting block inLoop inst member operation dst moved apart only
  have keeps := Body.moved_structure plan state after ready block inLoop inst member operation dst moved
  refine ⟨Body.check_of_structure state.body after.body _ hoisting.accepted keeps moved.laid,
    Body.frame_trans first state.body after.body hoisting.frame moved.frame,
    (Body.preheader_frame state.body after.body moved.frame plan.loop).trans hoisting.entered, moved.defs ▸ left,
    fun var kept => ?_, first.hears_trans after.body overtaken around state.body hoisting.frame hoisting.hears hears⟩
  rw [moved.defs] at kept
  have before := List.mem_of_mem_erase kept
  have code := plan.whole_moved state after ready block inLoop inst member operation dst moved
  apply plan.moved_covers state.body after.body moved.frame _ _ _ block operation code var
    (fun used => (may.operands var used).1 before) _ (hoisting.covers var before)
  intro defines
  rw [moved.defines] at defines
  exact gone (Option.some.inj defines ▸ kept)

end Moved

end Move

end HoistPlan

namespace Body

theorem hoist_invariants_heard (body : Body) (accepted : body.check = .ok ()) (fuel : Fuel) (around : Surroundings)
    (within : ∀ pinned, body.addressTaken = .ok pinned → around.Within pinned) (overtaken : List Inst)
    (may : HoistPlan → HoistPlan.State → Block → Inst → Prop) (along : AlongMotion may fuel body)
    (quiet : ∀ dominance (plan : HoistPlan), body.dominance = .ok dominance → plan.loop ∈ body.loops dominance →
      plan.loop.preheader? body = some plan.preheader → ∀ state block inst, body.SameFrame state.body → may plan state block inst →
        plan.QuietMove overtaken state block inst)
    (left : Tally) (other : Body) (ran : body.hoistInvariants fuel = .ok (left, other)) : body.HearsAs other overtaken around := by
  let holds := fun other : Body => other.check = .ok () ∧ body.SameFrame other ∧ body.HearsAs other overtaken around
  obtain ⟨last, optimized, done, _, _, hears⟩ : ∃ last optimized, body.hoistInvariants fuel = .ok (last, optimized) ∧
      holds optimized := by
    apply hoist_invariants_run body accepted fuel may along holds ⟨accepted, frame_refl body, body.hears_refl overtaken around⟩
      (fun _ kept => kept.1) (fun _ kept => kept.2.1)
    intro dominance pinned plan defs tally start after computed dominated describes taken ⟨startAccepted, frame, hears⟩ listed same
      planned ready runs
    have wellFormed := well_formed_of_check body accepted
    have natural := loops_natural body dominance wellFormed.edges describes plan.loop listed
    obtain ⟨known, found, pinnedSound, _⟩ := address_taken_total body body.layout wellFormed.laid
    rw [taken] at found
    cases found
    have laws := liveness_lawful start start.usedScope (mem_used_scope start)
    have liveSound := (Solver.outgoing_within start.livenessAnalysis _ plan.live planned.live.within laws.init plan.loop.header).sound
    have begins := plan.hoisting_planned body around overtaken start startAccepted frame hears defs planned ready.sits
    have entered := (preheader_frame body start frame plan.loop).symm.trans planned.preheader
    suffices ends : plan.Hoisting body around overtaken after.body after.defs from ⟨ends.accepted, ends.frame, ends.hears⟩
    refine (visits_keep plan (may plan) (plan.Hoisting body around overtaken) ?_ _ after ready begins runs).2
    intro state last block inst operation dst ready hoisting inLoop member allowed visited moved
    have quietly := quiet dominance plan computed listed entered state block inst hoisting.frame allowed
    have counted : last.tally.count ≠ state.tally.count := by rw [moved.counted]; omega
    have defines : (state.body.operation? inst).bind Operation.def? = some dst := by
      rw [moved.found]
      exact moved.defines
    exact plan.hoisting_moved body accepted dominance dominated natural around (same ▸ pinnedSound) (same ▸ within pinned taken)
      liveSound overtaken state last ready hoisting block inLoop inst member operation dst moved
      (quietly.apart last visited counted) (quietly.only last visited counted dst defines)
  rw [ran] at done
  cases done
  exact hears

theorem hoist_invariants_traces (body : Body) (accepted : body.check = .ok ()) (fuel : Fuel) (around : Surroundings)
    (within : ∀ pinned, body.addressTaken = .ok pinned → around.Within pinned)
    (safe : AlongMotion HoistPlan.SafeMove fuel body) (left : Tally) (other : Body)
    (ran : body.hoistInvariants fuel = .ok (left, other)) : body.TracesAs other around := by
  apply traces_of_hears
  exact hoist_invariants_heard body accepted fuel around within [] HoistPlan.SafeMove safe
    (fun _ plan _ _ _ state block inst _ safely => plan.quiet_of_safe state block inst safely) left other ran

end Body

end ThreeAddress
