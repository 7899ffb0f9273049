import ThreeAddress.Proofs.Dataflow.Budget
import ThreeAddress.Proofs.Optimizer.EditCode

/-!
Dead code elimination, said about the code itself: which instructions each block loses.
-/

set_option autoImplicit false

namespace ThreeAddress

namespace Body

def sweptUnreachable : Fuel → List (Inst × Operation) → Fuel × List Inst
  | fuel, [] => (fuel, [])
  | fuel, (inst, operation) :: rest =>
      if operation.isLabel then sweptUnreachable fuel rest
      else
        let (granted, paid) := fuel.consume
        let (left, gone) := sweptUnreachable paid rest
        (left, if granted then inst :: gone else gone)

def sweptDead (pinned : OrderedSet Var) : OrderedSet Var → Fuel → List (Inst × Operation) → Fuel × List Inst
  | _, fuel, [] => (fuel, [])
  | live, fuel, (inst, operation) :: rest =>
      if isDead pinned live operation then
        let (granted, paid) := fuel.consume
        if granted then
          let (left, gone) := sweptDead pinned live paid rest
          (left, inst :: gone)
        else sweptDead pinned (Liveness.step inst operation live) paid rest
      else sweptDead pinned (Liveness.step inst operation live) fuel rest

def swept (pinned : OrderedSet Var) (order : FlowOrder) (facts : BlockFacts (OrderedSet Var)) (block : Block) (fuel : Fuel)
    (code : List (Inst × Operation)) : Fuel × List Inst :=
  if order.isReachable block then sweptDead pinned (facts.liveOut block) fuel code.reverse
  else sweptUnreachable fuel code.reverse

structure Marked (layout : Block → List Inst) (body other : Body) (gone : List Inst) : Prop where
  frame : body.SameFrame other
  laid : other.Laid layout
  operations : other.operation? = body.operation?
  marks : ∀ inst, other.isMarked inst = true ↔ body.isMarked inst = true ∨ inst ∈ gone

theorem marked_none (layout : Block → List Inst) (body : Body) (laid : body.Laid layout) : Marked layout body body [] :=
  ⟨frame_refl body, laid, rfl, fun inst => by simp⟩

theorem marked_append (layout : Block → List Inst) (body middle other : Body) (first second : List Inst)
    (before : Marked layout body middle first) (after : Marked layout middle other second) :
    Marked layout body other (first ++ second) where
  frame := frame_trans body middle other before.frame after.frame
  laid := after.laid
  operations := after.operations.trans before.operations
  marks := fun inst => by rw [after.marks, before.marks, List.mem_append, or_assoc]

theorem code_of_marked (layout : Block → List Inst) (body other : Body) (gone : List Inst) (marked : Marked layout body other gone) (insts : List Inst) :
    other.codeOf insts = body.codeOf insts :=
  code_of_congr body other insts fun inst _ => congrFun marked.operations inst

def markBlock (block : Block) (pinned : OrderedSet Var) (order : FlowOrder) (facts : BlockFacts (OrderedSet Var)) (fuel : Fuel)
    (insts : List Inst) (body : Body) : Except Fault (Fuel × Body) :=
  if order.isReachable block then body.markDead pinned (facts.liveOut block) fuel insts else body.markUnreachable fuel insts

section Sweep

variable (layout : Block → List Inst) (body : Body) (laid : body.Laid layout) (block : Block)

include laid

theorem set_mark_marked (inst : Inst) (member : inst ∈ layout block) :
    ∃ other, body.setMark inst true = .ok other ∧ Marked layout body other [inst] := by
  obtain ⟨other, done, frame, otherLaid, operations, marks⟩ := set_mark_laid body layout laid inst true block member
  refine ⟨other, done, frame, otherLaid, operations, fun later => ?_⟩
  rw [marks, List.mem_singleton]
  by_cases same : later = inst
  · rw [same, Function.update_self]
    simp
  · rw [Function.update_of_ne same]
    simp [same]

theorem mark_unreachable_marked (insts : List Inst) (placed : ∀ inst ∈ insts, inst ∈ layout block) (fuel : Fuel) :
    ∃ other, body.markUnreachable fuel insts = .ok ((sweptUnreachable fuel (body.codeOf insts)).1, other) ∧
      Marked layout body other (sweptUnreachable fuel (body.codeOf insts)).2 := by
  induction insts generalizing body fuel with
  | nil => exact ⟨body, rfl, marked_none layout body laid⟩
  | cons inst rest ih =>
    have restPlaced : ∀ later ∈ rest, later ∈ layout block := fun later member => placed later (List.mem_cons_of_mem _ member)
    obtain ⟨operation, found, reads⟩ := operation_placed body layout laid block inst (placed inst List.mem_cons_self)
    rw [code_of_cons body inst operation rest found]
    by_cases label : operation.isLabel = true
    · obtain ⟨other, done, marked⟩ := ih body laid restPlaced fuel
      simp only [markUnreachable, reads, bind, Except.bind, sweptUnreachable, label, if_true]
      exact ⟨other, done, marked⟩
    · by_cases granted : fuel.consume.1 = true
      · obtain ⟨middle, set, first⟩ := set_mark_marked layout body laid block inst (placed inst List.mem_cons_self)
        obtain ⟨other, done, second⟩ := ih middle first.laid restPlaced fuel.consume.2
        rw [code_of_marked layout body middle _ first] at done second
        simp only [markUnreachable, reads, bind, Except.bind, sweptUnreachable, label, granted, if_true, set]
        exact ⟨other, done, marked_append layout body middle other _ _ first second⟩
      · obtain ⟨other, done, marked⟩ := ih body laid restPlaced fuel.consume.2
        simp only [markUnreachable, reads, bind, Except.bind, sweptUnreachable, label, granted]
        exact ⟨other, done, marked⟩

theorem mark_dead_marked (pinned : OrderedSet Var) (insts : List Inst) (placed : ∀ inst ∈ insts, inst ∈ layout block)
    (live : OrderedSet Var) (fuel : Fuel) :
    ∃ other, body.markDead pinned live fuel insts = .ok ((sweptDead pinned live fuel (body.codeOf insts)).1, other) ∧
      Marked layout body other (sweptDead pinned live fuel (body.codeOf insts)).2 := by
  induction insts generalizing body live fuel with
  | nil => exact ⟨body, rfl, marked_none layout body laid⟩
  | cons inst rest ih =>
    have restPlaced : ∀ later ∈ rest, later ∈ layout block := fun later member => placed later (List.mem_cons_of_mem _ member)
    obtain ⟨operation, found, reads⟩ := operation_placed body layout laid block inst (placed inst List.mem_cons_self)
    rw [code_of_cons body inst operation rest found]
    by_cases dead : isDead pinned live operation = true
    · by_cases granted : fuel.consume.1 = true
      · obtain ⟨middle, set, first⟩ := set_mark_marked layout body laid block inst (placed inst List.mem_cons_self)
        obtain ⟨other, done, second⟩ := ih middle first.laid restPlaced live fuel.consume.2
        rw [code_of_marked layout body middle _ first] at done second
        simp only [markDead, reads, bind, Except.bind, sweptDead, dead, granted, if_true, set]
        exact ⟨other, done, marked_append layout body middle other _ _ first second⟩
      · obtain ⟨other, done, marked⟩ := ih body laid restPlaced (Liveness.step inst operation live) fuel.consume.2
        simp only [markDead, reads, bind, Except.bind, sweptDead, dead, granted]
        exact ⟨other, done, marked⟩
    · obtain ⟨other, done, marked⟩ := ih body laid restPlaced (Liveness.step inst operation live) fuel
      simp only [markDead, reads, bind, Except.bind, sweptDead, dead]
      exact ⟨other, done, marked⟩

variable (pinned : OrderedSet Var) (order : FlowOrder) (facts : BlockFacts (OrderedSet Var))

theorem mark_block_marked (fuel : Fuel) :
    ∃ other, markBlock block pinned order facts fuel (layout block).reverse body =
        .ok ((swept pinned order facts block fuel (body.codeOf (layout block))).1, other) ∧
      Marked layout body other (swept pinned order facts block fuel (body.codeOf (layout block))).2 := by
  have placed : ∀ inst ∈ (layout block).reverse, inst ∈ layout block := fun inst => List.mem_reverse.mp
  have reversed : body.codeOf (layout block).reverse = (body.codeOf (layout block)).reverse := List.filterMap_reverse
  rw [markBlock, swept, ← reversed]
  by_cases reachable : order.isReachable block = true
  · simp only [reachable, if_true]
    exact mark_dead_marked layout body laid block pinned _ placed (facts.liveOut block) fuel
  · simp only [reachable]
    exact mark_unreachable_marked layout body laid block _ placed fuel

theorem mark_blocks_cons (inside : body.blocks.contains block = true) (rest : List Block) (fuel : Fuel) :
    body.markBlocks pinned order facts fuel (block :: rest) =
      (markBlock block pinned order facts fuel (layout block).reverse body).bind fun marked =>
        marked.2.markBlocks pinned order facts marked.1 rest := by
  rw [markBlocks, members_rev_laid body layout laid block inside, markBlock]
  by_cases reachable : order.isReachable block = true
  · simp only [reachable, if_true]
    rfl
  · simp only [reachable]
    rfl

theorem mark_blocks_marked (blocks : List Block) (inside : ∀ block ∈ blocks, body.blocks.contains block = true)
    (once : blocks.Nodup) (fuel : Fuel) :
    ∃ left other, ∃ gone : Block → List Inst, body.markBlocks pinned order facts fuel blocks = .ok (left, other) ∧
      Marked layout body other (blocks.flatMap gone) ∧
      ∀ block ∈ blocks, ∃ given, gone block = (swept pinned order facts block given (body.codeOf (layout block))).2 := by
  induction blocks generalizing body fuel with
  | nil => exact ⟨fuel, body, fun _ => [], rfl, marked_none layout body laid, fun _ member => (List.not_mem_nil member).elim⟩
  | cons block rest ih =>
    obtain ⟨fresh, restOnce⟩ := List.nodup_cons.mp once
    obtain ⟨middle, done, marked⟩ := mark_block_marked layout body laid block pinned order facts fuel
    obtain ⟨left, other, gone, finished, otherMarked, each⟩ := ih middle marked.laid
      (fun other member => (frame_contains body middle marked.frame other).trans (inside other (List.mem_cons_of_mem _ member)))
      restOnce (swept pinned order facts block fuel (body.codeOf (layout block))).1
    let all := Function.update gone block (swept pinned order facts block fuel (body.codeOf (layout block))).2
    have later (other : Block) (member : other ∈ rest) : all other = gone other := by
      have different : other ≠ block := fun same => fresh (same ▸ member)
      exact Function.update_of_ne different _ _
    have here : all block = (swept pinned order facts block fuel (body.codeOf (layout block))).2 := Function.update_self _ _ _
    refine ⟨left, other, all, ?_, ?_, fun other member => ?_⟩
    · rw [mark_blocks_cons layout body laid block pinned order facts (inside block List.mem_cons_self), done]
      exact finished
    · rw [List.flatMap_cons, here, show rest.flatMap all = rest.flatMap gone from List.flatMap_congr later]
      exact marked_append layout body middle other _ _ marked otherMarked
    · rcases List.mem_cons.mp member with same | inRest
      · rw [same, here]
        exact ⟨fuel, rfl⟩
      · rw [later other inRest]
        obtain ⟨given, swept⟩ := each other inRest
        rw [code_of_marked layout body middle _ marked] at swept
        exact ⟨given, swept⟩

end Sweep

theorem swept_unreachable_mem (fuel : Fuel) (code : List (Inst × Operation)) (inst : Inst)
    (gone : inst ∈ (sweptUnreachable fuel code).2) : ∃ operation, (inst, operation) ∈ code ∧ operation.isLabel = false := by
  induction code generalizing fuel with
  | nil => cases gone
  | cons first rest ih =>
    obtain ⟨other, operation⟩ := first
    have later (fuel : Fuel) (gone : inst ∈ (sweptUnreachable fuel rest).2) :
        ∃ found, (inst, found) ∈ (other, operation) :: rest ∧ found.isLabel = false := by
      obtain ⟨found, member, plain⟩ := ih fuel gone
      exact ⟨found, List.mem_cons_of_mem _ member, plain⟩
    by_cases label : operation.isLabel = true
    · simp only [sweptUnreachable, label, if_true] at gone
      exact later fuel gone
    · by_cases granted : fuel.consume.1 = true
      · simp only [sweptUnreachable, label, granted, if_true] at gone
        rcases List.mem_cons.mp gone with same | inRest
        · exact ⟨operation, same ▸ List.mem_cons_self, Bool.eq_false_iff.mpr label⟩
        · exact later fuel.consume.2 inRest
      · simp only [sweptUnreachable, label, granted] at gone
        exact later fuel.consume.2 gone

theorem is_dead_is_computation (pinned live : OrderedSet Var) (operation : Operation)
    (dead : isDead pinned live operation = true) : operation.isComputation = true := by
  cases operation <;> first | rfl | simp [isDead, Operation.def?, Operation.isPure, Operation.canTrap] at dead

theorem swept_dead_mem (pinned live : OrderedSet Var) (fuel : Fuel) (code : List (Inst × Operation)) (inst : Inst)
    (gone : inst ∈ (sweptDead pinned live fuel code).2) :
    ∃ operation, (inst, operation) ∈ code ∧ operation.isComputation = true := by
  induction code generalizing live fuel with
  | nil => cases gone
  | cons first rest ih =>
    obtain ⟨other, operation⟩ := first
    have later (live : OrderedSet Var) (fuel : Fuel) (gone : inst ∈ (sweptDead pinned live fuel rest).2) :
        ∃ found, (inst, found) ∈ (other, operation) :: rest ∧ found.isComputation = true := by
      obtain ⟨found, member, computes⟩ := ih live fuel gone
      exact ⟨found, List.mem_cons_of_mem _ member, computes⟩
    by_cases dead : isDead pinned live operation = true
    · by_cases granted : fuel.consume.1 = true
      · simp only [sweptDead, dead, granted, if_true] at gone
        rcases List.mem_cons.mp gone with same | inRest
        · exact ⟨operation, same ▸ List.mem_cons_self, is_dead_is_computation pinned live operation dead⟩
        · exact later live fuel.consume.2 inRest
      · simp only [sweptDead, dead, granted] at gone
        exact later _ fuel.consume.2 gone
    · simp only [sweptDead, dead] at gone
      exact later _ fuel gone

theorem swept_mem (pinned : OrderedSet Var) (order : FlowOrder) (facts : BlockFacts (OrderedSet Var)) (block : Block)
    (fuel : Fuel) (code : List (Inst × Operation)) (inst : Inst) (gone : inst ∈ (swept pinned order facts block fuel code).2) :
    ∃ operation, (inst, operation) ∈ code := by
  rw [swept] at gone
  split at gone
  · obtain ⟨operation, found, _⟩ := swept_dead_mem _ _ _ _ inst gone
    exact ⟨operation, List.mem_reverse.mp found⟩
  · obtain ⟨operation, found, _⟩ := swept_unreachable_mem _ _ inst gone
    exact ⟨operation, List.mem_reverse.mp found⟩

theorem unmarked_of_cells (body : Body) (clean : ∀ cell ∈ body.cells.toList, cell.mark = false) : body.Unmarked := by
  intro block inst _
  rw [isMarked, Chain.isMarked]
  cases found : body.cells.get? inst with
  | none => rfl
  | some cell => exact clean cell (Solver.mem_to_list_of_get body.cells inst cell found)

structure Swept (pinned : OrderedSet Var) (order : FlowOrder) (facts : BlockFacts (OrderedSet Var)) (body other : Body)
    (gone : Block → List Inst) : Prop where
  frame : body.SameFrame other
  laid : other.Laid fun block => (body.layout block).filter fun inst => !(gone block).contains inst
  operations : other.operation? = body.operation?
  unmarked : other.Unmarked
  chosen : ∀ block, body.blocks.contains block = true →
    ∃ fuel, gone block = (swept pinned order facts block fuel (body.code block)).2

theorem mem_parts_iff (body : Body) (laid : body.Laid body.layout) (part : Block → List Inst)
    (within : ∀ block ∈ body.blocks.refs, ∀ inst ∈ part block, inst ∈ body.layout block) (block : Block) (inst : Inst)
    (member : inst ∈ body.layout block) : inst ∈ body.blocks.refs.flatMap part ↔ inst ∈ part block := by
  rw [List.mem_flatMap]
  constructor
  · rintro ⟨elsewhere, listed, inPart⟩
    exact placed_once body body.layout laid elsewhere block inst (within elsewhere listed inst inPart) member ▸ inPart
  · intro inPart
    exact ⟨block, (Arena.mem_refs_iff _ _).mpr (placed_inside body body.layout laid block inst member), inPart⟩

theorem swept_placed (pinned : OrderedSet Var) (order : FlowOrder) (facts : BlockFacts (OrderedSet Var)) (body other : Body)
    (laid : body.Laid body.layout) (gone : Block → List Inst) (sweep : Swept pinned order facts body other gone) :
    ∃ before after, body.placed = .ok before ∧ other.placed = .ok after ∧ after.Sublist before ∧
      before.filter (fun inst => !after.contains inst) =
        body.blocks.refs.flatMap fun block => (body.layout block).filter (gone block).contains := by
  let after := body.blocks.refs.flatMap fun block => (body.layout block).filter fun inst => !(gone block).contains inst
  have refs : other.blocks.refs = body.blocks.refs := by
    rw [Arena.refs, Arena.refs, sweep.frame.blocks]
  have placedAfter : other.placed = .ok after := by
    rw [placed_laid other _ sweep.laid, refs]
  have still (block : Block) (inst : Inst) (member : inst ∈ body.layout block) :
      after.contains inst = !(gone block).contains inst := by
    rw [Bool.eq_iff_iff, List.contains_iff_mem,
      mem_parts_iff body laid _ (fun _ _ _ kept => (List.mem_filter.mp kept).1) block inst member, List.mem_filter]
    exact and_iff_right member
  refine ⟨body.blocks.refs.flatMap body.layout, after, placed_laid body body.layout laid, placedAfter, ?_, ?_⟩
  · have kept : after = (body.blocks.refs.flatMap body.layout).filter after.contains := by
      rw [List.filter_flatMap]
      exact List.flatMap_congr fun block _ => List.filter_congr fun inst member => (still block inst member).symm
    rw [kept]
    exact List.filter_sublist
  · rw [List.filter_flatMap]
    refine List.flatMap_congr fun block _ => List.filter_congr fun inst member => ?_
    rw [still block inst member, Bool.not_not]

theorem gone_placed (pinned : OrderedSet Var) (order : FlowOrder) (facts : BlockFacts (OrderedSet Var)) (body : Body)
    (gone : Block → List Inst) (block : Block)
    (chosen : ∃ fuel, gone block = (swept pinned order facts block fuel (body.codeOf (body.layout block))).2) (inst : Inst)
    (lost : inst ∈ gone block) : inst ∈ body.layout block := by
  obtain ⟨given, same⟩ := chosen
  rw [same] at lost
  obtain ⟨operation, found⟩ := swept_mem pinned order facts block given _ inst lost
  exact ((mem_code_of_iff _ _ _ _).mp found).1

theorem marked_of_gone (body middle : Body) (laid : body.Laid body.layout) (unmarked : body.Unmarked) (gone : Block → List Inst)
    (marked : Marked body.layout body middle (body.blocks.refs.flatMap gone))
    (within : ∀ block ∈ body.blocks.refs, ∀ inst ∈ gone block, inst ∈ body.layout block) (block : Block) (inst : Inst)
    (member : inst ∈ body.layout block) : middle.isMarked inst = (gone block).contains inst := by
  rw [Bool.eq_iff_iff, marked.marks, unmarked block inst member, List.contains_iff_mem,
    mem_parts_iff body laid gone within block inst member]
  exact or_iff_right Bool.false_ne_true

theorem remove_dead_code_sweeps (body : Body) (accepted : body.check = .ok ()) (unmarked : body.Unmarked) (fuel : Fuel) :
    ∃ pinned order facts left other gone, body.addressTaken = .ok pinned ∧ order.Describes body ∧
      body.Solved body.livenessAnalysis (OrderedSet.Over body.usedScope) (Meet.le .union) facts ∧
      body.removeDeadCode fuel = .ok (left, other) ∧ Swept pinned order facts body other gone ∧
      left.count = (body.blocks.refs.flatMap fun block => (body.layout block).filter (gone block).contains).length := by
  have wellFormed := well_formed_of_check body accepted
  have laid := wellFormed.laid
  obtain ⟨order, ordered, describes⟩ := flow_order_total body wellFormed.edges wellFormed.entry
  obtain ⟨facts, solved⟩ := liveness_solved body accepted
  obtain ⟨pinned, taken, _⟩ := address_taken_total body body.layout laid
  obtain ⟨left, middle, gone, marked, middleMarked, each⟩ := mark_blocks_marked body.layout body laid pinned order facts
    body.blocks.refs (fun block member => (Arena.mem_refs_iff _ _).mp member) (Arena.refs_nodup body.blocks) fuel
  obtain ⟨other, removed, frame, otherLaid, operations, clean⟩ := remove_marked_laid middle body.layout middleMarked.laid
  have marks := marked_of_gone body middle laid unmarked gone middleMarked fun block listed =>
    gone_placed pinned order facts body gone block (each block listed)
  have lists : (fun block => (body.layout block).filter fun inst => !middle.isMarked inst) =
      fun block => (body.layout block).filter fun inst => !(gone block).contains inst :=
    funext fun block => List.filter_congr fun inst member => congrArg not (marks block inst member)
  have counts : (body.blocks.refs.flatMap body.layout).filter middle.isMarked =
      body.blocks.refs.flatMap fun block => (body.layout block).filter (gone block).contains := by
    rw [List.filter_flatMap]
    exact List.flatMap_congr fun block _ => List.filter_congr (marks block)
  rw [Arena.refs, middleMarked.frame.blocks, ← Arena.refs, counts] at removed
  refine ⟨pinned, order, facts, ⟨left, _⟩, other, gone, taken, describes, solved, ?_,
    ⟨frame_trans body middle other middleMarked.frame frame, lists ▸ otherLaid, operations.trans middleMarked.operations,
      fun block inst member => ?_, fun block inside => ?_⟩, rfl⟩
  · rw [removeDeadCode, ordered]
    simp only [bind, Except.bind, liveness, solved.found, taken, marked, removed]
    rfl
  · rw [layout_laid other _ otherLaid] at member
    exact clean block inst member
  · rw [code_laid body body.layout laid]
    exact each block ((Arena.mem_refs_iff _ _).mpr inside)

section Kept

variable (pinned : OrderedSet Var) (order : FlowOrder) (facts : BlockFacts (OrderedSet Var)) (body other : Body)
  (laid : body.Laid body.layout) (gone : Block → List Inst) (sweep : Swept pinned order facts body other gone)

include laid sweep

theorem lost_operation (describes : order.Describes body) (block : Block) (inst : Inst)
    (inside : body.blocks.contains block = true) (lost : inst ∈ gone block) :
    ∃ operation, body.operation? inst = some operation ∧ operation.isLabel = false ∧
      (body.Reaches body.entry block → operation.isComputation = true) := by
  obtain ⟨given, chosen⟩ := sweep.chosen block inside
  rw [chosen, code_laid body body.layout laid, Body.swept] at lost
  split at lost
  · obtain ⟨operation, found, computes⟩ := swept_dead_mem _ _ _ _ inst lost
    refine ⟨operation, ((mem_code_of_iff _ _ _ _).mp (List.mem_reverse.mp found)).2, ?_, fun _ => computes⟩
    cases operation <;> first | rfl | cases computes
  · rename_i unreachable
    obtain ⟨operation, found, plain⟩ := swept_unreachable_mem _ _ inst lost
    refine ⟨operation, ((mem_code_of_iff _ _ _ _).mp (List.mem_reverse.mp found)).2, plain, fun reached => ?_⟩
    exact (unreachable ((describes.reachable block inside).mpr reached)).elim

omit laid in
theorem swept_filter (view : Inst → Bool) (block : Block)
    (stays : ∀ inst ∈ body.layout block, view inst = true → inst ∉ gone block) :
    (other.layout block).filter view = (body.layout block).filter view := by
  rw [layout_laid other _ sweep.laid, List.filter_filter]
  refine List.filter_congr fun inst member => ?_
  by_cases seen : view inst = true
  · simp [seen, stays inst member seen]
  · simp [seen]

theorem swept_structure (describes : order.Describes body) : body.KeepsStructure other where
  frame := sweep.frame
  operations := fun inst operation found => ⟨operation, by rw [sweep.operations, found], Operation.keeps_refl operation⟩
  labels := by
    intro block
    have same : other.isLabelAt = body.isLabelAt := funext fun inst => by rw [isLabelAt, isLabelAt, sweep.operations]
    rw [same]
    refine swept_filter pinned order facts body other gone sweep _ block fun inst member label lost => ?_
    obtain ⟨operation, found, plain, _⟩ := lost_operation pinned order facts body other laid gone sweep describes block inst
      (placed_inside body body.layout laid block inst member) lost
    rw [isLabelAt, found, Option.any_some, plain] at label
    cases label
  fixed := by
    intro block reached
    have same : other.isFixedAt = body.isFixedAt := funext fun inst => by rw [isFixedAt, isFixedAt, sweep.operations]
    rw [same]
    refine swept_filter pinned order facts body other gone sweep _ block fun inst member stays lost => ?_
    obtain ⟨operation, found, _, computes⟩ := lost_operation pinned order facts body other laid gone sweep describes block inst
      (placed_inside body body.layout laid block inst member) lost
    rw [isFixedAt, found, Option.any_some, computes reached] at stays
    cases stays
  placed := by
    intro block inst member
    rw [layout_laid other _ sweep.laid] at member
    exact ⟨block, (List.mem_filter.mp member).1⟩

end Kept

theorem remove_dead_code_keeps (body : Body) (accepted : body.check = .ok ()) (unmarked : body.Unmarked) (fuel : Fuel) :
    body.PassKeeps (body.removeDeadCode fuel) := by
  obtain ⟨pinned, order, facts, left, other, gone, _, describes, _, done, sweep, _⟩ :=
    remove_dead_code_sweeps body accepted unmarked fuel
  have keeps := swept_structure pinned order facts body other (well_formed_of_check body accepted).laid gone sweep describes
  exact ⟨left, other, done, check_of_structure body other _ accepted keeps sweep.laid, sweep.unmarked, keeps⟩

end Body

end ThreeAddress
