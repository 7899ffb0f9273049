import ThreeAddress.Proofs.Body.Edits
import ThreeAddress.Proofs.Flow.Dominance

/-!
Dominance and loops are found from blocks and edges alone, so bodies that differ in their code at most have the same.
-/

set_option autoImplicit false

attribute [local instance] ThreeAddress.plainZero

namespace ThreeAddress

section Frame

variable (body other : Body) (frame : body.SameFrame other)

include frame

namespace Body

theorem frame_refs : other.blocks.refs = body.blocks.refs := by
  rw [Arena.refs, Arena.refs, frame.blocks]

theorem frame_views {β : Type} (view : BasicBlock → List β)
    (same : ∀ block, (other.blocks.get? block).elim [] view = (body.blocks.get? block).elim [] view) :
    other.blocks.slots.map view = body.blocks.slots.map view := by
  have size : other.blocks.slots.size = body.blocks.slots.size := frame.blocks
  refine Array.ext (by rw [Array.size_map, Array.size_map, size]) fun index here there => ?_
  rw [Array.size_map] at here there
  have views := same (.nth index)
  simp only [Arena.get?, Array.getElem?_eq_getElem here, Array.getElem?_eq_getElem there] at views
  rw [Array.getElem_map, Array.getElem_map]
  exact views

theorem frame_succs : other.succs = body.succs := funext frame.succs

theorem frame_exits (loop : Loop) : loop.exits other = loop.exits body := by
  rw [Loop.exits, Loop.exits, frame_succs body other frame]

theorem frame_graph : other.graph = body.graph :=
  congrArg Arena.mk (frame_views body other frame BasicBlock.succs frame.succs)

theorem frame_lengths {β : Type} (view : BasicBlock → List β)
    (same : ∀ block, (other.blocks.get? block).elim [] view = (body.blocks.get? block).elim [] view) (count : List β → Nat) :
    (other.blocks.toList.map fun data => count (view data)) = body.blocks.toList.map fun data => count (view data) := by
  have views := congrArg Array.toList (frame_views body other frame view same)
  rw [Array.toList_map, Array.toList_map] at views
  have counted := congrArg (List.map count) views
  rwa [List.map_map, List.map_map] at counted

theorem frame_flow_order : other.flowOrder = body.flowOrder := by
  rw [flowOrder, flowOrder, frame_graph body other frame, frame.entry, frame_succs body other frame]

theorem frame_dominator_analysis : other.dominatorAnalysis = body.dominatorAnalysis := by
  rw [dominatorAnalysis, dominatorAnalysis, allBlocks, allBlocks, frame_refs body other frame, frame.entry]

end Body

namespace Solver

variable {φ : Type} (analysis : Analysis φ)

theorem frame_visit (block : Block) (state : State φ) : visit analysis other block state = visit analysis body block state := by
  have incomes (facts : BlockFacts φ) : incoming analysis other facts block = incoming analysis body facts block := by
    rw [incoming, incoming, frame.entry, frame.preds, frame.succs]
  have reads : readers analysis other block = readers analysis body block := by
    rw [readers, readers, frame.preds, frame.succs]
  rw [visit, visit, visitWith, visitWith, incomes, reads]

theorem frame_iterate (budget : Nat) (state : State φ) : iterate analysis other budget state = iterate analysis body budget state := by
  induction budget generalizing state with
  | zero => rfl
  | succ budget ih =>
    rw [iterate, iterate]
    cases state.queue with
    | nil => rfl
    | cons block queue =>
      simp only [frame_visit body other frame analysis]
      exact ih _

theorem frame_budget : budget other = budget body := by
  rw [budget, budget, Body.frame_lengths body other frame BasicBlock.succs frame.succs List.length, frame.blocks, frame.cells]

end Solver

namespace Body

theorem frame_analyze {φ : Type} (accepted : body.check = .ok ()) (otherAccepted : other.check = .ok ()) (analysis : Analysis φ) :
    other.analyze analysis = body.analyze analysis := by
  have initial : BlockFacts.initial analysis other = BlockFacts.initial analysis body := by
    rw [BlockFacts.initial, BlockFacts.initial, frame.blocks]
  have seeds (order : FlowOrder) : Solver.seeds analysis other order = Solver.seeds analysis body order := by
    rw [Solver.seeds, Solver.seeds, Solver.seedOrder, Solver.seedOrder, frame_refs body other frame]
  have prepared (facts : BlockFacts φ) : other.prepare analysis facts = body.prepare analysis facts := by
    rw [prepare, prepare, accepted, otherAccepted, frame.blocks, frame_flow_order body other frame]
  rw [analyze, analyze, solve, solve, initial, solve_within_queue, solve_within_queue, prepared,
    Solver.frame_budget body other frame]
  simp only [seeds, Solver.frame_iterate body other frame]

theorem frame_dominance (accepted : body.check = .ok ()) (otherAccepted : other.check = .ok ()) :
    other.dominance = body.dominance := by
  rw [Body.dominance, Body.dominance, frame_dominator_analysis body other frame,
    frame_analyze body other frame accepted otherAccepted, frame_flow_order body other frame]

theorem frame_grow (order : FlowOrder) (steps : Nat) (stack : List Block) (blocks : OrderedSet Block) :
    Loop.grow other order steps stack blocks = Loop.grow body order steps stack blocks := by
  induction steps generalizing stack blocks with
  | zero => cases stack <;> rfl
  | succ steps ih =>
    cases stack with
    | nil => rfl
    | cons block rest => rw [Loop.grow, Loop.grow, frame.preds, ih, ih]

theorem frame_loops (dominance : Dominance) : other.loops dominance = body.loops dominance := by
  have edges : other.backEdges dominance = body.backEdges dominance := by
    rw [backEdges, backEdges, frame_succs body other frame]
  have steps : Loop.growSteps other = Loop.growSteps body := by
    rw [Loop.growSteps, Loop.growSteps, frame_lengths body other frame BasicBlock.preds frame.preds List.length]
  have extended : other.extendLoop dominance.order = body.extendLoop dominance.order := by
    funext loops edge
    rw [extendLoop, extendLoop, steps, frame_grow body other frame]
  rw [loops, loops, edges, extended]

end Body

end Frame

end ThreeAddress
