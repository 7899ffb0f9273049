import ThreeAddress.Proofs.Dataflow.Unreached
import ThreeAddress.Proofs.Flow.Dominance
import ThreeAddress.Proofs.Flow.Paths

/-!
Dominators are exact. The set that is computed for a block holds the blocks that every path from the entry to it
passes, and no others: those blocks solve the equations too, and the solver comes back with the greatest solution.
-/

set_option autoImplicit false

namespace ThreeAddress

namespace Body

variable (body : Body)

def Dominates (above block : Block) : Prop := ∀ path, Path body body.entry path block → above ∈ path

theorem dominates_refl (block : Block) : body.Dominates block block :=
  fun path leads => leads.target_mem body.entry block path

theorem dominates_before (above block middle : Block) (back : List Block) (dominates : body.Dominates above block)
    (onward : Path body middle (middle :: back) block) (avoids : above ∉ back) : body.Dominates above middle := by
  intro path leads
  have passed := dominates _ (leads.append body.entry middle block path (middle :: back) onward)
  exact (List.mem_append.mp passed).resolve_right avoids

theorem dominates_pred (above block pred : Block) (dominates : body.Dominates above block) (apart : above ≠ block)
    (edge : block ∈ body.succs pred) : body.Dominates above pred :=
  body.dominates_before above block pred [block] dominates (.step pred block block [block] edge (.here block))
    fun met => apart (List.mem_singleton.mp met)

theorem dominates_entry (above : Block) (dominates : body.Dominates above body.entry) : above = body.entry :=
  List.mem_singleton.mp (dominates [body.entry] (.here body.entry))

open Classical in
noncomputable def alwaysMet (block : Block) : OrderedSet Block :=
  .ofList (body.blocks.refs.filter fun above => body.Dominates above block)

theorem mem_always_met (above block : Block) :
    above ∈ (body.alwaysMet block).toList ↔ body.blocks.contains above = true ∧ body.Dominates above block := by
  simp only [alwaysMet, OrderedSet.mem_of_list, List.mem_filter, Arena.mem_refs_iff, decide_eq_true_eq]

theorem always_met_over (block : Block) : (body.alwaysMet block).Over body.blocks.refs where
  sound := OrderedSet.sound_of_list _
  inside := fun above member => (Arena.mem_refs_iff _ _).mpr ((body.mem_always_met above block).mp member).1

section Solved

variable (accepted : body.check = .ok ())

include accepted

theorem always_met_rises (block : Block) :
    (body.alwaysMet block).Subset (Solver.recomputed body.dominatorAnalysis body body.alwaysMet block) := by
  have wellFormed := well_formed_of_check body accepted
  have laws := dominator_lawful body wellFormed.entry body.blocks.refs fun _ member => member
  have joinedOver := Solver.joined_carried body.dominatorAnalysis body _ laws.toCarries body.alwaysMet body.always_met_over block
  intro above member
  obtain ⟨inside, dominates⟩ := (body.mem_always_met above block).mp member
  refine (OrderedSet.mem_adding _ joinedOver.sound block above).mpr ?_
  by_cases same : above = block
  · exact .inl same
  -- What dominates a block strictly dominates each of its predecessors, so it is in the meet.
  have strict := OrderedSet.over_removing body.blocks.refs (body.alwaysMet block) (body.always_met_over block) block
  have startOver := Solver.start_carried body.dominatorAnalysis body _ laws.toCarries block
  have below : ((body.alwaysMet block).removing block).Subset
      (Solver.joined body.dominatorAnalysis body body.alwaysMet block) := by
    apply (Solver.le_meet_from_iff body.dominatorAnalysis body _ _ laws body.alwaysMet _ _ _ startOver strict body.always_met_over).mpr
    constructor
    · intro other kept
      obtain ⟨apart, met⟩ := (OrderedSet.mem_removing _ (body.always_met_over block).sound block other).mp kept
      obtain ⟨otherInside, otherDominates⟩ := (body.mem_always_met other block).mp met
      have notEntry : block ≠ body.entry := by
        intro entry
        rw [entry] at otherDominates apart
        exact apart (body.dominates_entry other otherDominates)
      have all : Solver.start body.dominatorAnalysis body block = body.allBlocks := if_neg notEntry
      rw [all]
      exact (mem_all_blocks body other).mpr otherInside
    · intro pred edge other kept
      obtain ⟨apart, met⟩ := (OrderedSet.mem_removing _ (body.always_met_over block).sound block other).mp kept
      obtain ⟨otherInside, otherDominates⟩ := (body.mem_always_met other block).mp met
      have leads := (edges_mem_iff body wellFormed.edges pred block).mpr edge
      exact (body.mem_always_met other pred).mpr ⟨otherInside, body.dominates_pred other block pred otherDominates apart leads⟩
  exact .inr (below above ((OrderedSet.mem_removing _ (body.always_met_over block).sound block above).mpr ⟨same, member⟩))

variable (dominance : Dominance)
  (solved : body.Solved body.dominatorAnalysis (OrderedSet.Over body.blocks.refs) (Meet.le .intersection) dominance.facts)

include solved

theorem dominators_found (block : Block) (inside : body.blocks.contains block = true) :
    ∃ dominators, dominance.dominators block = .ok dominators ∧ dominance.facts.atExit.get? block = some dominators ∧
      dominators.Sound ∧
      ∀ above, above ∈ dominators.toList ↔ body.blocks.contains above = true ∧ body.Dominates above block := by
  have laws := dominator_lawful body (well_formed_of_check body accepted).entry body.blocks.refs fun _ member => member
  have answers := Solver.answers_of_analyze _ body _ _ laws dominance.facts solved.found
  have higher := answers.above body.alwaysMet body.always_met_over
    (fun block _ above member => (mem_all_blocks body above).mpr ((body.mem_always_met above block).mp member).1)
    (fun block _ => body.always_met_rises accepted block) block inside
  rw [← Arena.contains_of_size dominance.facts.atExit body.blocks solved.fits.exits block] at inside
  obtain ⟨dominators, found⟩ := (Arena.contains_iff _ _).mp inside
  have within := solved.within.2 block dominators found
  have same : Solver.outgoing body.dominatorAnalysis dominance.facts block = dominators := by
    show (dominance.facts.atExit.get? block).getD _ = dominators
    rw [found]
    rfl
  refine ⟨dominators, Arena.get_of_get _ _ _ found, found, within.sound, fun above => ⟨fun member => ?_, fun met => ?_⟩⟩
  · refine ⟨(Arena.mem_refs_iff _ _).mp (within.inside above member), dominator_met body accepted dominance solved above block ?_⟩
    rw [Dominance.dominates, found]
    exact (OrderedSet.contains_iff dominators within.sound above).mpr member
  · exact same ▸ higher above ((body.mem_always_met above block).mpr met)

theorem dominates_iff (above block : Block) (inside : body.blocks.contains block = true) :
    dominance.dominates above block = true ↔ body.blocks.contains above = true ∧ body.Dominates above block := by
  obtain ⟨dominators, _, found, sound, members⟩ := body.dominators_found accepted dominance solved block inside
  rw [Dominance.dominates, found, ← members]
  exact OrderedSet.contains_iff dominators sound above

end Solved

-- A block dominates another exactly if every path from the entry to the other passes it. No path leads to a block that is
-- not reached, so all blocks dominate that one.
theorem dominators_are_exact (accepted : body.check = .ok ()) : ∃ dominance, body.dominance = .ok dominance ∧
    ∀ a b, body.blocks.contains a = true → body.blocks.contains b = true →
      (dominance.dominates a b = true ↔ ∀ path, Path body body.entry path b → a ∈ path) ∧
      (¬ body.Reaches body.entry b → dominance.dominates a b = true) := by
  obtain ⟨dominance, found, solved, _⟩ := body.dominance_total accepted
  refine ⟨dominance, found, fun a b aInside bInside => ?_⟩
  have exactly := (body.dominates_iff accepted dominance solved a b bInside).trans (and_iff_right aInside)
  exact ⟨exactly, fun away => exactly.mpr fun path leads => (away ⟨path, leads⟩).elim⟩

-- The loop starts at the entry, is entered on two edges at once, and a block that is not reached leads into it.
def winding : Body where
  name := "winding"
  entry := .nth 0
  blocks := .ofList [
    { succs := [.nth 1, .nth 1], preds := [.nth 2] },
    { succs := [.nth 2, .nth 1], preds := [.nth 0, .nth 0, .nth 3, .nth 1] },
    { succs := [.nth 0], preds := [.nth 1] },
    { succs := [.nth 1] }]
  cells := .empty
  vars := .empty

theorem winding_dominators_exact : winding.check = .ok () ∧ ∃ dominance, winding.dominance = .ok dominance ∧
    dominance.dominates (.nth 1) (.nth 2) = true ∧ (∀ path, Path winding winding.entry path (.nth 2) → .nth 1 ∈ path) ∧
    dominance.dominates (.nth 3) (.nth 1) = false ∧ (∃ path, Path winding winding.entry path (.nth 1) ∧ .nth 3 ∉ path) := by
  have accepted : winding.check = .ok () := by rfl
  obtain ⟨dominance, found, exactly⟩ := dominators_are_exact winding accepted
  have computed : winding.dominance.toOption.map
      (fun dominance => (dominance.dominates (.nth 1) (.nth 2), dominance.dominates (.nth 3) (.nth 1))) = some (true, false) := by
    decide +kernel
  rw [found] at computed
  obtain ⟨middle, unreached⟩ := Prod.mk.inj (Option.some.inj computed)
  refine ⟨accepted, dominance, found, middle, ((exactly (.nth 1) (.nth 2) rfl rfl).1.mp middle), unreached, ?_⟩
  by_contra none
  have passes : ∀ path, Path winding winding.entry path (.nth 1) → .nth 3 ∈ path := by
    intro path leads
    by_contra avoids
    exact none ⟨path, leads, avoids⟩
  rw [(exactly (.nth 3) (.nth 1) rfl rfl).1.mpr passes] at unreached
  cases unreached

end Body

end ThreeAddress
