import ThreeAddress.Proofs.Dataflow.Unreached

/-!
Two bodies with the same solution. Where the blocks of one turn each fact that is no lower than the solved one into what
the blocks of the other make of it, the two solutions are the same: the second is no lower than the first, since the
first satisfies its equations, and then the first is no lower than the second, since all the facts of the second are
among those on which the blocks agree.
-/

set_option autoImplicit false

namespace ThreeAddress

variable {φ : Type}

namespace Solver

-- Facts are joined alike, and from the solved facts upwards the blocks turn them into the same.
structure Echoes (analysis twin : Analysis φ) (body other : Body) (carrier : φ → Prop) (le : φ → φ → Prop)
    (facts : BlockFacts φ) : Prop where
  blocks : ∀ block, other.blocks.contains block = body.blocks.contains block
  joins : ∀ outs block, joined twin other outs block = joined analysis body outs block
  transfers : ∀ block fact, body.blocks.contains block = true → carrier fact → le (inflow analysis facts block) fact →
    twin.transfer block fact = analysis.transfer block fact

section Below

variable (analysis twin : Analysis φ) (body other : Body) (carrier : φ → Prop) (le : φ → φ → Prop)
  (laws : analysis.Lawful body carrier le) (facts others : BlockFacts φ) (answers : Answers analysis body carrier le facts)
  (otherAnswers : Answers twin other carrier le others)
  (blocks : ∀ block, other.blocks.contains block = body.blocks.contains block)
  (joins : ∀ outs block, joined twin other outs block = joined analysis body outs block)

include laws answers otherAnswers blocks joins

theorem outgoing_le (top : ∀ fact, carrier fact → le fact twin.init)
    (passes : ∀ block, body.blocks.contains block = true →
      twin.transfer block (inflow analysis facts block) = analysis.transfer block (inflow analysis facts block))
    (block : Block) (inside : body.blocks.contains block = true) :
    le (outgoing analysis facts block) (outgoing twin others block) := by
  refine otherAnswers.above _ answers.outs (fun block _ => top _ (answers.outs block)) (fun block otherInside => ?_) block
    ((blocks block).trans inside)
  have here := (blocks block).symm.trans otherInside
  rw [recomputed, joins, ← (answers.settled block here).1, passes block here]
  exact (answers_bounds analysis body carrier le laws facts answers block here).2.2

theorem inflow_le (edges : body.EdgesAgree)
    (below : ∀ block, body.blocks.contains block = true → le (outgoing analysis facts block) (outgoing twin others block))
    (block : Block) (inside : body.blocks.contains block = true) :
    le (inflow analysis facts block) (inflow twin others block) := by
  rw [(answers.settled block inside).1, (otherAnswers.settled block ((blocks block).trans inside)).1, joins]
  exact joined_mono analysis body carrier le laws _ _ answers.outs otherAnswers.outs block fun source member =>
    below source (sources_inside analysis body edges block source member)

end Below

section Echo

variable (analysis twin : Analysis φ) (body other : Body) (carrier : φ → Prop) (le : φ → φ → Prop)
  (accepted : body.check = .ok ()) (otherAccepted : other.check = .ok ()) (laws : analysis.Lawful body carrier le)
  (twinLaws : twin.Lawful other carrier le) (facts others : BlockFacts φ) (answers : Answers analysis body carrier le facts)
  (otherAnswers : Answers twin other carrier le others) (top : ∀ fact, carrier fact → le fact analysis.init)
  (twinTop : ∀ fact, carrier fact → le fact twin.init) (echoes : Echoes analysis twin body other carrier le facts)

include accepted otherAccepted laws twinLaws answers otherAnswers top twinTop echoes

theorem echoes_agree (block : Block) (inside : body.blocks.contains block = true) :
    (le (inflow analysis facts block) (inflow twin others block) ∧
      le (inflow twin others block) (inflow analysis facts block)) ∧
    le (outgoing analysis facts block) (outgoing twin others block) ∧
      le (outgoing twin others block) (outgoing analysis facts block) := by
  have edges := (Body.well_formed_of_check body accepted).edges
  have otherEdges := (Body.well_formed_of_check other otherAccepted).edges
  have up := outgoing_le analysis twin body other carrier le laws facts others answers otherAnswers echoes.blocks echoes.joins
    twinTop fun block here => echoes.transfers block _ here (answers.ins block) (laws.refl _ (answers.ins block))
  have upIn := inflow_le analysis twin body other carrier le laws facts others answers otherAnswers echoes.blocks echoes.joins
    edges up
  -- The facts of the other body are no lower, so the blocks agree on them too.
  have blocksBack (block : Block) := (echoes.blocks block).symm
  have joinsBack (outs : Block → φ) (block : Block) := (echoes.joins outs block).symm
  have down := outgoing_le twin analysis other body carrier le twinLaws others facts otherAnswers answers blocksBack joinsBack
    top fun block otherHere => by
      have here := (blocksBack block).trans otherHere
      exact (echoes.transfers block _ here (otherAnswers.ins block) (upIn block here)).symm
  have downIn := inflow_le twin analysis other body carrier le twinLaws others facts otherAnswers answers blocksBack joinsBack
    otherEdges down
  have otherInside := (echoes.blocks block).trans inside
  exact ⟨⟨upIn block inside, downIn block otherInside⟩, up block inside, down block otherInside⟩

end Echo

end Solver

end ThreeAddress
