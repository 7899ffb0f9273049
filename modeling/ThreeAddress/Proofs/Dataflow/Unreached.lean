import ThreeAddress.Proofs.Dataflow.Budget
import ThreeAddress.Proofs.Dataflow.Contract
import ThreeAddress.Proofs.Dataflow.Resolving

/-!
Bodies that differ only in blocks that the entry does not lead to. Such a block may still be a predecessor of blocks
that are reached, and what leaves it is merged there. For dominators, constants and liveness this changes nothing.
-/

set_option autoImplicit false

namespace ThreeAddress

variable {φ : Type}

namespace Body

structure ReachedAlike (body other : Body) : Prop where
  entry : other.entry = body.entry
  size : other.blocks.size = body.blocks.size
  edges : ∀ source target, target ∈ other.succs source ↔ target ∈ body.succs source
  layout : ∀ block, body.Reaches body.entry block → other.layout block = body.layout block
  operations : ∀ block, body.Reaches body.entry block → ∀ inst ∈ body.layout block,
    other.operation? inst = body.operation? inst
  memory : ∀ pinned others, body.addressTaken = .ok pinned → other.addressTaken = .ok others → others.toList = pinned.toList

def AgreeReached (body : Body) (same : φ → φ → Bool) (facts others : BlockFacts φ) : Prop :=
  ∀ block, body.Reaches body.entry block →
    (∃ fact other, facts.atEntry.get? block = some fact ∧ others.atEntry.get? block = some other ∧ same other fact = true) ∧
      ∃ fact other, facts.atExit.get? block = some fact ∧ others.atExit.get? block = some other ∧ same other fact = true

section Alike

variable (body other : Body) (alike : body.ReachedAlike other)

include alike

theorem alike_path (source target : Block) (blocks : List Block) (path : Path body source blocks target) :
    Path other source blocks target := by
  induction path with
  | here block => exact .here block
  | step source succ target blocks edge _ ih => exact .step source succ target blocks ((alike.edges source succ).mpr edge) ih

theorem alike_path_back (source target : Block) (blocks : List Block) (path : Path other source blocks target) :
    Path body source blocks target := by
  induction path with
  | here block => exact .here block
  | step source succ target blocks edge _ ih => exact .step source succ target blocks ((alike.edges source succ).mp edge) ih

theorem alike_reaches (block : Block) : other.Reaches other.entry block ↔ body.Reaches body.entry block := by
  rw [alike.entry]
  constructor
  · exact fun ⟨blocks, path⟩ => ⟨blocks, alike_path_back body other alike _ block blocks path⟩
  · exact fun ⟨blocks, path⟩ => ⟨blocks, alike_path body other alike _ block blocks path⟩

theorem alike_refs : other.blocks.refs = body.blocks.refs := by
  rw [Arena.refs, Arena.refs, alike.size]

theorem alike_contains (block : Block) : other.blocks.contains block = body.blocks.contains block :=
  Arena.contains_of_size _ _ alike.size block

theorem alike_symm : other.ReachedAlike body where
  entry := alike.entry.symm
  size := alike.size.symm
  edges := fun source target => (alike.edges source target).symm
  layout := fun block reached => (alike.layout block ((alike_reaches body other alike block).mp reached)).symm
  operations := fun block reached inst member => by
    have here := (alike_reaches body other alike block).mp reached
    rw [alike.layout block here] at member
    exact (alike.operations block here inst member).symm
  memory := fun pinned others taken otherTaken => (alike.memory others pinned otherTaken taken).symm

theorem alike_code (accepted : body.check = .ok ()) (otherAccepted : other.check = .ok ()) (direction : Direction)
    (block : Block) (reached : body.Reaches body.entry block) :
    other.codeToward direction block = body.codeToward direction block := by
  have wellFormed := well_formed_of_check body accepted
  have laid := (well_formed_of_check other otherAccepted).laid
  have inside := reaches_inside body wellFormed.edges _ _ wellFormed.entry reached
  have otherInside : other.blocks.contains block = true := (alike_contains body other alike block).trans inside
  have layout := alike.layout block reached
  have same (inst : Inst) (member : inst ∈ body.layout block) :
      (other.operation? inst).map (inst, ·) = (body.operation? inst).map (inst, ·) :=
    congrArg _ (alike.operations block reached inst member)
  cases direction with
  | forward =>
    rw [codeToward, codeToward, code, code, members_laid body _ wellFormed.laid block inside,
      members_laid other _ laid block otherInside, layout]
    exact List.filterMap_congr same
  | backward =>
    rw [codeToward, codeToward, codeRev, codeRev, members_rev_laid body _ wellFormed.laid block inside,
      members_rev_laid other _ laid block otherInside, layout]
    exact List.filterMap_congr fun inst member => same inst (List.mem_reverse.mp member)

end Alike

end Body

namespace Solver

structure Answers (analysis : Analysis φ) (body : Body) (carrier : φ → Prop) (le : φ → φ → Prop) (facts : BlockFacts φ) :
    Prop where
  fits : facts.Fits body
  outs : ∀ block, carrier (outgoing analysis facts block)
  ins : ∀ block, carrier (inflow analysis facts block)
  settled : ∀ block, body.blocks.contains block = true → SettledAt analysis body facts block
  above : ∀ low : Block → φ, (∀ block, carrier (low block)) →
    (∀ block, body.blocks.contains block = true → le (low block) analysis.init) →
    (∀ block, body.blocks.contains block = true → le (low block) (recomputed analysis body low block)) →
    ∀ block, body.blocks.contains block = true → le (low block) (outgoing analysis facts block)

section Answers

variable (analysis : Analysis φ) (body : Body) (carrier : φ → Prop) (le : φ → φ → Prop)
  (laws : analysis.Lawful body carrier le) (facts : BlockFacts φ)

include laws

theorem answers_of_analyze (found : body.analyze analysis = .ok facts) : Answers analysis body carrier le facts := by
  obtain ⟨⟨_, stats⟩, solved, same⟩ := (bind_ok_iff _ _ _).mp found
  cases same
  obtain ⟨accepted, _⟩ := solve_within_demands analysis body _ _ _ solved
  obtain ⟨queue, last, queues, runs, done, rfl⟩ := solve_within_runs analysis body _ _ _ stats solved
  have edges := (Body.well_formed_of_check body accepted).edges
  have carries := laws.toCarries
  have reflexive := same_self analysis body carrier le (steers_down analysis body carrier le laws)
  have start := initial_proper analysis body carrier le laws queue queues
  have proper := runs_proper analysis body edges carrier carries _ last start runs
  have waiting := runs_waiting analysis body edges carrier carries reflexive _ last start
    (start_waiting analysis body queue queues _ {}) runs
  refine ⟨proper.fits, proper.outs, proper.ins, fun block inside => ?_, fun low lowIn first rises => ?_⟩
  · apply (waiting block inside).resolve_left
    rw [done]
    exact List.not_mem_nil
  · apply runs_above analysis body edges carrier le laws low lowIn rises _ last start _ runs
    intro block inside
    rw [(initial_slots analysis body).1]
    exact first block inside

variable (answers : Answers analysis body carrier le facts) (block : Block) (inside : body.blocks.contains block = true)

include answers inside

theorem answers_bounds :
    le (inflow analysis facts block) (start analysis body block) ∧
      (∀ source ∈ sources analysis body block, le (inflow analysis facts block) (outgoing analysis facts source)) ∧
      le (outgoing analysis facts block) (analysis.transfer block (inflow analysis facts block)) := by
  obtain ⟨joins, passes⟩ := answers.settled block inside
  obtain ⟨first, each⟩ := joined_le analysis body carrier le laws _ answers.outs block
  have passedIn := laws.transfer block _ inside (answers.ins block)
  rw [joins] at passes passedIn ⊢
  exact ⟨first, each, ((laws.same_iff _ _ passedIn (answers.outs block)).mp passes).2⟩

end Answers

-- Facts that answer for one body where a block is kept, carried over to another body. In place of the other blocks stand
-- facts that are no lower than what enters the kept blocks from there, and that the equations do not lower.
structure CarriedOver (analysis twin : Analysis φ) (body other : Body) (carrier : φ → Prop) (le : φ → φ → Prop)
    (others : BlockFacts φ) (kept : Block → Prop) (low : Block → φ) : Prop where
  carried : ∀ block, carrier (low block)
  bounded : ∀ block, body.blocks.contains block = true → le (low block) analysis.init
  holds : ∀ block, kept block → low block = outgoing twin others block
  starts : ∀ block, body.blocks.contains block = true → kept block → le (inflow twin others block) (start analysis body block)
  enters : ∀ block, kept block → ∀ source ∈ sources analysis body block, ¬ kept source →
    le (inflow twin others block) (low source)
  passes : ∀ block, kept block →
    le (twin.transfer block (inflow twin others block)) (analysis.transfer block (inflow twin others block))
  stays : ∀ block, body.blocks.contains block = true → ¬ kept block → le (low block) (recomputed analysis body low block)

section Twins

variable (body other : Body) (alike : body.ReachedAlike other) (accepted : body.check = .ok ())
  (otherAccepted : other.check = .ok ()) (analysis twin : Analysis φ) (toward : twin.direction = analysis.direction)

include alike accepted otherAccepted toward

theorem alike_sources (block source : Block) : source ∈ sources twin other block ↔ source ∈ sources analysis body block := by
  have edges := (Body.well_formed_of_check body accepted).edges
  have otherEdges := (Body.well_formed_of_check other otherAccepted).edges
  rw [← mem_readers_iff twin other otherEdges, ← mem_readers_iff analysis body edges, readers, readers, toward]
  cases analysis.direction with
  | forward => exact alike.edges source block
  | backward =>
    exact (Body.edges_mem_iff other otherEdges block source).symm.trans
      ((alike.edges block source).trans (Body.edges_mem_iff body edges block source))

variable (carrier : φ → Prop) (le : φ → φ → Prop) (laws : analysis.Lawful body carrier le)
  (twinLaws : twin.Lawful other carrier le) (facts others : BlockFacts φ) (answers : Answers analysis body carrier le facts)
  (otherAnswers : Answers twin other carrier le others) (kept : Block → Prop) (low : Block → φ)
  (brought : CarriedOver analysis twin body other carrier le others kept low) (block : Block)
  (inside : body.blocks.contains block = true)

include laws twinLaws otherAnswers brought inside

theorem carried_joins (here : kept block) : le (inflow twin others block) (joined analysis body low block) := by
  have otherInside := (Body.alike_contains body other alike block).trans inside
  obtain ⟨_, each, _⟩ := answers_bounds twin other carrier le twinLaws others otherAnswers block otherInside
  have startIn := start_carried analysis body carrier laws.toCarries block
  apply (le_meet_from_iff analysis body carrier le laws low _ _ _ startIn (otherAnswers.ins block) brought.carried).mpr
  constructor
  · exact brought.starts block inside here
  · intro source member
    by_cases there : kept source
    · rw [brought.holds source there]
      exact each source ((alike_sources body other alike accepted otherAccepted analysis twin toward block source).mpr member)
    · exact brought.enters block here source member there

theorem carried_rises : le (low block) (recomputed analysis body low block) := by
  by_cases here : kept block
  · have otherInside := (Body.alike_contains body other alike block).trans inside
    obtain ⟨_, _, leaves⟩ := answers_bounds twin other carrier le twinLaws others otherAnswers block otherInside
    have joins := carried_joins body other alike accepted otherAccepted analysis twin toward carrier le laws twinLaws others
      otherAnswers kept low brought block inside here
    have outIn := otherAnswers.outs block
    have otherIn := otherAnswers.ins block
    have otherPassedIn := twinLaws.transfer block _ otherInside otherIn
    have passedIn := laws.transfer block _ inside otherIn
    have joinedIn := joined_carried analysis body carrier laws.toCarries low brought.carried block
    have newIn := recomputed_carried analysis body carrier laws.toCarries low brought.carried block inside
    have passes := laws.trans _ _ _ outIn otherPassedIn passedIn leaves (brought.passes block here)
    have higher := laws.monotone block _ _ inside otherIn joinedIn joins
    rw [brought.holds block here]
    exact laws.trans _ _ _ outIn passedIn newIn passes higher
  · exact brought.stays block inside here

include answers

theorem kept_below (here : kept block) : le (inflow twin others block) (inflow analysis facts block) ∧
    le (outgoing twin others block) (outgoing analysis facts block) := by
  have rises := carried_rises body other alike accepted otherAccepted analysis twin toward carrier le laws twinLaws others
    otherAnswers kept low brought
  have above := answers.above low brought.carried brought.bounded rises
  have edges := (Body.well_formed_of_check body accepted).edges
  have higher := joined_mono analysis body carrier le laws low _ brought.carried answers.outs block fun source member =>
    above source (sources_inside analysis body edges block source member)
  have joins := carried_joins body other alike accepted otherAccepted analysis twin toward carrier le laws twinLaws others
    otherAnswers kept low brought block inside here
  have lowIn := joined_carried analysis body carrier laws.toCarries low brought.carried block
  have joinedIn := joined_carried analysis body carrier laws.toCarries _ answers.outs block
  constructor
  · rw [(answers.settled block inside).1]
    exact laws.trans _ _ _ (otherAnswers.ins block) lowIn joinedIn joins higher
  · rw [← brought.holds block here]
    exact above block inside

end Twins

section Agreement

variable (body other : Body) (alike : body.ReachedAlike other) (accepted : body.check = .ok ()) (analysis twin : Analysis φ)
  (toward : twin.direction = analysis.direction) (carrier : φ → Prop) (le : φ → φ → Prop)
  (laws : analysis.Lawful body carrier le) (facts others : BlockFacts φ)
  (answers : Answers analysis body carrier le facts) (otherAnswers : Answers twin other carrier le others)

include alike accepted toward laws answers otherAnswers

theorem agree_of_le
    (below : ∀ block, body.Reaches body.entry block → le (inflow twin others block) (inflow analysis facts block) ∧
      le (outgoing twin others block) (outgoing analysis facts block))
    (above : ∀ block, body.Reaches body.entry block → le (inflow analysis facts block) (inflow twin others block) ∧
      le (outgoing analysis facts block) (outgoing twin others block)) : body.AgreeReached analysis.same facts others := by
  intro block reached
  have wellFormed := Body.well_formed_of_check body accepted
  have inside := Body.reaches_inside body wellFormed.edges _ _ wellFormed.entry reached
  have otherInside := (Body.alike_contains body other alike block).trans inside
  have ins := (laws.same_iff _ _ (otherAnswers.ins block) (answers.ins block)).mpr ⟨(below block reached).1, (above block reached).1⟩
  have outs :=
    (laws.same_iff _ _ (otherAnswers.outs block) (answers.outs block)).mpr ⟨(below block reached).2, (above block reached).2⟩
  obtain ⟨entry, entryFound⟩ := (Arena.contains_iff _ _).mp ((Arena.contains_of_size _ _ answers.fits.entries block).trans inside)
  obtain ⟨exit, exitFound⟩ := (Arena.contains_iff _ _).mp ((Arena.contains_of_size _ _ answers.fits.exits block).trans inside)
  obtain ⟨otherEntry, otherEntryFound⟩ :=
    (Arena.contains_iff _ _).mp ((Arena.contains_of_size _ _ otherAnswers.fits.entries block).trans otherInside)
  obtain ⟨otherExit, otherExitFound⟩ :=
    (Arena.contains_iff _ _).mp ((Arena.contains_of_size _ _ otherAnswers.fits.exits block).trans otherInside)
  rw [inflow, inflow, toward] at ins
  rw [outgoing, outgoing, toward] at outs
  cases direction : analysis.direction with
  | forward =>
    simp only [direction, entryFound, otherEntryFound, exitFound, otherExitFound, Option.getD_some] at ins outs
    exact ⟨⟨entry, otherEntry, entryFound, otherEntryFound, ins⟩, exit, otherExit, exitFound, otherExitFound, outs⟩
  | backward =>
    simp only [direction, entryFound, otherEntryFound, exitFound, otherExitFound, Option.getD_some] at ins outs
    exact ⟨⟨entry, otherEntry, entryFound, otherEntryFound, outs⟩, exit, otherExit, exitFound, otherExitFound, ins⟩

variable (otherAccepted : other.check = .ok ()) (twinLaws : twin.Lawful other carrier le)

include otherAccepted twinLaws

theorem agree_of_carried (kept otherKept : Block → Prop) (low otherLow : Block → φ)
    (brought : CarriedOver analysis twin body other carrier le others kept low)
    (back : CarriedOver twin analysis other body carrier le facts otherKept otherLow)
    (covers : ∀ block, body.Reaches body.entry block → kept block ∧ otherKept block) :
    body.AgreeReached analysis.same facts others := by
  have wellFormed := Body.well_formed_of_check body accepted
  have otherAlike := Body.alike_symm body other alike
  have below := kept_below body other alike accepted otherAccepted analysis twin toward carrier le laws twinLaws facts others
    answers otherAnswers kept low brought
  have above := kept_below other body otherAlike otherAccepted accepted twin analysis toward.symm carrier le twinLaws laws
    others facts otherAnswers answers otherKept otherLow back
  apply agree_of_le body other alike accepted analysis twin toward carrier le laws facts others answers otherAnswers
  · intro block reached
    exact below block (Body.reaches_inside body wellFormed.edges _ _ wellFormed.entry reached) (covers block reached).1
  · intro block reached
    have inside := Body.reaches_inside body wellFormed.edges _ _ wellFormed.entry reached
    exact above block ((Body.alike_contains body other alike block).trans inside) (covers block reached).2

end Agreement

end Solver

open Classical in
noncomputable def Body.fillUnreached (body : Body) (reached : Block → φ) (elsewhere : Block → φ) (block : Block) : φ :=
  if body.Reaches body.entry block then reached block else elsewhere block

namespace Body

theorem fill_unreached_reached (body : Body) (reached elsewhere : Block → φ) (block : Block)
    (here : body.Reaches body.entry block) : body.fillUnreached reached elsewhere block = reached block := if_pos here

theorem fill_unreached_elsewhere (body : Body) (reached elsewhere : Block → φ) (block : Block)
    (away : ¬ body.Reaches body.entry block) : body.fillUnreached reached elsewhere block = elsewhere block := if_neg away

theorem fill_unreached_all (body : Body) (holds : φ → Prop) (reached elsewhere : Block → φ)
    (reachedHold : ∀ block, holds (reached block)) (elsewhereHold : ∀ block, holds (elsewhere block)) (block : Block) :
    holds (body.fillUnreached reached elsewhere block) := by
  by_cases here : body.Reaches body.entry block
  · rw [fill_unreached_reached body reached elsewhere block here]
    exact reachedHold block
  · rw [fill_unreached_elsewhere body reached elsewhere block here]
    exact elsewhereHold block

section Analyses

variable (body other : Body) (alike : body.ReachedAlike other) (accepted : body.check = .ok ())
  (otherAccepted : other.check = .ok ())

include alike

theorem dominators_alike : other.dominatorAnalysis = body.dominatorAnalysis := by
  rw [dominatorAnalysis, dominatorAnalysis, allBlocks, allBlocks, alike_refs body other alike, alike.entry]

theorem dominators_carried (others : BlockFacts (OrderedSet Block))
    (otherLaws : other.dominatorAnalysis.Lawful other (OrderedSet.Over body.blocks.refs) (Meet.le .intersection))
    (otherAnswers : Solver.Answers other.dominatorAnalysis other (OrderedSet.Over body.blocks.refs) (Meet.le .intersection) others) :
    Solver.CarriedOver body.dominatorAnalysis other.dominatorAnalysis body other (OrderedSet.Over body.blocks.refs)
      (Meet.le .intersection) others (fun _ => True) (Solver.outgoing other.dominatorAnalysis others) where
  carried := otherAnswers.outs
  bounded := fun block _ element member =>
    (mem_all_blocks body element).mpr ((Arena.mem_refs_iff _ _).mp ((otherAnswers.outs block).inside element member))
  holds := fun _ _ => rfl
  starts := fun block inside _ => by
    have otherInside := (alike_contains body other alike block).trans inside
    have first := (Solver.answers_bounds _ other _ _ otherLaws others otherAnswers block otherInside).1
    rw [dominators_alike body other alike, Solver.start, alike.entry] at first
    rwa [dominators_alike body other alike]
  enters := fun _ _ _ _ away => (away trivial).elim
  passes := fun block _ => by
    rw [dominators_alike body other alike]
    exact fun _ member => member
  stays := fun _ _ away => (away trivial).elim

include accepted otherAccepted

theorem dominators_agree : ∃ facts others, body.analyze body.dominatorAnalysis = .ok facts ∧
    other.analyze other.dominatorAnalysis = .ok others ∧ body.AgreeReached body.dominatorAnalysis.same facts others := by
  have entry := (well_formed_of_check body accepted).entry
  have otherEntry := (well_formed_of_check other otherAccepted).entry
  have refs := alike_refs body other alike
  have laws := dominator_lawful body entry body.blocks.refs fun _ member => member
  have otherLaws := dominator_lawful other otherEntry body.blocks.refs fun block member => refs ▸ member
  obtain ⟨facts, solved⟩ := dominators_solved body accepted
  obtain ⟨others, otherSolved⟩ := dominators_solved other otherAccepted
  have answers := Solver.answers_of_analyze _ body _ _ laws facts solved.found
  have otherAnswers := Solver.answers_of_analyze _ other _ _ otherLaws others otherSolved.found
  have brought := dominators_carried body other alike others otherLaws otherAnswers
  have back := dominators_carried other body (alike_symm body other alike) facts (refs ▸ laws) (refs ▸ answers)
  rw [refs] at back
  refine ⟨facts, others, solved.found, otherSolved.found, ?_⟩
  exact Solver.agree_of_carried body other alike accepted body.dominatorAnalysis other.dominatorAnalysis rfl _ _ laws facts others
    answers otherAnswers otherAccepted otherLaws _ _ _ _ brought back fun _ _ => ⟨trivial, trivial⟩

theorem alike_transfer (direction : Direction) (step : Inst → Operation → φ → φ) (block : Block)
    (reached : body.Reaches body.entry block) (fact : φ) :
    other.transferCode direction step block fact = body.transferCode direction step block fact := by
  rw [transferCode, transferCode, alike_code body other alike accepted otherAccepted direction block reached]

end Analyses

theorem unreached_preds (body : Body) (accepted : body.check = .ok ()) (block pred : Block)
    (away : ¬ body.Reaches body.entry block) (edge : pred ∈ body.preds block) : ¬ body.Reaches body.entry pred := by
  have edges := (well_formed_of_check body accepted).edges
  exact fun reached => away (reaches_succ body pred block reached ((edges_mem_iff body edges pred block).mpr edge))

end Body

theorem Bindings.is_top_set {κ ν : Type} [Ord κ] (fact : Bindings κ ν) (key : κ) (value : Option ν) :
    (fact.set key value).isTop = fact.isTop := by
  cases fact <;> rfl

theorem Bindings.is_top_iff {κ ν : Type} (fact : Bindings κ ν) : fact.isTop = true ↔ fact = .top := by
  cases fact <;> simp [Bindings.isTop]

namespace Constants

theorem is_top_step (pinned : OrderedSet Var) (inst : Inst) (operation : Operation) (fact : ConstFact) :
    (step pinned inst operation fact).isTop = fact.isTop := by
  have unbound (vars : List Var) (fact : ConstFact) : (unbindAll vars fact).isTop = fact.isTop := by
    induction vars generalizing fact with
    | nil => rfl
    | cons var rest ih => exact (ih _).trans (Bindings.is_top_set fact var none)
  have writes : (written operation fact).isTop = fact.isTop := by
    rw [written]
    cases operation.def? with
    | none => rfl
    | some dst => exact Bindings.is_top_set fact dst _
  rw [step_eq]
  split
  · exact (unbound pinned.toList _).trans writes
  · exact writes

theorem is_top_transfer (pinned : OrderedSet Var) (body : Body) (block : Block) (fact : ConstFact) :
    ((analysis pinned body).transfer block fact).isTop = fact.isTop :=
  Body.transfer_code_related body .forward (step pinned) block (fun after _ => after.isTop = fact.isTop)
    (fun inst operation after _ _ same => (is_top_step pinned inst operation after).trans same) fact fact rfl

theorem joined_top (pinned : OrderedSet Var) (body : Body) (outs : Block → ConstFact) (block : Block)
    (inner : block ≠ body.entry) (tops : ∀ pred ∈ body.preds block, outs pred = .top) :
    Solver.joined (analysis pinned body) body outs block = .top := by
  have met (preds : List Block) (tops : ∀ pred ∈ preds, outs pred = .top) :
      Solver.meetFrom (analysis pinned body) outs .top preds = .top := by
    induction preds with
    | nil => rfl
    | cons pred rest ih =>
      obtain ⟨here, later⟩ := List.forall_mem_cons.mp tops
      rw [Solver.meetFrom, List.foldl_cons, here]
      exact ih later
  have starts : Solver.start (analysis pinned body) body block = .top := if_neg inner
  rw [Solver.joined, starts]
  exact met (body.preds block) tops

theorem recomputed_top (pinned : OrderedSet Var) (body : Body) (outs : Block → ConstFact) (block : Block)
    (inner : block ≠ body.entry) (tops : ∀ pred ∈ body.preds block, outs pred = .top) :
    Solver.recomputed (analysis pinned body) body outs block = .top := by
  rw [Solver.recomputed, joined_top pinned body outs block inner tops, ← Bindings.is_top_iff, is_top_transfer]
  rfl

end Constants

namespace Body

section Analyses

variable (body other : Body) (alike : body.ReachedAlike other) (accepted : body.check = .ok ())
  (otherAccepted : other.check = .ok ())

include alike accepted otherAccepted

theorem constants_carried (pinned otherPinned : OrderedSet Var) (memory : otherPinned.toList = pinned.toList)
    (others : BlockFacts ConstFact)
    (otherAnswers : Solver.Answers (Constants.analysis otherPinned other) other Bindings.Sound Bindings.le others) :
    Solver.CarriedOver (Constants.analysis pinned body) (Constants.analysis otherPinned other) body other Bindings.Sound
      Bindings.le others (body.Reaches body.entry)
      (body.fillUnreached (Solver.outgoing (Constants.analysis otherPinned other) others) fun _ => .top) where
  carried := fill_unreached_all body Bindings.Sound _ _ otherAnswers.outs fun _ _ known => nomatch known
  bounded := fun _ _ => trivial
  holds := fill_unreached_reached body _ _
  starts := fun block inside _ => by
    have otherInside := (alike_contains body other alike block).trans inside
    have otherLaws := Constants.sound_lawful otherPinned other
    have first := (Solver.answers_bounds _ other _ _ otherLaws others otherAnswers block otherInside).1
    rwa [Solver.start, alike.entry] at first
  enters := fun block _ source _ away => by
    rw [fill_unreached_elsewhere body _ _ source away]
    trivial
  passes := fun block reached => by
    have steps : Constants.step otherPinned = Constants.step pinned := by
      funext inst operation fact
      rw [Constants.step, Constants.step, memory]
    simp only [Constants.analysis, steps]
    rw [alike_transfer body other alike accepted otherAccepted .forward (Constants.step pinned) block reached]
    exact Bindings.le_refl _
  stays := fun block _ away => by
    have inner : block ≠ body.entry := fun same => away (same ▸ reaches_self body body.entry)
    have tops (pred : Block) (edge : pred ∈ body.preds block) : body.fillUnreached
        (Solver.outgoing (Constants.analysis otherPinned other) others) (fun _ => .top) pred = .top :=
      fill_unreached_elsewhere body _ _ pred (unreached_preds body accepted block pred away edge)
    rw [fill_unreached_elsewhere body _ _ block away, Constants.recomputed_top pinned body _ block inner tops]
    trivial

theorem constants_agree : ∃ analysis twin facts others, body.constantAnalysis = .ok analysis ∧
    other.constantAnalysis = .ok twin ∧ body.analyze analysis = .ok facts ∧ other.analyze twin = .ok others ∧
    body.AgreeReached analysis.same facts others := by
  obtain ⟨pinned, taken, _⟩ := address_taken_total body body.layout (well_formed_of_check body accepted).laid
  obtain ⟨otherPinned, otherTaken, _⟩ := address_taken_total other other.layout (well_formed_of_check other otherAccepted).laid
  have memory := alike.memory pinned otherPinned taken otherTaken
  have laws := Constants.sound_lawful pinned body
  have otherLaws := Constants.sound_lawful otherPinned other
  obtain ⟨facts, solved⟩ := constants_solved body accepted pinned
  obtain ⟨others, otherSolved⟩ := constants_solved other otherAccepted otherPinned
  have answers := Solver.answers_of_analyze _ body _ _ laws facts solved.found
  have otherAnswers := Solver.answers_of_analyze _ other _ _ otherLaws others otherSolved.found
  have brought := constants_carried body other alike accepted otherAccepted pinned otherPinned memory others otherAnswers
  have back := constants_carried other body (alike_symm body other alike) otherAccepted accepted otherPinned pinned memory.symm
    facts answers
  refine ⟨Constants.analysis pinned body, Constants.analysis otherPinned other, facts, others, ?_, ?_, solved.found,
    otherSolved.found, ?_⟩
  · rw [constantAnalysis, taken]
    rfl
  · rw [constantAnalysis, otherTaken]
    rfl
  · exact Solver.agree_of_carried body other alike accepted (Constants.analysis pinned body) (Constants.analysis otherPinned other)
      rfl _ _ laws facts others answers otherAnswers otherAccepted otherLaws _ _ _ _ brought back fun block reached =>
        ⟨reached, (alike_reaches body other alike block).mpr reached⟩

theorem liveness_carried (scope : List Var) (others : BlockFacts (OrderedSet Var))
    (laws : body.livenessAnalysis.Lawful body (OrderedSet.Over scope) (Meet.le .union))
    (otherLaws : other.livenessAnalysis.Lawful other (OrderedSet.Over scope) (Meet.le .union))
    (otherAnswers : Solver.Answers other.livenessAnalysis other (OrderedSet.Over scope) (Meet.le .union) others) :
    Solver.CarriedOver body.livenessAnalysis other.livenessAnalysis body other (OrderedSet.Over scope) (Meet.le .union) others
      (body.Reaches body.entry)
      (body.fillUnreached (Solver.outgoing other.livenessAnalysis others) fun _ => .ofList scope) := by
  have full : (OrderedSet.ofList scope).Over scope := OrderedSet.over_of_list scope scope fun _ member => member
  have lowIn := fill_unreached_all body (OrderedSet.Over scope) (Solver.outgoing other.livenessAnalysis others)
    (fun _ => .ofList scope) otherAnswers.outs fun _ => full
  refine ⟨lowIn, fun block _ var member => (nomatch member), fill_unreached_reached body _ _, fun block inside _ => ?_,
    fun block reached source member away => ?_, fun block reached => ?_, fun block inside away => ?_⟩
  · have starts : Solver.start other.livenessAnalysis other block = Solver.start body.livenessAnalysis body block := by
      simp only [Solver.start, livenessAnalysis, ite_self]
    have otherInside := (alike_contains body other alike block).trans inside
    rw [← starts]
    exact (Solver.answers_bounds _ other _ _ otherLaws others otherAnswers block otherInside).1
  · exact (away (reaches_succ body block source reached member)).elim
  · simp only [livenessAnalysis]
    rw [alike_transfer body other alike accepted otherAccepted .backward Liveness.step block reached]
    exact fun _ member => member
  · have newIn := Solver.recomputed_carried _ body _ laws.toCarries _ lowIn block inside
    rw [fill_unreached_elsewhere body _ _ block away]
    exact fun var member => (OrderedSet.mem_of_list scope var).mpr (newIn.inside var member)

theorem liveness_agree : ∃ facts others, body.analyze body.livenessAnalysis = .ok facts ∧
    other.analyze other.livenessAnalysis = .ok others ∧ body.AgreeReached body.livenessAnalysis.same facts others := by
  have laws := liveness_lawful body (body.usedScope ++ other.usedScope) fun inst operation found var used =>
    List.mem_append_left _ (mem_used_scope body inst operation found var used)
  have otherLaws := liveness_lawful other (body.usedScope ++ other.usedScope) fun inst operation found var used =>
    List.mem_append_right _ (mem_used_scope other inst operation found var used)
  obtain ⟨facts, solved⟩ := liveness_solved body accepted
  obtain ⟨others, otherSolved⟩ := liveness_solved other otherAccepted
  have answers := Solver.answers_of_analyze _ body _ _ laws facts solved.found
  have otherAnswers := Solver.answers_of_analyze _ other _ _ otherLaws others otherSolved.found
  have brought := liveness_carried body other alike accepted otherAccepted _ others laws otherLaws otherAnswers
  have back := liveness_carried other body (alike_symm body other alike) otherAccepted accepted _ facts otherLaws laws answers
  refine ⟨facts, others, solved.found, otherSolved.found, ?_⟩
  exact Solver.agree_of_carried body other alike accepted body.livenessAnalysis other.livenessAnalysis rfl _ _ laws facts others
    answers otherAnswers otherAccepted otherLaws _ _ _ _ brought back fun block reached =>
      ⟨reached, (alike_reaches body other alike block).mpr reached⟩

end Analyses

end Body

end ThreeAddress
