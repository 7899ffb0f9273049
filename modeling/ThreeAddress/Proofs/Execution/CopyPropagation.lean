import ThreeAddress.Proofs.Dataflow.OneCopy
import ThreeAddress.Proofs.Execution.Rewrites
import ThreeAddress.Proofs.Optimizer.Rewrites

/-!
Copy propagation changes no run, since both variables of a copy that holds have the same value.
-/

set_option autoImplicit false

namespace ThreeAddress

namespace Copies

structure Holds (copies : Copies) (holding : OrderedSet Inst) (machine : Machine) : Prop where
  sound : holding.Sound
  equal : ∀ copy ∈ copies.list, copy.inst ∈ holding.toList → machine.env copy.dst = machine.env copy.src

theorem copy_survives (around : Surroundings) (copies : Copies) (within : around.Within copies.pinned)
    (pinnedSound : copies.pinned.Sound) (operation : Operation) (machine after : Machine)
    (went : (machine.step around operation).2 = some after) (copy : Copy) (goesOn : copies.ends operation copy = false)
    (equal : machine.env copy.dst = machine.env copy.src) : after.env copy.dst = after.env copy.src := by
  obtain ⟨unmentioned, kept⟩ := Bool.or_eq_false_iff.mp goesOn
  have untouched (var : Var) (mentioned : copy.dst = var ∨ copy.src = var) : after.env var = machine.env var := by
    apply Machine.step_elsewhere around machine after operation went var
    · intro defines
      rw [defines, Option.any_some, Copy.mentions] at unmentioned
      rcases mentioned with same | same <;> simp [same] at unmentioned
    · intro clobbers
      apply outside_memory around copies.pinned within var
      intro inMemory
      rw [clobbers, Bool.true_and, Copies.inMemory] at kept
      rw [← OrderedSet.contains_iff copies.pinned pinnedSound] at inMemory
      rcases mentioned with same | same <;> simp [same, inMemory] at kept
  rw [untouched copy.dst (.inl rfl), untouched copy.src (.inr rfl), equal]

theorem copy_made (around : Surroundings) (operation : Operation) (machine after : Machine)
    (went : (machine.step around operation).2 = some after) (dst src : Var) (moves : operation.copy? = some (dst, src)) :
    after.env dst = after.env src := by
  cases operation with
  | assign place operand =>
    cases operand with
    | lit value => cases moves
    | var name =>
      simp only [Operation.copy?] at moves
      split at moves
      · cases moves
      · rename_i different
        cases moves
        cases went
        rw [Machine.assign_here, Machine.assign_elsewhere _ _ _ _ (Ne.symm different)]
        rfl
  | _ => cases moves

theorem step_holds (around : Surroundings) (copies : Copies) (within : around.Within copies.pinned)
    (pinnedSound : copies.pinned.Sound) (inst : Inst) (operation : Operation)
    (own : ∀ copy ∈ copies.list, copy.inst = inst → operation.copy? = some (copy.dst, copy.src))
    (holding : OrderedSet Inst) (machine after : Machine) (holds : copies.Holds holding machine)
    (went : (machine.step around operation).2 = some after) :
    copies.Holds (copies.step inst operation holding) after := by
  refine ⟨sound_step copies inst operation holding holds.sound, fun copy listed member => ?_⟩
  rcases (Copies.mem_step copies inst operation holding holds.sound copy.inst).mp member with ⟨same, _⟩ | ⟨kept, held⟩
  · exact copy_made around operation machine after went copy.dst copy.src (own copy listed same)
  · have goesOn := Bool.eq_false_iff.mpr fun ends => kept copy listed ends rfl
    exact copy_survives around copies within pinnedSound operation machine after went copy goesOn (holds.equal copy listed held)

theorem source_holds (copies : Copies) (holding : OrderedSet Inst) (machine : Machine) (holds : copies.Holds holding machine)
    (var src : Var) (found : copies.source? holding var = some src) : machine.env src = machine.env var := by
  obtain ⟨copy, chosen, same⟩ := Option.map_eq_some_iff.mp found
  have fits := List.find?_some chosen
  obtain ⟨into, held⟩ := (fits_iff holding holds.sound var copy).mp fits
  rw [← same, ← into]
  exact (holds.equal copy (List.mem_of_find?_eq_some chosen) held).symm

theorem edit_step_unseen (around : Surroundings) (copies : Copies) (within : around.Within copies.pinned)
    (pinnedSound : copies.pinned.Sound) (inst : Inst) (operation : Operation)
    (own : ∀ copy ∈ copies.list, copy.inst = inst → operation.copy? = some (copy.dst, copy.src)) :
    EditUnseen around copies.editStep copies.Holds inst operation := by
  intro holding tally machine holds
  rw [editStep]
  by_cases copy : (copies.find? inst).isSome = true
  · simp only [copy, if_true]
    exact ⟨trivial, fun after went => step_holds around copies within pinnedSound inst operation own holding machine after holds went⟩
  · simp only [copy]
    let source? := fun var => (copies.source? holding var).map Operand.var
    have same : machine.step around (operation.updateUses (Tally.substitute source?) tally).2 = machine.step around operation := by
      apply Machine.step_substitute
      intro var replacement known
      obtain ⟨src, held, made⟩ := Option.map_eq_some_iff.mp known
      rw [← made]
      exact source_holds copies holding machine holds var src held
    constructor
    · exact same
    · intro after went
      rw [← same] at went
      apply step_holds around copies within pinnedSound inst _ _ holding machine after holds went
      exact fun known member same => (copy (List.find?_isSome.mpr ⟨known, member, beq_iff_eq.mpr same⟩)).elim

end Copies

namespace Body

section Runs

variable (body : Body) (accepted : body.check = .ok ()) (copies : Copies) (copiesOf : body.CopiesOf body.layout copies)
  (around : Surroundings) (within : around.Within copies.pinned)

include accepted copiesOf within

theorem copies_faithful : (copies.analysis body).Faithful body (OrderedSet.Over copies.all.toList) (Meet.le .intersection)
    copies.step (TrueAfter around copies.Holds) := by
  have pinnedSound := pinned_sound body body.layout (well_formed_of_check body accepted).laid copies copiesOf
  apply faithful_of_steps body _ _ _ _ around copies.Holds rfl rfl
  · exact fun machine => ⟨OrderedSet.sound_empty, fun _ _ member => (List.not_mem_nil member).elim⟩
  · exact fun a b machine aOver less holds => ⟨aOver.sound, fun copy member held => holds.equal copy member (less copy.inst held)⟩
  · intro block inst operation member holding machine after holds went
    have own := tracked_own body copies copiesOf inst operation (mem_code_toward body .forward block inst operation member)
    exact Copies.step_holds around copies within pinnedSound inst operation own holding machine after holds went

theorem copies_runs (facts : BlockFacts (OrderedSet Inst))
    (solved : body.Solved (copies.analysis body) (OrderedSet.Over copies.all.toList) (Meet.le .intersection) facts)
    (order : FlowOrder) (other : Body) (edited : CodeEdited copies.editStep (holdingAt order facts) body other) :
    body.RunsAs other around := by
  have pinnedSound := pinned_sound body body.layout (well_formed_of_check body accepted).laid copies copiesOf
  have laws := tracked_lawful body body.layout copies copiesOf
  have faithful := copies_faithful body accepted copies copiesOf around within
  apply edited_runs body other accepted around _ _ edited copies.Holds
  · intro block inst operation member
    have own := tracked_own body copies copiesOf inst operation (mem_code_toward body .forward block inst operation member)
    exact Copies.edit_step_unseen around copies within pinnedSound inst operation own
  · intro env path block machine leads arrives holding begins
    have stored : facts.atEntry.get? block = some holding := by
      rw [holdingAt] at begins
      split at begins
      · exact begins
      · cases begins
    exact point_holds body _ _ _ laws facts solved accepted _ _ faithful path block leads [] holding
      (.within block [] (body.code block) holding stored rfl) env machine arrives

end Runs

-- Copy propagation changes nothing that a run shows or holds. All it writes are variables read by instructions that are
-- reached and are no copies, and wherever it looks up a source there is one copy to be found at most.
theorem copy_propagation_preserves_runs (body : Body) (accepted : body.check = .ok ()) (fuel : Fuel) :
    ∃ copies facts tally propagated, body.copies = .ok copies ∧ body.addressTaken = .ok copies.pinned ∧
      body.analyze (copies.analysis body) = .ok facts ∧ body.propagateCopies fuel = .ok (tally, propagated) ∧
      (∀ around : Surroundings, around.Within copies.pinned → body.RunsAs propagated around) ∧
      (body.VariablesOnly propagated fun inst =>
        copies.find? inst = none ∧ ∃ block, body.Reaches body.entry block ∧ inst ∈ body.layout block) ∧
      ∀ block front holding, body.Reaches body.entry block →
        facts.At body copies.step block front holding ∨ facts.At propagated copies.step block front holding →
        copies.OneEach holding ∧ copies.AnyOrder holding := by
  obtain ⟨copies, facts, order, tally, propagated, found, copiesOf, solved, describes, done, edited⟩ :=
    propagate_copies_edits body accepted fuel
  have renamed := copies_variables body accepted copies facts order describes propagated edited
  refine ⟨copies, facts, tally, propagated, found, copiesOf.pinned, solved.found, done, fun around within => ?_, renamed, ?_⟩
  · exact copies_runs body accepted copies copiesOf around within facts solved order propagated edited
  · intro block front holding reached here
    obtain ⟨sound, one⟩ : holding.Sound ∧ copies.OneEach holding := by
      rcases here with here | here
      · exact held_one_each body accepted copies copiesOf facts solved body (fun _ _ => rfl) block reached front holding here
      · have kept := copies_kept body copies copiesOf propagated _ renamed fun _ among => among.1
        exact held_one_each body accepted copies copiesOf facts solved propagated kept block reached front holding here
    exact ⟨one, Copies.any_order_of_one_each copies holding sound one⟩

-- A copy in front of a loop that leaves it alone, and another in the loop.
def circling : Body where
  name := "circling"
  entry := .nth 0
  blocks := .ofList [
    { chain := ⟨.nth 0, .nth 1, 2⟩, succs := [.nth 1] },
    { chain := ⟨.nth 2, .nth 7, 6⟩, succs := [.nth 1, .nth 2], preds := [.nth 0, .nth 1] },
    { chain := ⟨.nth 8, .nth 8, 1⟩, preds := [.nth 1] }]
  cells := .ofList [
    { operation := .param (.nth 0), block := .nth 0, next := .nth 1 },
    { operation := .assign (.nth 1) (.var (.nth 0)), block := .nth 0, prev := .nth 0 },
    { operation := .label, block := .nth 1, next := .nth 3 },
    { operation := .write (.var (.nth 1)), block := .nth 1, prev := .nth 2, next := .nth 4 },
    { operation := .assign (.nth 2) (.var (.nth 1)), block := .nth 1, prev := .nth 3, next := .nth 5 },
    { operation := .write (.var (.nth 2)), block := .nth 1, prev := .nth 4, next := .nth 6 },
    { operation := .read (.nth 3), block := .nth 1, prev := .nth 5, next := .nth 7 },
    { operation := .branch .eq (.var (.nth 3)) (.lit 0) (.nth 2), block := .nth 1, prev := .nth 6 },
    { operation := .ret (.var (.nth 2)), block := .nth 2 }]
  vars := .ofList [some "a", some "b", some "c", some "k"]

theorem circling_propagates_copies : circling.check = .ok () ∧
    ∃ copies facts tally propagated, circling.copies = .ok copies ∧ circling.analyze (copies.analysis circling) = .ok facts ∧
      circling.propagateCopies .infinite = .ok (tally, propagated) ∧
      propagated.operation? (.nth 3) = some (.write (.var (.nth 0))) ∧
      propagated.operation? (.nth 4) = circling.operation? (.nth 4) ∧
      propagated.operation? (.nth 8) = some (.ret (.var (.nth 1))) ∧
      (∀ around : Surroundings, around.Within .empty → circling.RunsAs propagated around) ∧
      ∀ holding, facts.atEntry.get? (.nth 2) = some holding → copies.OneEach holding ∧ copies.AnyOrder holding := by
  have accepted : circling.check = .ok () := by rfl
  obtain ⟨copies, facts, tally, propagated, found, taken, solved, done, runs, _, held⟩ :=
    copy_propagation_preserves_runs circling accepted .infinite
  have none : circling.addressTaken = .ok .empty := by rfl
  rw [none] at taken
  rw [← Except.ok.inj taken] at runs
  have rewritten : (circling.propagateCopies .infinite).toOption.map
      (fun after => (after.2.operation? (.nth 3), after.2.operation? (.nth 4), after.2.operation? (.nth 8))) =
      some (some (.write (.var (.nth 0))), circling.operation? (.nth 4), some (.ret (.var (.nth 1)))) := by decide +kernel
  rw [done] at rewritten
  obtain ⟨inLoop, rest⟩ := Prod.mk.inj (Option.some.inj rewritten)
  obtain ⟨copy, behind⟩ := Prod.mk.inj rest
  have leads : Path circling circling.entry [.nth 0, .nth 1, .nth 2] (.nth 2) :=
    .step _ (.nth 1) _ _ (by decide) (.step _ (.nth 2) _ _ (by decide) (.here _))
  refine ⟨accepted, copies, facts, tally, propagated, found, solved, done, inLoop, copy, behind, runs, fun holding stored => ?_⟩
  exact held (.nth 2) [] holding ⟨_, leads⟩ (.inl (.within (.nth 2) [] _ holding stored rfl))

end Body

end ThreeAddress
