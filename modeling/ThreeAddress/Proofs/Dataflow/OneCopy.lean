import Mathlib.Data.List.Find
import ThreeAddress.Proofs.Dataflow.Points

/-!
Where a path leads, at most one copy into each variable holds: the latest, since every write of a variable puts an end
to all copies into it. So it makes no difference in which order the copies are looked up.
-/

set_option autoImplicit false

namespace ThreeAddress

theorem Operation.def_of_copy (operation : Operation) (dst src : Var) (moves : operation.copy? = some (dst, src)) :
    operation.def? = some dst := by
  rw [copy?.eq_def] at moves
  split at moves
  · split at moves
    · cases moves
    · cases moves
      rfl
  · cases moves

theorem Body.tracked_own (body : Body) (copies : Copies) (copiesOf : body.CopiesOf body.layout copies) (inst : Inst)
    (operation : Operation) (found : body.operation? inst = some operation) (copy : Copy) (listed : copy ∈ copies.list)
    (same : copy.inst = inst) : operation.copy? = some (copy.dst, copy.src) := by
  have moves := ((copiesOf.listed copy).mp listed).2
  rw [same, found] at moves
  exact moves

namespace Copies

def OneEach (copies : Copies) (holding : OrderedSet Inst) : Prop :=
  ∀ first ∈ copies.list, ∀ second ∈ copies.list, first.inst ∈ holding.toList → second.inst ∈ holding.toList →
    first.dst = second.dst → first = second

def AnyOrder (copies : Copies) (holding : OrderedSet Inst) : Prop :=
  ∀ indexed : List Copy, copies.list.Perm indexed → ∀ var,
    { copies with list := indexed }.source? holding var = copies.source? holding var

theorem fits_iff (holding : OrderedSet Inst) (sound : holding.Sound) (var : Var) (copy : Copy) :
    (copy.dst == var && holding.contains copy.inst) = true ↔ copy.dst = var ∧ copy.inst ∈ holding.toList := by
  rw [Bool.and_eq_true, beq_iff_eq, OrderedSet.contains_iff holding sound]

theorem any_order_of_one_each (copies : Copies) (holding : OrderedSet Inst) (sound : holding.Sound) (one : copies.OneEach holding) :
    copies.AnyOrder holding := by
  intro indexed permuted var
  have same := List.find?_eq_find?_of_perm permuted
    (p := fun copy => copy.dst == var && holding.contains copy.inst) ?_
  · rw [source?, source?, same]
  · intro first ⟨firstListed, firstFits⟩ second ⟨secondListed, secondFits⟩
    obtain ⟨firstInto, firstHeld⟩ := (fits_iff holding sound var first).mp firstFits
    obtain ⟨secondInto, secondHeld⟩ := (fits_iff holding sound var second).mp secondFits
    exact one first firstListed second secondListed firstHeld secondHeld (firstInto.trans secondInto.symm)

section Step

variable (copies : Copies) (once : (copies.list.map Copy.inst).Nodup) (inst : Inst) (operation : Operation)
  (own : ∀ copy ∈ copies.list, copy.inst = inst → operation.copy? = some (copy.dst, copy.src))

include own

-- A copy that was made before does not outlive another copy into its destination.
theorem ends_of_made (made other : Copy) (listed : made ∈ copies.list) (here : made.inst = inst) (same : made.dst = other.dst) :
    copies.ends operation other = true := by
  have writes := Operation.def_of_copy operation _ _ (own made listed here)
  have mentions : other.mentions made.dst = true := by
    rw [Copy.mentions, same]
    simp
  rw [ends, writes, Option.any_some, mentions, Bool.true_or]

include once

theorem step_one_each (holding : OrderedSet Inst) (sound : holding.Sound) (one : copies.OneEach holding) :
    copies.OneEach (copies.step inst operation holding) := by
  intro first firstListed second secondListed firstHeld secondHeld same
  rcases (mem_step copies inst operation holding sound first.inst).mp firstHeld with ⟨firstNew, _⟩ | ⟨firstKept, firstOld⟩
  · rcases (mem_step copies inst operation holding sound second.inst).mp secondHeld with ⟨secondNew, _⟩ | ⟨secondKept, _⟩
    · exact List.inj_on_of_nodup_map once firstListed secondListed (firstNew.trans secondNew.symm)
    · have ended := ends_of_made copies inst operation own first second firstListed firstNew same
      exact (secondKept second secondListed ended rfl).elim
  · rcases (mem_step copies inst operation holding sound second.inst).mp secondHeld with ⟨secondNew, _⟩ | ⟨_, secondOld⟩
    · have ended := ends_of_made copies inst operation own second first secondListed secondNew same.symm
      exact (firstKept first firstListed ended rfl).elim
    · exact one first firstListed second secondListed firstOld secondOld same

end Step

theorem one_each_faithful (copies : Copies) (body : Body) (copiesOf : body.CopiesOf body.layout copies) :
    (copies.analysis body).Faithful body (OrderedSet.Over copies.all.toList) (Meet.le .intersection) copies.step
      (fun _ holding => holding.Sound ∧ copies.OneEach holding) where
  forward := rfl
  transfers := rfl
  start := ⟨OrderedSet.sound_empty, fun _ _ _ _ held => (List.not_mem_nil held).elim⟩
  lower := by
    intro _ a b aOver less ⟨_, one⟩
    constructor
    · exact aOver.sound
    · exact fun first firstListed second secondListed firstHeld secondHeld =>
        one first firstListed second secondListed (less first.inst firstHeld) (less second.inst secondHeld)
  carries := by
    intro block inst operation member _ holding ⟨sound, one⟩
    have own := Body.tracked_own body copies copiesOf inst operation (Body.mem_code_toward body .forward block inst operation member)
    constructor
    · exact sound_step copies inst operation holding sound
    · exact step_one_each copies copiesOf.once inst operation own holding sound one

end Copies

namespace Body

theorem held_one_each (body : Body) (accepted : body.check = .ok ()) (copies : Copies) (copiesOf : body.CopiesOf body.layout copies)
    (facts : BlockFacts (OrderedSet Inst))
    (solved : body.Solved (copies.analysis body) (OrderedSet.Over copies.all.toList) (Meet.le .intersection) facts)
    (other : Body) (kept : ∀ copy ∈ copies.list, other.operation? copy.inst = body.operation? copy.inst) (block : Block)
    (reached : body.Reaches body.entry block) (front : List (Inst × Operation)) (holding : OrderedSet Inst)
    (here : facts.At other copies.step block front holding) : holding.Sound ∧ copies.OneEach holding := by
  obtain ⟨path, leads⟩ := reached
  have laws := tracked_lawful body body.layout copies copiesOf
  have solvedHere := point_holds body _ _ _ laws facts solved accepted _ _ (Copies.one_each_faithful copies body copiesOf) path block leads
  cases here with
  | within front back fact stored split =>
    have entered := solvedHere [] fact (.within block [] (body.code block) fact stored rfl)
    apply List.foldlRecOn (motive := fun holding => holding.Sound ∧ copies.OneEach holding) front _ entered
    intro holding ⟨sound, one⟩ (inst, operation) member
    have walked : (inst, operation) ∈ other.code block := split ▸ List.mem_append_left back member
    have found := mem_code_toward other .forward block inst operation walked
    have own (copy : Copy) (listed : copy ∈ copies.list) (same : copy.inst = inst) :=
      tracked_own body copies copiesOf inst operation ((same ▸ kept copy listed).symm.trans found) copy listed same
    constructor
    · exact Copies.sound_step copies inst operation holding sound
    · exact Copies.step_one_each copies copiesOf.once inst operation own holding sound one
  | atEnd _ stored => exact solvedHere (body.code block) holding (.atEnd block holding stored)

end Body

end ThreeAddress
