import ThreeAddress.Proofs.Dataflow.OneCopy
import ThreeAddress.Proofs.Dataflow.UnreachedCopies

/-!
What reaching copies mean in a body without unreached blocks: a copy holds where a block begins just if every path to the
block executes it, and afterwards leaves both of its variables alone.
-/

set_option autoImplicit false

namespace ThreeAddress

-- This code executes the copy. After the last time nothing writes either of its variables, and if one of them lives in
-- memory, no store or call comes either.
def Copy.HoldsAlong (copy : Copy) (pinned : OrderedSet Var) (code : List (Inst × Operation)) : Prop :=
  ∃ front operation back, code = front ++ (copy.inst, operation) :: back ∧ ∀ later ∈ back, later.1 ≠ copy.inst ∧
    later.2.def? ≠ some copy.dst ∧ later.2.def? ≠ some copy.src ∧
    (copy.dst ∈ pinned.toList ∨ copy.src ∈ pinned.toList → later.2.clobbersMemory = false)

namespace Copies

variable (copies : Copies)

theorem ends_eq_false_iff (pinnedSound : copies.pinned.Sound) (operation : Operation) (copy : Copy) :
    copies.ends operation copy = false ↔ operation.def? ≠ some copy.dst ∧ operation.def? ≠ some copy.src ∧
      (copy.dst ∈ copies.pinned.toList ∨ copy.src ∈ copies.pinned.toList → operation.clobbersMemory = false) := by
  have unwritten : operation.def?.any copy.mentions = false ↔
      operation.def? ≠ some copy.dst ∧ operation.def? ≠ some copy.src := by
    cases operation.def? with
    | none => simp
    | some var =>
      simp only [Option.any_some, Copy.mentions, Bool.or_eq_false_iff, beq_eq_false_iff_ne, ne_eq, Option.some.injEq]
      exact and_congr ne_comm ne_comm
  have inMemory : copies.inMemory copy = true ↔ copy.dst ∈ copies.pinned.toList ∨ copy.src ∈ copies.pinned.toList := by
    rw [Copies.inMemory, Bool.or_eq_true, OrderedSet.contains_iff _ pinnedSound, OrderedSet.contains_iff _ pinnedSound]
  rw [ends, Bool.or_eq_false_iff, unwritten, and_assoc, ← inMemory]
  cases copies.inMemory copy <;> simp

end Copies

namespace Body

theorem brought_iff_holds_along (body : Body) (accepted : body.check = .ok ()) (copies : Copies)
    (copiesOf : CopiesOf body body.layout copies) (copy : Copy)
    (moves : (body.operation? copy.inst).bind Operation.copy? = some (copy.dst, copy.src)) (path : List Block) :
    Brought copies.Makes copies.Spares (body.codeAlong path) copy.inst ↔
      copy.HoldsAlong copies.pinned (body.codeAlong path) := by
  have laid := (well_formed_of_check body accepted).laid
  have spared := copies.ends_eq_false_iff (pinned_sound body _ laid copies copiesOf)
  constructor
  · intro ⟨front, (inst, operation), back, whole, ⟨own, tracked⟩, kept⟩
    obtain rfl : copy.inst = inst := own
    obtain ⟨other, otherListed, same⟩ := (copies.find_is_some_iff copy.inst).mp tracked
    have listed := (copiesOf.listed copy).mpr ⟨same ▸ ((copiesOf.listed other).mp otherListed).1, moves⟩
    refine ⟨front, operation, back, whole, fun later member => ?_⟩
    have unended := (spared later.2 copy).mp (Bool.eq_false_iff.mpr fun ended => kept later member copy listed ended rfl)
    refine ⟨fun again => ?_, unended⟩
    -- The copy itself writes its destination, so that it does not come again.
    have inCode : (later.1, later.2) ∈ body.codeAlong path :=
      whole ▸ List.mem_append_right front (List.mem_cons_of_mem _ member)
    have found := (mem_code_along body accepted path _ _ inCode).2
    rw [again] at found
    have writes := Operation.def_of_copy later.2 _ _ (tracked_own body copies copiesOf copy.inst later.2 found copy listed rfl)
    exact unended.1 writes
  · intro ⟨front, operation, back, whole, kept⟩
    have inCode : (copy.inst, operation) ∈ body.codeAlong path := whole ▸ List.mem_append_right front List.mem_cons_self
    obtain ⟨⟨home, _, placed⟩, _⟩ := mem_code_along body accepted path _ _ inCode
    have listed := (copiesOf.listed copy).mpr ⟨⟨home, placed⟩, moves⟩
    have tracked := (copies.find_is_some_iff copy.inst).mpr ⟨copy, listed, rfl⟩
    refine ⟨front, (copy.inst, operation), back, whole, ⟨rfl, tracked⟩, fun later member other otherListed ended same => ?_⟩
    obtain rfl := List.inj_on_of_nodup_map copiesOf.once otherListed listed same
    have unended := (spared later.2 other).mpr (kept later member).2
    exact Bool.noConfusion (unended.symm.trans ended)

-- Where every block is reached, the copies that hold at a block are those that every path from the entry makes and leaves
-- alone. That goes for all moves between two variables, whether they are placed or not.
theorem reaching_copies_are_exact (body : Body) (accepted : body.check = .ok ())
    (connected : ∀ block, body.blocks.contains block = true → body.Reaches body.entry block) :
    ∃ copies facts, body.copies = .ok copies ∧ body.addressTaken = .ok copies.pinned ∧
      body.analyze (copies.analysis body) = .ok facts ∧
      ∀ block, body.blocks.contains block = true → ∀ copy : Copy,
        (body.operation? copy.inst).bind Operation.copy? = some (copy.dst, copy.src) →
        (HoldsAt facts block copy.inst ↔ ∀ path, Path body body.entry path block →
          copy.HoldsAlong copies.pinned (body.codeAlong path.dropLast)) := by
  obtain ⟨copies, facts, found, copiesOf, solved⟩ := copies_solved body accepted
  refine ⟨copies, facts, found, copiesOf.pinned, solved.found, fun block inside copy moves => ?_⟩
  have laws := copies_lawful body copies copiesOf _ fun _ member => member
  have answers := Solver.answers_of_analyze _ body _ _ laws facts solved.found
  have must := copies_must body accepted copies copiesOf _ (fun _ member => member) facts answers
  rw [holds_at_iff body copies facts answers.fits block inside, must.mem_inflow connected block inside]
  have along := brought_iff_holds_along body accepted copies copiesOf copy moves
  exact forall_congr' fun path => imp_congr_right fun _ => along path.dropLast

-- A copy of what is read first, and one into a variable in memory that one of two ways stores over.
def parting : Body where
  name := "parting"
  entry := .nth 0
  blocks := .ofList [
    { chain := ⟨.nth 0, .nth 4, 5⟩, succs := [.nth 2, .nth 1] },
    { chain := ⟨.nth 5, .nth 6, 2⟩, succs := [.nth 2], preds := [.nth 0] },
    { chain := ⟨.nth 7, .nth 8, 2⟩, preds := [.nth 1, .nth 0] }]
  cells := .ofList [
    { operation := .read (.nth 0), block := .nth 0, next := .nth 1 },
    { operation := .assign (.nth 1) (.var (.nth 0)), block := .nth 0, prev := .nth 0, next := .nth 2 },
    { operation := .assign (.nth 2) (.var (.nth 0)), block := .nth 0, prev := .nth 1, next := .nth 3 },
    { operation := .addrOf (.nth 3) (.nth 2), block := .nth 0, prev := .nth 2, next := .nth 4 },
    { operation := .branch .lt (.var (.nth 0)) (.lit 0) (.nth 7), block := .nth 0, prev := .nth 3 },
    { operation := .store (.var (.nth 3)) (.lit 0), block := .nth 1, next := .nth 6 },
    { operation := .goto (.nth 7), block := .nth 1, prev := .nth 5 },
    { operation := .label, block := .nth 2, next := .nth 8 },
    { operation := .ret (.var (.nth 1)), block := .nth 2, prev := .nth 7 }]
  vars := .ofList [some "x", some "y", some "m", some "p"]

theorem parting_connected (block : Block) (inside : parting.blocks.contains block = true) :
    parting.Reaches parting.entry block := by
  have first : parting.Reaches parting.entry (.nth 0) := reaches_self parting _
  match block with
  | .invalid => cases inside
  | .nth 0 => exact first
  | .nth 1 => exact reaches_succ parting (.nth 0) (.nth 1) first (by decide)
  | .nth 2 => exact reaches_succ parting (.nth 0) (.nth 2) first (by decide)
  | .nth (index + 3) =>
    rw [Arena.contains_iff] at inside
    simp [parting, Arena.ofList, Arena.get?] at inside

-- At the join only the first copy holds, though the second one holds on the way that does not store.
theorem parting_copies_exact : parting.check = .ok () ∧
    (∀ block, parting.blocks.contains block = true → parting.Reaches parting.entry block) ∧
    ∃ copies facts, parting.copies = .ok copies ∧ parting.analyze (copies.analysis parting) = .ok facts ∧
      copies.pinned.toList = [.nth 2] ∧
      (∀ path, Path parting parting.entry path (.nth 2) →
        Copy.HoldsAlong ⟨.nth 1, .nth 1, .nth 0⟩ copies.pinned (parting.codeAlong path.dropLast)) ∧
      (∀ path, Path parting parting.entry path (.nth 1) →
        Copy.HoldsAlong ⟨.nth 2, .nth 2, .nth 0⟩ copies.pinned (parting.codeAlong path.dropLast)) ∧
      ¬ ∀ path, Path parting parting.entry path (.nth 2) →
        Copy.HoldsAlong ⟨.nth 2, .nth 2, .nth 0⟩ copies.pinned (parting.codeAlong path.dropLast) := by
  have accepted : parting.check = .ok () := by rfl
  obtain ⟨copies, facts, found, _, solved, exactly⟩ := reaching_copies_are_exact parting accepted parting_connected
  have computed : (do
      let copies ← parting.copies
      let facts ← parting.analyze (copies.analysis parting)
      return (copies.pinned.toList, (facts.atEntry.get? (.nth 1)).map OrderedSet.toList,
        (facts.atEntry.get? (.nth 2)).map OrderedSet.toList) : Except Fault _).toOption =
      some ([.nth 2], some [.nth 1, .nth 2], some [.nth 1]) := by decide +kernel
  simp only [found, solved, bind, Except.bind, pure, Except.pure, Except.toOption, Option.some.injEq, Prod.mk.injEq] at computed
  obtain ⟨memory, before, join⟩ := computed
  obtain ⟨storing, storingFound, storingHolds⟩ := Option.map_eq_some_iff.mp before
  obtain ⟨joined, joinedFound, joinedHolds⟩ := Option.map_eq_some_iff.mp join
  refine ⟨accepted, parting_connected, copies, facts, found, solved, memory, ?_, ?_, ?_⟩
  · apply (exactly (.nth 2) rfl ⟨.nth 1, .nth 1, .nth 0⟩ rfl).mp
    exact ⟨joined, joinedFound, by rw [joinedHolds]; decide⟩
  · apply (exactly (.nth 1) rfl ⟨.nth 2, .nth 2, .nth 0⟩ rfl).mp
    exact ⟨storing, storingFound, by rw [storingHolds]; decide⟩
  · intro always
    obtain ⟨holding, held, member⟩ := (exactly (.nth 2) rfl ⟨.nth 2, .nth 2, .nth 0⟩ rfl).mpr always
    obtain rfl := Option.some.inj (joinedFound.symm.trans held)
    rw [joinedHolds] at member
    exact absurd member (by decide)

end Body

end ThreeAddress
