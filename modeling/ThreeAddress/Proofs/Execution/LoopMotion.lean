import ThreeAddress.Proofs.Execution.InvariantMotion
import ThreeAddress.Proofs.Optimizer.MotionPlaces
import ThreeAddress.Proofs.Optimizer.MotionRounds

/-!
Loop-invariant code motion as a whole, for bodies whose preheaders are reached. It comes to an end by itself, leaves what it
moves in preheaders of the loops that held it, and changes nothing that is shown but for terminators of preheaders that
read what moves in front of them.
-/

set_option autoImplicit false

namespace ThreeAddress.Body

def PreheadersReached (body : Body) (loops : List Loop) : Prop :=
  ∀ loop ∈ loops, ∀ pre, loop.preheader? body = some pre → body.Reaches body.entry pre

theorem reached_of_listed (body : Body) (loops : List Loop) (preheaders : List (Option Block))
    (listed : loops.map (·.preheader? body) = preheaders)
    (reached : ∀ pre, some pre ∈ preheaders → body.Reaches body.entry pre) : body.PreheadersReached loops := by
  intro loop member pre enters
  apply reached pre
  rw [← listed]
  exact List.mem_map.mpr ⟨loop, member, enters⟩

-- Hoisting goes on from loop to loop, each until a round moves nothing, and never fails. What has moved is in the preheader
-- of a loop that it was in, and everything else stands where it stood. Where preheaders are reached, traces stay the same if
-- no terminator reads what moves in front of it. Otherwise all but the overtaken terminators still show the same, and the
-- traces are the same just if they are on the paths that end where one of these stands.
theorem motion_preserves_traces (body : Body) (accepted : body.check = .ok ()) (fuel : Fuel) :
    ∃ dominance pinned left moved gone, body.dominance = .ok dominance ∧ body.addressTaken = .ok pinned ∧
      body.hoistInvariants fuel = .ok (left, moved) ∧
      Hoists dominance pinned (body.loops dominance) ⟨fuel, 0⟩ body left moved ∧
      body.Relocates moved (body.loops dominance) gone ∧
      (body.PreheadersReached (body.loops dominance) → ∀ around : Surroundings, around.Within pinned →
        (AlongMotion (fun plan => plan.OvertakesOnly []) fuel body → body.TracesAs moved around) ∧
        ∀ overtaken, AlongMotion (fun plan => plan.OvertakesOnly overtaken) fuel body →
          (∀ env path target, Path body body.entry path target →
            moved.heard overtaken around env path = body.heard overtaken around env path) ∧
          (body.TracesAs moved around ↔ ∀ env path block, Path body body.entry path block →
            (∃ last ∈ overtaken, last ∈ body.layout block) → moved.trace around env path = body.trace around env path)) := by
  have wellFormed := well_formed_of_check body accepted
  obtain ⟨dominance, computed, solved, describes⟩ := body.dominance_total accepted
  obtain ⟨pinned, taken, _⟩ := address_taken_total body body.layout wellFormed.laid
  obtain ⟨left, moved, gone, ran, movedAccepted, keeps, relocates⟩ := body.hoist_invariants_relocates accepted fuel dominance computed
  refine ⟨dominance, pinned, left, moved, gone, computed, taken, ran,
    hoist_invariants_hoists dominance pinned body fuel left moved computed taken ran, relocates, ?_⟩
  intro guarded around within
  have hears (overtaken : List Inst) (along : AlongMotion (fun plan => plan.OvertakesOnly overtaken) fuel body) :
      body.HearsAs moved overtaken around := by
    apply hoist_invariants_heard body accepted fuel around _ overtaken _ along _ left moved ran
    · intro other found
      rw [taken] at found
      cases found
      exact within
    · intro found plan same listed enters state block inst frame only
      rw [computed] at same
      cases same
      have natural := loops_natural body dominance wellFormed.edges describes plan.loop listed
      have apart := (body.preheader_reached_iff accepted dominance solved plan.loop natural plan.preheader enters describes listed).mp
        (guarded plan.loop listed plan.preheader enters)
      exact ⟨fun _ _ _ => frame.entry.symm ▸ apart, only⟩
  refine ⟨fun along => body.traces_of_hears moved around (hears [] along), fun overtaken along => ⟨fun env path target leads => ?_,
    fun traces env path block leads _ => traces env path block leads,
    body.traces_of_overtaken moved overtaken around accepted movedAccepted keeps (hears overtaken along)⟩⟩
  exact (alike_shown _ _ _ (hears overtaken along env path target leads)).symm

-- A loop in a loop. The negation moves out of both.
def spiral : Body where
  name := "spiral"
  entry := .nth 0
  blocks := .ofList [
    { chain := ⟨.nth 0, .nth 1, 2⟩, succs := [.nth 1] },
    { chain := ⟨.nth 2, .nth 4, 3⟩, succs := [.nth 2], preds := [.nth 0, .nth 3] },
    { chain := ⟨.nth 5, .nth 9, 5⟩, succs := [.nth 2, .nth 3], preds := [.nth 1, .nth 2] },
    { chain := ⟨.nth 10, .nth 10, 1⟩, succs := [.nth 1, .nth 4], preds := [.nth 2] },
    { chain := ⟨.nth 11, .nth 11, 1⟩, preds := [.nth 3] }]
  cells := .ofList [
    { operation := .param (.nth 0), block := .nth 0, next := .nth 1 },
    { operation := .goto (.nth 2), block := .nth 0, prev := .nth 0 },
    { operation := .label, block := .nth 1, next := .nth 3 },
    { operation := .read (.nth 2), block := .nth 1, prev := .nth 2, next := .nth 4 },
    { operation := .goto (.nth 5), block := .nth 1, prev := .nth 3 },
    { operation := .label, block := .nth 2, next := .nth 6 },
    { operation := .unary .neg (.nth 1) (.var (.nth 0)), block := .nth 2, prev := .nth 5, next := .nth 7 },
    { operation := .write (.var (.nth 1)), block := .nth 2, prev := .nth 6, next := .nth 8 },
    { operation := .read (.nth 2), block := .nth 2, prev := .nth 7, next := .nth 9 },
    { operation := .branch .eq (.var (.nth 2)) (.lit 0) (.nth 5), block := .nth 2, prev := .nth 8 },
    { operation := .branch .lt (.var (.nth 2)) (.lit 5) (.nth 2), block := .nth 3 },
    { operation := .ret (.var (.nth 2)), block := .nth 4 }]
  vars := .ofList [some "a", some "x", some "y"]

theorem spiral_motion : spiral.check = .ok () ∧ ∃ left moved pinned, spiral.addressTaken = .ok pinned ∧
    spiral.hoistInvariants .infinite = .ok (left, moved) ∧ .nth 6 ∈ spiral.layout (.nth 2) ∧ .nth 6 ∈ moved.layout (.nth 0) ∧
      ∀ around : Surroundings, around.Within pinned → spiral.TracesAs moved around := by
  have accepted : spiral.check = .ok () := by rfl
  have along : AlongMotion (fun plan => plan.OvertakesOnly []) .infinite spiral := by decide +kernel
  obtain ⟨dominance, pinned, left, moved, gone, computed, taken, ran, _, _, shows⟩ := motion_preserves_traces spiral accepted .infinite
  have found : spiral.dominance.toOption.map (fun dominance => (spiral.loops dominance).map (·.preheader? spiral)) =
      some [some (.nth 1), some (.nth 0)] := by decide +kernel
  rw [computed] at found
  have arrives : ∀ after, spiral.hoistInvariants .infinite = .ok after → .nth 6 ∈ after.2.layout (.nth 0) := by decide +kernel
  have guarded := spiral.reached_of_listed (spiral.loops dominance) _ (Option.some.inj found) fun pre listed => by
    have either : pre = .nth 1 ∨ pre = .nth 0 := by simpa using listed
    rcases either with one | zero
    · exact one ▸ ⟨[.nth 0, .nth 1], .step _ (.nth 1) _ _ (by decide) (.here _)⟩
    · exact zero ▸ spiral.reaches_self _
  refine ⟨accepted, left, moved, pinned, taken, ran, by decide, arrives _ ran, fun around within => ?_⟩
  exact (shows guarded around within).1 along

-- The branch in front of the loop reads what the loop overwrites.
def hasty : Body where
  name := "hasty"
  entry := .nth 0
  blocks := .ofList [
    { chain := ⟨.nth 0, .nth 1, 2⟩, succs := [.nth 1, .nth 1] },
    { chain := ⟨.nth 2, .nth 5, 4⟩, succs := [.nth 1], preds := [.nth 0, .nth 0, .nth 1] }]
  cells := .ofList [
    { operation := .read (.nth 0), block := .nth 0, next := .nth 1 },
    { operation := .branch .lt (.var (.nth 0)) (.lit 3) (.nth 2), block := .nth 0, prev := .nth 0 },
    { operation := .label, block := .nth 1, next := .nth 3 },
    { operation := .assign (.nth 0) (.lit 7), block := .nth 1, prev := .nth 2, next := .nth 4 },
    { operation := .write (.var (.nth 0)), block := .nth 1, prev := .nth 3, next := .nth 5 },
    { operation := .goto (.nth 2), block := .nth 1, prev := .nth 4 }]
  vars := .ofList [some "x"]

theorem hasty_motion_distorts : hasty.check = .ok () ∧ ∃ dominance pinned left moved, hasty.dominance = .ok dominance ∧
    hasty.addressTaken = .ok pinned ∧ hasty.hoistInvariants .infinite = .ok (left, moved) ∧
      hasty.PreheadersReached (hasty.loops dominance) ∧ AlongMotion (fun plan => plan.OvertakesOnly [.nth 1]) .infinite hasty ∧
      ∃ around : Surroundings, around.Within pinned ∧ ¬ hasty.TracesAs moved around := by
  have accepted : hasty.check = .ok () := by rfl
  obtain ⟨dominance, computed, _⟩ := hasty.dominance_total accepted
  obtain ⟨pinned, taken, _⟩ := address_taken_total hasty hasty.layout (well_formed_of_check hasty accepted).laid
  obtain ⟨left, moved, _, ran, _⟩ := hasty.hoist_invariants_relocates accepted .infinite dominance computed
  have found : hasty.dominance.toOption.map (fun dominance => (hasty.loops dominance).map (·.preheader? hasty)) =
      some [some (.nth 0)] := by decide +kernel
  rw [computed] at found
  have guarded := hasty.reached_of_listed (hasty.loops dominance) _ (Option.some.inj found) fun pre listed => by
    have only : pre = .nth 0 := by simpa using listed
    exact only ▸ hasty.reaches_self _
  have along : AlongMotion (fun plan => plan.OvertakesOnly [.nth 1]) .infinite hasty := by decide +kernel
  -- The read answers 0, and by then the branch compares 7.
  let around : Surroundings := ⟨fun _ => 0, .empty, fun _ => ⟨0, fun _ => 0⟩⟩
  have differs : ∀ after, hasty.hoistInvariants .infinite = .ok after →
      after.2.trace around (fun _ => 0) [.nth 0] ≠ hasty.trace around (fun _ => 0) [.nth 0] := by decide +kernel
  refine ⟨accepted, dominance, pinned, left, moved, computed, taken, ran, guarded, along, around,
    fun _ inMemory => Bool.noConfusion inMemory, fun same => ?_⟩
  exact differs _ ran (same (fun _ => 0) [.nth 0] (.nth 0) (.here _))

end ThreeAddress.Body
