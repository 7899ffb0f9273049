import ThreeAddress.Proofs.Execution.ConstantPropagation
import ThreeAddress.Proofs.Execution.CopyPropagation
import ThreeAddress.Proofs.Execution.InvariantMotion
import ThreeAddress.Proofs.Execution.ValueNumbering
import ThreeAddress.Proofs.Optimizer.Pipeline

/-!
The optimizer preserves what a body shows along every path, as long as the moves out of its loops are safe. Where
they are not, it changes what is shown.
-/

set_option autoImplicit false

namespace ThreeAddress

theorem Body.structure_within (body other : Body) (accepted : body.check = .ok ()) (otherAccepted : other.check = .ok ())
    (keeps : body.KeepsStructure other) (around : Surroundings) (fewer pinned : OrderedSet Var)
    (left : other.addressTaken = .ok fewer) (within : around.Within fewer) (taken : body.addressTaken = .ok pinned) :
    around.Within pinned := by
  have laid := (Body.well_formed_of_check body accepted).laid
  have otherLaid := (Body.well_formed_of_check other otherAccepted).laid
  obtain ⟨known, found, _, members⟩ := Body.address_taken_total body body.layout laid
  obtain ⟨otherKnown, otherFound, _, otherMembers⟩ := Body.address_taken_total other other.layout otherLaid
  rw [taken] at found
  rw [left] at otherFound
  cases found
  cases otherFound
  intro var inMemory
  obtain ⟨block, inst, member, pins⟩ := (otherMembers var).mp (within var inMemory)
  obtain ⟨before, placed⟩ := keeps.placed block inst member
  obtain ⟨operation, read, _⟩ := Body.operation_placed body body.layout laid before inst placed
  obtain ⟨now, readNow, keepsIt⟩ := keeps.operations inst operation read
  rw [readNow] at pins
  exact (members var).mpr ⟨before, inst, placed, by rw [read]; exact keepsIt.pins.symm.trans pins⟩

theorem Pass.run_traces (pass : Pass) (body : Body) (accepted : body.check = .ok ()) (unmarked : body.Unmarked) (fuel : Fuel)
    (around : Surroundings) (within : ∀ pinned, body.addressTaken = .ok pinned → around.Within pinned)
    (safe : pass = .invariantMotion → Body.AlongMotion HoistPlan.SafeMove fuel body) (left : Tally) (other : Body)
    (ran : pass.run body fuel = .ok (left, other)) : body.TracesAs other around := by
  cases pass with
  | valueNumbering =>
    obtain ⟨pinned, _, _, taken, done, edited⟩ := Body.number_values_edits body accepted fuel
    cases ran.symm.trans done
    exact Body.traces_of_runs _ _ _ (Body.numbered_runs body accepted around pinned (within pinned taken) other edited)
  | constantPropagation =>
    obtain ⟨pinned, facts, _, _, taken, solved, done, edited⟩ := Body.propagate_constants_edits body accepted fuel
    cases ran.symm.trans done
    exact Body.traces_of_runs _ _ _ (Body.constants_runs body accepted around pinned (within pinned taken) facts solved other edited)
  | deadCode =>
    obtain ⟨pinned, order, facts, _, _, gone, _, describes, solved, done, sweep, _⟩ :=
      Body.remove_dead_code_sweeps body accepted unmarked fuel
    cases ran.symm.trans done
    exact Body.swept_traces body accepted around pinned order describes facts solved other gone sweep
  | copyPropagation =>
    obtain ⟨copies, facts, order, _, _, _, copiesOf, solved, _, done, edited⟩ := Body.propagate_copies_edits body accepted fuel
    cases ran.symm.trans done
    have memory := within copies.pinned copiesOf.pinned
    exact Body.traces_of_runs _ _ _ (Body.copies_runs body accepted copies copiesOf around memory facts solved order other edited)
  | invariantMotion => exact Body.hoist_invariants_traces body accepted fuel around within (safe rfl) left other ran

namespace Pipeline

def MovesSafely (enabled : Pass → Bool) : List Pass → Fuel → Body → Prop
  | [], _, _ => True
  | pass :: rest, fuel, body =>
      if enabled pass then
        (pass = .invariantMotion → Body.AlongMotion HoistPlan.SafeMove fuel body) ∧
          ∀ after, pass.run body fuel = .ok after → MovesSafely enabled rest after.1.fuel after.2
      else MovesSafely enabled rest fuel body

instance decideMoves (enabled : Pass → Bool) (passes : List Pass) (fuel : Fuel) (body : Body) :
    Decidable (MovesSafely enabled passes fuel body) :=
  match passes with
  | [] => .isTrue trivial
  | pass :: rest =>
      have := fun fuel after => decideMoves enabled rest fuel after
      inferInstanceAs (Decidable (if enabled pass then
        (pass = .invariantMotion → Body.AlongMotion HoistPlan.SafeMove fuel body) ∧
          ∀ after, pass.run body fuel = .ok after → MovesSafely enabled rest after.1.fuel after.2
        else MovesSafely enabled rest fuel body))

def MotionUnseen (enabled : Pass → Bool) (around : Surroundings) : List Pass → Fuel → Body → Prop
  | [], _, _ => True
  | pass :: rest, fuel, body =>
      if enabled pass then ∀ after, pass.run body fuel = .ok after →
        (pass = .invariantMotion → body.TracesAs after.2 around) ∧ MotionUnseen enabled around rest after.1.fuel after.2
      else MotionUnseen enabled around rest fuel body

section Runs

variable (enabled : Pass → Bool) (around : Surroundings)

theorem motion_unseen_of_none (passes : List Pass) (fuel : Fuel) (body : Body) (none : .invariantMotion ∉ passes) :
    MotionUnseen enabled around passes fuel body := by
  induction passes generalizing fuel body with
  | nil => trivial
  | cons pass rest ih =>
    obtain ⟨apart, absent⟩ := not_or.mp (List.mem_cons.not.mp none)
    by_cases on : enabled pass = true
    · simp only [MotionUnseen, on, if_true]
      exact fun after _ => ⟨fun same => (apart same.symm).elim, ih after.1.fuel after.2 absent⟩
    · simp only [MotionUnseen, on]
      exact ih fuel body absent

theorem run_all_cons (pass : Pass) (rest : List Pass) (stats total : OptimizerStats) (fuel : Fuel) (body optimized : Body)
    (accepted : body.check = .ok ()) (unmarked : body.Unmarked) (on : enabled pass = true)
    (ran : runAll Pass.run enabled (pass :: rest) stats fuel body = .ok (total, optimized)) (pinned : OrderedSet Var)
    (taken : optimized.addressTaken = .ok pinned) (within : around.Within pinned) :
    ∃ tally middle, pass.run body fuel = .ok (tally, middle) ∧ middle.check = .ok () ∧ middle.Unmarked ∧ body.SameFrame middle ∧
      runAll Pass.run enabled rest (stats.add tally.count pass) tally.fuel middle = .ok (total, optimized) ∧
      ∀ more, body.addressTaken = .ok more → around.Within more := by
  obtain ⟨tally, middle, ranPass, middleAccepted, middleUnmarked, kept⟩ := pass.run_keeps body accepted unmarked fuel
  rw [run_all_enabled Pass.run enabled pass rest stats fuel body on, ranPass, Except.bind] at ran
  obtain ⟨_, _, again, optimizedAccepted, _, keeps⟩ := run_all_keeps enabled rest (stats.add tally.count pass) tally.fuel
    middle middleAccepted middleUnmarked
  rw [ran] at again
  cases again
  refine ⟨tally, middle, ranPass, middleAccepted, middleUnmarked, kept.frame, ran, fun more found => ?_⟩
  exact body.structure_within optimized accepted optimizedAccepted (Body.structure_trans body middle optimized kept keeps)
    around pinned more taken within found

variable (passes : List Pass) (stats total : OptimizerStats) (fuel : Fuel) (body optimized : Body)
  (accepted : body.check = .ok ()) (unmarked : body.Unmarked) (ran : runAll Pass.run enabled passes stats fuel body = .ok (total, optimized))
  (pinned : OrderedSet Var) (taken : optimized.addressTaken = .ok pinned) (within : around.Within pinned)

include accepted unmarked ran taken within

theorem motion_unseen_of_safe (safe : MovesSafely enabled passes fuel body) : MotionUnseen enabled around passes fuel body := by
  induction passes generalizing stats fuel body with
  | nil => trivial
  | cons pass rest ih =>
    by_cases on : enabled pass = true
    · obtain ⟨tally, middle, ranPass, middleAccepted, middleUnmarked, _, ranRest, memory⟩ := run_all_cons enabled around pass rest
        stats total fuel body optimized accepted unmarked on ran pinned taken within
      simp only [MovesSafely, on, if_true] at safe
      simp only [MotionUnseen, on, if_true, ranPass]
      intro after same
      cases same
      refine ⟨fun motion => ?_, ih _ tally.fuel middle middleAccepted middleUnmarked ranRest (safe.2 (tally, middle) ranPass)⟩
      exact pass.run_traces body accepted unmarked fuel around memory safe.1 tally middle ranPass
    · simp only [MovesSafely, on] at safe
      rw [run_all_disabled Pass.run enabled pass rest stats fuel body on] at ran
      simp only [MotionUnseen, on]
      exact ih stats fuel body accepted unmarked ran safe

theorem run_all_traces (unseen : MotionUnseen enabled around passes fuel body) : body.TracesAs optimized around := by
  induction passes generalizing stats fuel body with
  | nil =>
    cases ran
    exact fun _ _ _ _ => rfl
  | cons pass rest ih =>
    by_cases on : enabled pass = true
    · obtain ⟨tally, middle, ranPass, middleAccepted, middleUnmarked, frame, ranRest, memory⟩ := run_all_cons enabled around pass rest
        stats total fuel body optimized accepted unmarked on ran pinned taken within
      simp only [MotionUnseen, on, if_true] at unseen
      obtain ⟨motion, later⟩ := unseen (tally, middle) ranPass
      have first : body.TracesAs middle around := by
        by_cases moves : pass = .invariantMotion
        · exact motion moves
        · exact pass.run_traces body accepted unmarked fuel around memory (fun same => (moves same).elim) tally middle ranPass
      exact (Body.traces_past body middle optimized around frame first).mpr
        (ih _ tally.fuel middle middleAccepted middleUnmarked ranRest later)
    · simp only [MotionUnseen, on] at unseen
      rw [run_all_disabled Pass.run enabled pass rest stats fuel body on] at ran
      exact ih stats fuel body accepted unmarked ran unseen

-- Where code motion runs once at most, nothing else can make up for what it changes.
theorem motion_unseen_of_traces (once : passes.count .invariantMotion ≤ 1) (traces : body.TracesAs optimized around) :
    MotionUnseen enabled around passes fuel body := by
  induction passes generalizing stats fuel body with
  | nil => trivial
  | cons pass rest ih =>
    by_cases on : enabled pass = true
    · obtain ⟨tally, middle, ranPass, middleAccepted, middleUnmarked, frame, ranRest, memory⟩ := run_all_cons enabled around pass rest
        stats total fuel body optimized accepted unmarked on ran pinned taken within
      simp only [MotionUnseen, on, if_true, ranPass]
      intro after same
      cases same
      by_cases moves : pass = .invariantMotion
      · have none : .invariantMotion ∉ rest := by
          rw [moves, List.count_cons_self] at once
          exact List.count_eq_zero.mp (by omega)
        have later := motion_unseen_of_none enabled around rest tally.fuel middle none
        have rested := run_all_traces enabled around rest _ total tally.fuel middle optimized middleAccepted middleUnmarked ranRest
          pinned taken within later
        exact ⟨fun _ => Body.traces_before body middle optimized around frame traces rested, later⟩
      · have first := pass.run_traces body accepted unmarked fuel around memory (fun same => (moves same).elim) tally middle ranPass
        rw [List.count_cons_of_ne moves] at once
        refine ⟨fun same => (moves same).elim, ih _ tally.fuel middle middleAccepted middleUnmarked ranRest once ?_⟩
        exact (Body.traces_past body middle optimized around frame first).mp traces
    · rw [run_all_disabled Pass.run enabled pass rest stats fuel body on] at ran
      simp only [MotionUnseen, on]
      exact ih stats fuel body accepted unmarked ran (List.count_le_count_cons.trans once) traces

end Runs

theorem schedule_motion_once (rounds : Nat) : (schedule rounds).count .invariantMotion = 1 := by
  have none : (List.replicate rounds repeated).flatten.count .invariantMotion = 0 := by
    rw [List.count_eq_zero]
    intro member
    obtain ⟨passes, listed, inPasses⟩ := List.mem_flatten.mp member
    rw [List.eq_of_mem_replicate listed] at inPasses
    revert inPasses
    decide
  rw [schedule, List.count_append, none]
  rfl

end Pipeline

namespace Body

def MovesSafely (body : Body) (options : OptimizerOptions) : Prop :=
  Pipeline.MovesSafely options.enabled (Pipeline.schedule options.rounds) options.fuel body

instance (body : Body) (options : OptimizerOptions) : Decidable (body.MovesSafely options) :=
  inferInstanceAs (Decidable (Pipeline.MovesSafely options.enabled (Pipeline.schedule options.rounds) options.fuel body))

def MotionUnseen (body : Body) (options : OptimizerOptions) (around : Surroundings) : Prop :=
  Pipeline.MotionUnseen options.enabled around (Pipeline.schedule options.rounds) options.fuel body

-- Optimizing preserves traces exactly where its code motion does, and so wherever that makes safe moves only.
theorem optimize_preserves_traces (body : Body) (options : OptimizerOptions) (accepted : body.check = .ok ())
    (unmarked : body.Unmarked) :
    ∃ stats optimized pinned, body.optimize options = .ok (stats, optimized) ∧ optimized.addressTaken = .ok pinned ∧
      ∀ around : Surroundings, around.Within pinned →
        (body.TracesAs optimized around ↔ body.MotionUnseen options around) ∧
        (body.MovesSafely options → body.TracesAs optimized around) := by
  obtain ⟨stats, optimized, ran, optimizedAccepted, _⟩ := Pipeline.run_all_keeps options.enabled
    (Pipeline.schedule options.rounds) {} options.fuel body accepted unmarked
  have laid := (well_formed_of_check optimized optimizedAccepted).laid
  obtain ⟨pinned, taken, _⟩ := address_taken_total optimized optimized.layout laid
  refine ⟨stats, optimized, pinned, optimize_of_run body options stats optimized accepted optimizedAccepted ran, taken, ?_⟩
  intro around within
  have once := (Pipeline.schedule_motion_once options.rounds).le
  have traces := Pipeline.run_all_traces options.enabled around _ {} stats options.fuel body optimized accepted unmarked ran
    pinned taken within
  have unseen := Pipeline.motion_unseen_of_traces options.enabled around _ {} stats options.fuel body optimized accepted unmarked
    ran pinned taken within once
  refine ⟨⟨unseen, traces⟩, fun safe => traces ?_⟩
  exact Pipeline.motion_unseen_of_safe options.enabled around _ {} stats options.fuel body optimized accepted unmarked ran
    pinned taken within safe

-- A loop that negates the same value each time round, behind a preheader that jumps to it.
def steady : Body where
  name := "steady"
  entry := .nth 0
  blocks := .ofList [
    { chain := ⟨.nth 0, .nth 1, 2⟩, succs := [.nth 1] },
    { chain := ⟨.nth 2, .nth 6, 5⟩, succs := [.nth 1, .nth 2], preds := [.nth 0, .nth 1] },
    { chain := ⟨.nth 7, .nth 7, 1⟩, preds := [.nth 1] }]
  cells := .ofList [
    { operation := .param (.nth 0), block := .nth 0, next := .nth 1 },
    { operation := .goto (.nth 2), block := .nth 0, prev := .nth 0 },
    { operation := .label, block := .nth 1, next := .nth 3 },
    { operation := .unary .neg (.nth 1) (.var (.nth 0)), block := .nth 1, prev := .nth 2, next := .nth 4 },
    { operation := .write (.var (.nth 1)), block := .nth 1, prev := .nth 3, next := .nth 5 },
    { operation := .read (.nth 2), block := .nth 1, prev := .nth 4, next := .nth 6 },
    { operation := .branch .eq (.var (.nth 2)) (.lit 0) (.nth 2), block := .nth 1, prev := .nth 5 },
    { operation := .ret (.var (.nth 2)), block := .nth 2 }]
  vars := .ofList [some "a", some "x", some "y"]

theorem steady_preserves_traces : steady.check = .ok () ∧ steady.Unmarked ∧ steady.MovesSafely {} ∧
    ∃ stats optimized pinned, steady.optimize {} = .ok (stats, optimized) ∧ optimized.addressTaken = .ok pinned ∧
      ∀ around : Surroundings, around.Within pinned → steady.MotionUnseen {} around ∧ steady.TracesAs optimized around := by
  have accepted : steady.check = .ok () := by rfl
  have unmarked : steady.Unmarked := unmarked_of_cells steady (by decide)
  have safe : steady.MovesSafely {} := by decide +kernel
  obtain ⟨stats, optimized, pinned, done, taken, shows⟩ := optimize_preserves_traces steady {} accepted unmarked
  refine ⟨accepted, unmarked, safe, stats, optimized, pinned, done, taken, fun around within => ?_⟩
  obtain ⟨equivalent, preserved⟩ := shows around within
  exact ⟨equivalent.mp (preserved safe), preserved safe⟩

def counting : Surroundings where
  address := fun _ => 0
  inMemory := .empty
  answer := fun place => ⟨.ofNat place, fun _ => 0⟩

def IsDistorted (body : Body) (options : OptimizerOptions) : Prop :=
  ∃ stats optimized pinned, body.optimize options = .ok (stats, optimized) ∧ optimized.addressTaken = .ok pinned ∧
    ∃ around : Surroundings, around.Within pinned ∧ ¬ body.TracesAs optimized around

theorem distorted_of_entry (body : Body) (options : OptimizerOptions) (accepted : body.check = .ok ()) (unmarked : body.Unmarked)
    (env : Var → Int64) (differs : ∀ after, body.optimize options = .ok after →
      after.2.trace counting env [body.entry] ≠ body.trace counting env [body.entry]) : body.IsDistorted options := by
  obtain ⟨stats, optimized, ran, optimizedAccepted, _⟩ := Pipeline.run_all_keeps options.enabled
    (Pipeline.schedule options.rounds) {} options.fuel body accepted unmarked
  have done := optimize_of_run body options stats optimized accepted optimizedAccepted ran
  obtain ⟨pinned, taken, _⟩ := address_taken_total optimized optimized.layout (well_formed_of_check optimized optimizedAccepted).laid
  have within : counting.Within pinned := fun _ inMemory => Bool.noConfusion inMemory
  refine ⟨stats, optimized, pinned, done, taken, counting, within, fun same => ?_⟩
  exact differs (stats, optimized) done (same env [body.entry] body.entry (.here body.entry))

-- The branch at the end of the preheader reads what the loop overwrites, and the new value moves in front of it.
def early : Body where
  name := "early"
  entry := .nth 0
  blocks := .ofList [
    { chain := ⟨.nth 0, .nth 2, 3⟩, succs := [.nth 1, .nth 1] },
    { chain := ⟨.nth 3, .nth 7, 5⟩, succs := [.nth 1, .nth 2], preds := [.nth 0, .nth 0, .nth 1] },
    { chain := ⟨.nth 8, .nth 8, 1⟩, preds := [.nth 1] }]
  cells := .ofList [
    { operation := .param (.nth 0), block := .nth 0, next := .nth 1 },
    { operation := .read (.nth 1), block := .nth 0, prev := .nth 0, next := .nth 2 },
    { operation := .branch .lt (.var (.nth 1)) (.lit 3) (.nth 3), block := .nth 0, prev := .nth 1 },
    { operation := .label, block := .nth 1, next := .nth 4 },
    { operation := .unary .neg (.nth 1) (.var (.nth 0)), block := .nth 1, prev := .nth 3, next := .nth 5 },
    { operation := .write (.var (.nth 1)), block := .nth 1, prev := .nth 4, next := .nth 6 },
    { operation := .read (.nth 2), block := .nth 1, prev := .nth 5, next := .nth 7 },
    { operation := .branch .eq (.var (.nth 2)) (.lit 0) (.nth 3), block := .nth 1, prev := .nth 6 },
    { operation := .ret (.var (.nth 2)), block := .nth 2 }]
  vars := .ofList [some "a", some "x", some "y"]

-- The loop starts the body, and its computation moves to a block that nothing leads to.
def orphan : Body where
  name := "orphan"
  entry := .nth 0
  blocks := .ofList [
    { chain := ⟨.nth 0, .nth 4, 5⟩, succs := [.nth 0, .nth 1], preds := [.nth 0, .nth 2] },
    { chain := ⟨.nth 5, .nth 5, 1⟩, preds := [.nth 0] },
    { succs := [.nth 0] }]
  cells := .ofList [
    { operation := .label, block := .nth 0, next := .nth 1 },
    { operation := .unary .neg (.nth 1) (.var (.nth 0)), block := .nth 0, prev := .nth 0, next := .nth 2 },
    { operation := .write (.var (.nth 1)), block := .nth 0, prev := .nth 1, next := .nth 3 },
    { operation := .read (.nth 2), block := .nth 0, prev := .nth 2, next := .nth 4 },
    { operation := .branch .eq (.var (.nth 2)) (.lit 0) (.nth 0), block := .nth 0, prev := .nth 3 },
    { operation := .ret (.var (.nth 2)), block := .nth 1 }]
  vars := .ofList [some "a", some "x", some "y"]

theorem unsafe_moves_distort : (early.check = .ok () ∧ early.Unmarked ∧ early.IsDistorted {}) ∧
    orphan.check = .ok () ∧ orphan.Unmarked ∧ orphan.IsDistorted {} := by
  have accepted : early.check = .ok () ∧ orphan.check = .ok () := ⟨by rfl, by rfl⟩
  have unmarked : early.Unmarked ∧ orphan.Unmarked :=
    ⟨unmarked_of_cells early (by decide), unmarked_of_cells orphan (by decide)⟩
  have branches : early.IsDistorted {} := by
    apply distorted_of_entry early {} accepted.1 unmarked.1 fun _ => 0
    decide +kernel
  have writes : orphan.IsDistorted {} := by
    apply distorted_of_entry orphan {} accepted.2 unmarked.2 fun var => if var = .nth 0 then 1 else 0
    decide +kernel
  exact ⟨⟨accepted.1, unmarked.1, branches⟩, accepted.2, unmarked.2, writes⟩

end Body

end ThreeAddress
