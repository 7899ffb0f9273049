import ThreeAddress.Proofs.Optimizer.DeadCode
import ThreeAddress.Proofs.Optimizer.InvariantMotion
import ThreeAddress.Proofs.Optimizer.Rewrites

/-!
The passes of a run one after the other. None fails on an accepted body without marks, and all keep its structure.
-/

set_option autoImplicit false

namespace ThreeAddress

theorem Pass.run_keeps (pass : Pass) (body : Body) (accepted : body.check = .ok ()) (unmarked : body.Unmarked) (fuel : Fuel) :
    body.PassKeeps (pass.run body fuel) := by
  cases pass with
  | valueNumbering => exact Body.number_values_keeps body accepted fuel unmarked
  | constantPropagation => exact Body.propagate_constants_keeps body accepted fuel unmarked
  | deadCode => exact Body.remove_dead_code_keeps body accepted unmarked fuel
  | copyPropagation => exact Body.propagate_copies_keeps body accepted fuel unmarked
  | invariantMotion => exact Body.hoist_invariants_keeps body accepted unmarked fuel

namespace Pipeline

section Run

def schedule (rounds : Nat) : List Pass :=
  repeated ++ [.copyPropagation, .invariantMotion] ++ (List.replicate rounds repeated).flatten

variable (run : Pass → Body → Fuel → Except Fault (Tally × Body)) (enabled : Pass → Bool)

def runAll (passes : List Pass) (stats : OptimizerStats) (fuel : Fuel) (body : Body) : Except Fault (OptimizerStats × Body) :=
  (runEach run enabled passes stats fuel body).map fun (stats, fuel, body) => ({ stats with fuelConsumed := fuel.consumed }, body)

variable (pass : Pass) (rest : List Pass) (stats : OptimizerStats) (fuel : Fuel) (body : Body)

theorem run_all_enabled (on : enabled pass = true) :
    runAll run enabled (pass :: rest) stats fuel body = (run pass body fuel).bind fun after =>
      runAll run enabled rest (stats.add after.1.count pass) after.1.fuel after.2 := by
  simp only [runAll, runEach, on, if_true, bind]
  cases run pass body fuel <;> rfl

theorem run_all_disabled (off : ¬ enabled pass = true) :
    runAll run enabled (pass :: rest) stats fuel body = runAll run enabled rest stats fuel body := by
  simp only [runAll, runEach, off]
  rfl

theorem run_each_append (passes more : List Pass) : runEach run enabled (passes ++ more) stats fuel body =
    (runEach run enabled passes stats fuel body).bind fun (stats, fuel, body) => runEach run enabled more stats fuel body := by
  induction passes generalizing stats fuel body with
  | nil => rfl
  | cons pass passes ih =>
    by_cases on : enabled pass = true
    · simp only [List.cons_append, runEach, on, if_true, bind, ih]
      cases run pass body fuel <;> rfl
    · simp only [List.cons_append, runEach, on, ih]
      rfl

theorem run_rounds_each (rounds : Nat) : runRounds run enabled rounds stats fuel body =
    runEach run enabled (List.replicate rounds repeated).flatten stats fuel body := by
  induction rounds generalizing stats fuel body with
  | zero => rfl
  | succ rounds ih =>
    rw [List.replicate_succ, List.flatten_cons, run_each_append, runRounds]
    simp only [ih]
    rfl

end Run

variable (enabled : Pass → Bool) (passes : List Pass) (stats : OptimizerStats) (fuel : Fuel) (body : Body)
  (accepted : body.check = .ok ()) (unmarked : body.Unmarked)

theorem run_all_keeps (accepted : body.check = .ok ()) (unmarked : body.Unmarked) :
    ∃ total optimized, runAll Pass.run enabled passes stats fuel body = .ok (total, optimized) ∧ optimized.check = .ok () ∧
      optimized.Unmarked ∧ body.KeepsStructure optimized := by
  induction passes generalizing stats fuel body with
  | nil => exact ⟨_, body, rfl, accepted, unmarked, Body.structure_refl body⟩
  | cons pass rest ih =>
    by_cases on : enabled pass = true
    · obtain ⟨tally, middle, ran, middleAccepted, middleUnmarked, kept⟩ := pass.run_keeps body accepted unmarked fuel
      obtain ⟨total, optimized, done, optimizedAccepted, optimizedUnmarked, keeps⟩ :=
        ih (stats.add tally.count pass) tally.fuel middle middleAccepted middleUnmarked
      refine ⟨total, optimized, ?_, optimizedAccepted, optimizedUnmarked, Body.structure_trans body middle optimized kept keeps⟩
      rw [run_all_enabled Pass.run enabled pass rest stats fuel body on, ran]
      exact done
    · rw [run_all_disabled Pass.run enabled pass rest stats fuel body on]
      exact ih stats fuel body accepted unmarked

end Pipeline

namespace Body

theorem optimize_with_schedule (run : Pass → Body → Fuel → Except Fault (Tally × Body)) (body : Body)
    (options : OptimizerOptions) (accepted : body.check = .ok ()) :
    body.optimizeWith run options =
      (Pipeline.runAll run options.enabled (Pipeline.schedule options.rounds) {} options.fuel body).bind
        fun after => after.2.check.bind fun _ => .ok after := by
  rw [optimizeWith, accepted, Pipeline.schedule, Pipeline.runAll, Pipeline.run_each_append]
  simp only [bind, Except.bind, Pipeline.run_rounds_each]
  cases Pipeline.runEach run options.enabled _ {} options.fuel body with
  | error fault => rfl
  | ok middle =>
    dsimp only
    cases Pipeline.runEach run options.enabled _ middle.1 middle.2.1 middle.2.2 with
    | error fault => rfl
    | ok last =>
      simp only [Except.map]
      cases last.2.2.check <;> rfl

theorem optimize_of_run (body : Body) (options : OptimizerOptions) (stats : OptimizerStats) (optimized : Body)
    (accepted : body.check = .ok ()) (kept : optimized.check = .ok ())
    (ran : Pipeline.runAll Pass.run options.enabled (Pipeline.schedule options.rounds) {} options.fuel body = .ok (stats, optimized)) :
    body.optimize options = .ok (stats, optimized) := by
  rw [optimize, optimize_with_schedule Pass.run body options accepted, ran]
  simp only [Except.bind, kept]

end Body

end ThreeAddress
