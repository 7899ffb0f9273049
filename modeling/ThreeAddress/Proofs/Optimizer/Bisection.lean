import ThreeAddress.Proofs.Optimizer.MeteredMotion
import ThreeAddress.Proofs.Optimizer.MeteredRemoval
import ThreeAddress.Proofs.Optimizer.Pipeline

/-!
Limiting the fuel singles one edit out. The runs of the optimizer on one body differ only in how far they go along one
row of bodies, each one edit apart from the next: a limit is the number of edits made, as long as there are that many.
-/

set_option autoImplicit false

namespace ThreeAddress

theorem Pass.run_metered (pass : Pass) (body : Body) (accepted : body.check = .ok ()) (unmarked : body.Unmarked) :
    body.MeteredPass (pass.run body) := by
  cases pass with
  | valueNumbering => exact Body.number_values_metered body accepted
  | constantPropagation => exact Body.propagate_constants_metered body accepted
  | deadCode => exact Body.remove_dead_code_metered body accepted unmarked
  | copyPropagation => exact Body.propagate_copies_metered body accepted
  | invariantMotion => exact Body.hoist_invariants_metered body accepted unmarked

theorem Pass.run_overflowed (pass : Pass) (body : Body) (accepted : body.check = .ok ()) (unmarked : body.Unmarked) (fuel : Fuel)
    (tally : Tally) (other : Body) (ran : pass.run body fuel = .ok (tally, other)) (overflowed : fuel.overflowed = true) :
    tally.fuel.overflowed = true := by
  obtain ⟨total, stage, _, rows⟩ := pass.run_metered body accepted unmarked
  obtain ⟨asked, runs⟩ := rows.runs fuel.remaining
  have left : tally.fuel = fuel.spend total asked := congrArg (·.1.fuel) (Except.ok.inj (ran.symm.trans (runs fuel rfl)))
  rw [left, Fuel.spend, overflowed]
  rfl

theorem OptimizerStats.total_add (stats : OptimizerStats) (count : Nat) (pass : Pass) :
    (stats.add count pass).total = stats.total + count := by
  cases pass <;> simp only [total, add] <;> omega

namespace Pipeline

-- The edits so far and the body at the end of a run, however they spread over the passes. Where overflow is checked, the
-- run stops if its requests do not fit the word.
def Totals (plain guarded : Except Fault (OptimizerStats × Body)) (fuel left : Fuel) (made : Nat × Body) : Prop :=
  ∃ stats, plain = .ok (stats, made.2) ∧ stats.total = made.1 ∧ stats.fuelConsumed = left.consumed ∧
    (fuel.overflowed = true → left.overflowed = true) ∧
    (fuel.overflowed = false → guarded = if left.overflowed then .error .counterOverflow else .ok (stats, made.2))

variable (enabled : Pass → Bool)

theorem run_all_guarded (pass : Pass) (rest : List Pass) (stats : OptimizerStats) (fuel : Fuel) (body : Body) (tally : Tally)
    (other : Body) (on : enabled pass = true) (ran : pass.run body fuel = .ok (tally, other)) :
    runAll Pass.runGuarded enabled (pass :: rest) stats fuel body =
      if tally.fuel.overflowed then .error .counterOverflow
      else runAll Pass.runGuarded enabled rest (stats.add tally.count pass) tally.fuel other := by
  rw [run_all_enabled Pass.runGuarded enabled pass rest stats fuel body on]
  simp only [Pass.runGuarded, ran, bind, Except.bind, Fuel.guard]
  cases tally.fuel.overflowed <;> rfl

theorem run_all_metered (passes : List Pass) (stats : OptimizerStats) (body : Body)
    (accepted : body.check = .ok ()) (unmarked : body.Unmarked) :
    MeteredFrom (Counted Body.OneEditApart) (fun fuel => Totals (runAll Pass.run enabled passes stats fuel body)
      (runAll Pass.runGuarded enabled passes stats fuel body) fuel) (stats.total, body) := by
  induction passes generalizing stats body with
  | nil => exact metered_idle _ _ _ fun fuel => ⟨_, rfl, rfl, rfl, id, fun fits => by rw [fits]; rfl⟩
  | cons pass rest ih =>
    by_cases on : enabled pass = true
    · have start : (stats.total, body) = (stats.total + 0, body) := rfl
      rw [start]
      refine metered_and_then _ _ _ _ (0, body) (fun made => (stats.total + made.1, made.2))
        (fun between fuel => Totals (runAll Pass.run enabled rest (stats.add between.1 pass) fuel between.2)
          (runAll Pass.runGuarded enabled rest (stats.add between.1 pass) fuel between.2) fuel)
        (pass.run_metered body accepted unmarked) (fun a b ⟨counted, apart⟩ => ⟨?_, apart⟩) (fun fuel middle between done => ?_)
        fun fuel middle left between made done later => ?_
      · rw [counted]
        rfl
      · obtain ⟨tally, other, ran, otherAccepted, otherUnmarked, _⟩ := pass.run_keeps body accepted unmarked fuel
        obtain rfl : between.2 = other := congrArg Prod.snd (Except.ok.inj (done.symm.trans ran))
        rw [← stats.total_add between.1 pass]
        exact ih (stats.add between.1 pass) between.2 otherAccepted otherUnmarked
      · obtain ⟨total, ran, counted, consumed, stays, stops⟩ := later
        refine ⟨total, ?_, counted, consumed, fun overflowed => ?_, fun fits => ?_⟩
        · rw [run_all_enabled Pass.run enabled pass rest stats fuel body on, done]
          exact ran
        · exact stays (pass.run_overflowed body accepted unmarked fuel _ _ done overflowed)
        · rw [run_all_guarded enabled pass rest stats fuel body _ _ on done]
          cases past : middle.overflowed with
          | true =>
            rw [stays past]
            rfl
          | false => exact stops past
    · refine metered_view _ _ _ _ (stats.total, body) id (ih stats body accepted unmarked) (fun _ _ => id)
        fun fuel left made done => ?_
      rw [run_all_disabled Pass.run enabled pass rest stats fuel body on,
        run_all_disabled Pass.runGuarded enabled pass rest stats fuel body on]
      exact done

end Pipeline

theorem counted_stage {α : Type} (differ : α → α → Prop) (total : Nat) (stage : Nat → Nat × α)
    (steps : ∀ n < total, Counted differ (stage n) (stage (n + 1))) (n : Nat) (early : n ≤ total) :
    (stage n).1 = (stage 0).1 + n := by
  induction n with
  | zero => rfl
  | succ n ih =>
    rw [(steps n early).1, ih (Nat.le_of_succ_le early)]
    rfl

theorem Fuel.limited_grants (limit edits : Nat) (word : limit < noLimit ∨ edits ≤ noLimit) :
    (limited limit).grants edits = min limit edits := by
  rw [limited, grants]
  split_ifs with bound
  · rfl
  · have enough : edits ≤ limit := by omega
    exact (Nat.min_eq_right enough).symm

namespace Body

section Bisection

variable (body : Body) (accepted : body.check = .ok ()) (unmarked : body.Unmarked)

include accepted unmarked

theorem optimize_metered (enabled : Pass → Bool) (rounds : Nat) :
    MeteredFrom (Counted OneEditApart) (fun fuel => Pipeline.Totals (body.optimize ⟨enabled, rounds, fuel⟩)
      (body.optimizeGuarded ⟨enabled, rounds, fuel⟩) fuel) (0, body) := by
  refine metered_view _ _ _ _ (0, body) id
    (Pipeline.run_all_metered enabled (Pipeline.schedule rounds) {} body accepted unmarked) (fun _ _ => id)
    fun fuel left made ⟨stats, ran, total, consumed, stays, stops⟩ => ⟨stats, ?_, total, consumed, stays, fun fits => ?_⟩
  all_goals
    obtain ⟨_, optimized, again, kept, _⟩ :=
      Pipeline.run_all_keeps enabled (Pipeline.schedule rounds) {} fuel body accepted unmarked
    obtain rfl : made.2 = optimized := congrArg Prod.snd (Except.ok.inj (ran.symm.trans again))
  · exact optimize_of_run body ⟨enabled, rounds, fuel⟩ stats made.2 accepted kept ran
  · rw [optimizeGuarded, optimize_with_schedule Pass.runGuarded body _ accepted, stops fits]
    cases left.overflowed
    · exact congrArg (Except.bind · fun _ => .ok (stats, made.2)) kept
    · rfl

-- Limits are words, of which the largest is no limit; no count of edits exceeds it either.
theorem limits_bisect (enabled : Pass → Bool) (rounds : Nat) :
    ∃ (stats : OptimizerStats) (stage : Nat → Body),
      body.optimize ⟨enabled, rounds, .infinite⟩ = .ok (stats, stage stats.total) ∧ stage 0 = body ∧
      (∀ limit, limit < Fuel.noLimit ∨ stats.total ≤ Fuel.noLimit →
        ∃ limited, body.optimize ⟨enabled, rounds, .limited limit⟩ = .ok (limited, stage (min limit stats.total)) ∧
          limited.total = min limit stats.total) ∧
      ∀ n < stats.total, ∃ inst, (stage n).ApartAt (stage (n + 1)) inst := by
  obtain ⟨total, stage, begins, rows⟩ := body.optimize_metered accepted unmarked enabled rounds
  have counts (n : Nat) (early : n ≤ total) : (stage n).1 = n := by
    rw [counted_stage OneEditApart total stage rows.steps n early, begins]
    exact Nat.zero_add n
  obtain ⟨_, unlimited⟩ := rows.runs none
  obtain ⟨stats, ran, all, _⟩ := unlimited .infinite rfl
  obtain rfl : stats.total = total := all.trans (counts total (Nat.le_refl _))
  refine ⟨stats, fun n => (stage n).2, ran, congrArg Prod.snd begins, fun limit word => ?_, fun n early => (rows.steps n early).2⟩
  obtain ⟨_, runs⟩ := rows.runs (Fuel.limited limit).remaining
  obtain ⟨limited, limitedRan, made, _⟩ := runs (.limited limit) rfl
  rw [Fuel.limited_grants limit stats.total word] at limitedRan made
  exact ⟨limited, limitedRan, made.trans (counts _ (Nat.min_le_right _ _))⟩

end Bisection

-- Two constants, a sum of them, and an assignment that nothing reads.
def sum : Body where
  name := "sum"
  entry := .nth 0
  blocks := .ofList [{ chain := ⟨.nth 0, .nth 3, 4⟩ }]
  cells := .ofList [
    { operation := .assign (.nth 0) (.lit 2), block := .nth 0, next := .nth 1 },
    { operation := .binary .add (.nth 1) (.var (.nth 0)) (.lit 3), block := .nth 0, prev := .nth 0, next := .nth 2 },
    { operation := .assign (.nth 2) (.var (.nth 1)), block := .nth 0, prev := .nth 1, next := .nth 3 },
    { operation := .ret (.var (.nth 1)), block := .nth 0, prev := .nth 2 }]
  vars := .ofList [some "x", some "y", some "z"]

theorem sum_limits_bisect : sum.check = .ok () ∧ sum.Unmarked ∧
    ∃ (stats : OptimizerStats) (stage : Nat → Body), sum.optimize {} = .ok (stats, stage stats.total) ∧ stage 0 = sum ∧
      stats.total = 7 ∧ (stage 7).layout (.nth 0) = [.nth 3] ∧
      (∃ limited, sum.optimize { fuel := .limited 3 } = .ok (limited, stage 3) ∧ limited.total = 3 ∧
        (stage 3).layout (.nth 0) = [.nth 0, .nth 1, .nth 2, .nth 3]) ∧
      (∀ limit, ∃ limited, sum.optimize { fuel := .limited limit } = .ok (limited, stage (min limit 7)) ∧
        limited.total = min limit 7) ∧
      ∀ n < 7, ∃ inst, (stage n).ApartAt (stage (n + 1)) inst := by
  have accepted : sum.check = .ok () := by rfl
  have unmarked : sum.Unmarked := unmarked_of_cells sum (by decide)
  obtain ⟨stats, stage, ran, begins, limits, steps⟩ := limits_bisect sum accepted unmarked (fun _ => true) 1
  have counted : (sum.optimize {}).map (fun after => (after.1.total, after.2.layout (.nth 0))) = .ok (7, [.nth 3]) := by
    decide +kernel
  have three : (sum.optimize { fuel := .limited 3 }).map (fun after => after.2.layout (.nth 0)) =
      .ok [.nth 0, .nth 1, .nth 2, .nth 3] := by decide +kernel
  rw [show sum.optimize {} = _ from ran] at counted
  obtain ⟨total, last⟩ := Prod.mk.injEq _ _ _ _ ▸ Except.ok.inj counted
  rw [total] at ran last limits steps
  obtain ⟨limited, cut, few⟩ := limits 3 (.inl (by decide))
  rw [show sum.optimize { fuel := .limited 3 } = _ from cut] at three
  exact ⟨accepted, unmarked, stats, stage, total.symm ▸ ran, begins, total, last, ⟨limited, cut, few, Except.ok.inj three⟩,
    fun limit => limits limit (.inr (by decide)), steps⟩

end Body

end ThreeAddress
