import ThreeAddress.Proofs.Optimizer.Bisection

/-!
The optimizer on an accepted body without marks. It never fails, except that its requests for fuel are counted in a word: how
many it makes depends on the fuel that is left, and where overflow is checked it stops if they do not fit.
-/

set_option autoImplicit false

namespace ThreeAddress

namespace Fuel

theorem spend_fits (fuel : Fuel) (edits asked : Nat) (fits : (fuel.spend edits asked).overflowed = false) :
    (fuel.spend edits asked).consumed.toNat = fuel.consumed.toNat + asked := by
  have few : fuel.consumed.toNat + asked < UInt64.size :=
    Nat.not_le.mp (of_decide_eq_false (Bool.or_eq_false_iff.mp fits).2)
  rw [UInt64.size] at few
  rw [spend, UInt64.toNat_add, UInt64.toNat_ofNat']
  omega

end Fuel

namespace Body

theorem optimize_keeps_structure (body : Body) (accepted : body.check = .ok ()) (unmarked : body.Unmarked)
    (enabled : Pass → Bool) (rounds : Nat) (remaining : Option Nat) :
    ∃ (asked : Nat) (optimized : Body), optimized.check = .ok () ∧ optimized.Unmarked ∧ body.KeepsStructure optimized ∧
      ∀ consumed : UInt64, ∃ stats,
        body.optimize ⟨enabled, rounds, { remaining, consumed }⟩ = .ok (stats, optimized) ∧
        stats.fuelConsumed = consumed + .ofNat asked ∧
        body.optimizeGuarded ⟨enabled, rounds, { remaining, consumed }⟩ =
          if consumed.toNat + asked < UInt64.size then .ok (stats, optimized) else .error .counterOverflow := by
  obtain ⟨total, stage, _, rows⟩ := body.optimize_metered accepted unmarked enabled rounds
  obtain ⟨asked, runs⟩ := rows.runs remaining
  let made := (stage (Fuel.grants { remaining, consumed := 0 } total)).2
  have outcome (consumed : UInt64) : ∃ stats, body.optimize ⟨enabled, rounds, { remaining, consumed }⟩ = .ok (stats, made) ∧
      stats.fuelConsumed = consumed + .ofNat asked ∧
      body.optimizeGuarded ⟨enabled, rounds, { remaining, consumed }⟩ =
        if consumed.toNat + asked < UInt64.size then .ok (stats, made) else .error .counterOverflow := by
    obtain ⟨stats, ran, _, counted, _, guarded⟩ := runs { remaining, consumed } rfl
    refine ⟨stats, ran, counted, (guarded rfl).trans ?_⟩
    simp only [Fuel.spend, Bool.false_or, decide_eq_true_iff, ← Nat.not_lt, ite_not]
    rfl
  obtain ⟨first, ran, _⟩ := outcome 0
  obtain ⟨_, optimized, done, kept, clean, keeps⟩ :=
    Pipeline.run_all_keeps enabled (Pipeline.schedule rounds) {} { remaining, consumed := 0 } body accepted unmarked
  obtain rfl : made = optimized :=
    congrArg Prod.snd (Except.ok.inj (ran.symm.trans (optimize_of_run body _ _ optimized accepted kept done)))
  exact ⟨asked, made, kept, clean, keeps, outcome⟩

theorem ok_of_map {α β : Type} (result : Except Fault α) (f : α → β) (value : β) (fits : Prop) [Decidable fits] (made : α)
    (outcome : result = if fits then .ok made else .error .counterOverflow) (mapped : result.map f = .ok value) :
    result = .ok made ∧ f made = value := by
  rw [outcome] at mapped ⊢
  split_ifs at mapped with holds
  · rw [if_pos holds]
    exact ⟨rfl, Except.ok.inj mapped⟩
  · cases mapped

-- All edits, and then the first three of them: one literal for an operand, one for the sum, and one for the copy of the sum.
theorem sum_keeps_structure : sum.check = .ok () ∧ sum.Unmarked ∧
    (∃ stats optimized, sum.optimizeGuarded {} = .ok (stats, optimized) ∧ stats.total = 7 ∧ stats.fuelConsumed = 7 ∧
      optimized.layout (.nth 0) = [.nth 3] ∧ optimized.check = .ok () ∧ optimized.Unmarked ∧ sum.KeepsStructure optimized) ∧
    ∃ stats optimized, sum.optimizeGuarded { fuel := .limited 3 } = .ok (stats, optimized) ∧ stats.total = 3 ∧
      optimized.operation? (.nth 2) = some (.assign (.nth 2) (.lit 5)) ∧
      optimized.operation? (.nth 3) = some (.ret (.var (.nth 1))) ∧ optimized.check = .ok () ∧ optimized.Unmarked ∧
      sum.KeepsStructure optimized := by
  have accepted : sum.check = .ok () := by rfl
  have unmarked : sum.Unmarked := unmarked_of_cells sum (by decide)
  have all : (sum.optimizeGuarded {}).map (fun after => (after.1.total, after.1.fuelConsumed, after.2.layout (.nth 0))) =
      .ok (7, 7, [.nth 3]) := by decide +kernel
  have three : (sum.optimizeGuarded { fuel := .limited 3 }).map
      (fun after => (after.1.total, after.2.operation? (.nth 2), after.2.operation? (.nth 3))) =
      .ok (3, some (.assign (.nth 2) (.lit 5)), some (.ret (.var (.nth 1)))) := by decide +kernel
  obtain ⟨_, optimized, kept, clean, keeps, runs⟩ := optimize_keeps_structure sum accepted unmarked (fun _ => true) 1 none
  obtain ⟨_, optimizedFirst, keptFirst, cleanFirst, keepsFirst, runsFirst⟩ :=
    optimize_keeps_structure sum accepted unmarked (fun _ => true) 1 (Fuel.limited 3).remaining
  obtain ⟨stats, _, _, guarded⟩ := runs 0
  obtain ⟨statsFirst, _, _, guardedFirst⟩ := runsFirst 0
  obtain ⟨done, shown⟩ := ok_of_map _ _ _ _ _ guarded all
  obtain ⟨doneFirst, shownFirst⟩ := ok_of_map _ _ _ _ _ guardedFirst three
  simp only [Prod.mk.injEq] at shown shownFirst
  exact ⟨accepted, unmarked, ⟨stats, optimized, done, shown.1, shown.2.1, shown.2.2, kept, clean, keeps⟩,
    statsFirst, optimizedFirst, doneFirst, shownFirst.1, shownFirst.2.1, shownFirst.2.2, keptFirst, cleanFirst, keepsFirst⟩

end Body

namespace Pipeline

-- Value numbering that finds something to do but no fuel asks anew every time.
theorem starved_run_overflows (body : Body) (asked : Nat) (asks : 0 < asked)
    (starved : ∀ fuel : Fuel, fuel.remaining = some 0 → body.numberValues fuel = .ok (⟨fuel.spend 0 asked, 0⟩, body))
    (passes : List Pass) (stats : OptimizerStats) (fuel : Fuel) (empty : fuel.remaining = some 0)
    (many : UInt64.size ≤ fuel.consumed.toNat + passes.count .valueNumbering) :
    runAll Pass.runGuarded (· = .valueNumbering) passes stats fuel body = .error .counterOverflow := by
  induction passes generalizing stats fuel with
  | nil => exact (Nat.not_le.mpr fuel.consumed.toNat_lt_size many).elim
  | cons pass rest ih =>
    by_cases on : pass = .valueNumbering
    · rw [on, List.count_cons_self] at many
      rw [on, run_all_guarded _ .valueNumbering rest stats fuel body _ body rfl (starved fuel empty)]
      cases past : (fuel.spend 0 asked).overflowed with
      | true => rfl
      | false =>
        have next := fuel.spend_fits 0 asked past
        refine ih _ (fuel.spend 0 asked) (fuel.leaves_zero.trans empty) ?_
        rw [next]
        omega
    · rw [List.count_cons_of_ne on] at many
      rw [run_all_disabled _ _ pass rest stats fuel body (by simpa using on)]
      exact ih stats fuel empty many

theorem schedule_numbers_values (rounds : Nat) : (schedule rounds).count .valueNumbering = rounds + 1 := by
  have each : ∀ rounds, (List.replicate rounds repeated).flatten.count .valueNumbering = rounds := by
    intro rounds
    induction rounds with
    | zero => rfl
    | succ rounds ih =>
      rw [List.replicate_succ, List.flatten_cons, List.count_append, ih]
      exact Nat.add_comm 1 rounds
  rw [schedule, List.count_append, each]
  exact Nat.add_comm 1 rounds

end Pipeline

namespace Body

theorem requests_overflow : sum.check = .ok () ∧ sum.Unmarked ∧
    sum.optimizeGuarded { fuel := { remaining := some 5, consumed := 18446744073709551615 } } = .error .counterOverflow ∧
    sum.optimizeGuarded { enabled := (· = .valueNumbering), rounds := 18446744073709551615, fuel := .limited 0 } =
      .error .counterOverflow := by
  have accepted : sum.check = .ok () := by rfl
  refine ⟨accepted, unmarked_of_cells sum (by decide), by rfl, ?_⟩
  obtain ⟨asked, starved⟩ := metered_empty _ _ _ (sum.number_values_metered accepted)
  have asks : 0 < asked := by
    have once : (sum.numberValues (.limited 0)).map (·.1.fuel.consumed) = .ok 1 := by decide +kernel
    rw [starved (.limited 0) rfl] at once
    refine Nat.pos_of_ne_zero fun none => ?_
    rw [none] at once
    exact absurd once (by decide)
  have many : UInt64.size ≤ (Fuel.limited 0).consumed.toNat +
      (Pipeline.schedule 18446744073709551615).count .valueNumbering := by
    rw [Pipeline.schedule_numbers_values]
    decide
  rw [optimizeGuarded, optimize_with_schedule Pass.runGuarded sum _ accepted,
    Pipeline.starved_run_overflows sum asked asks starved _ {} (.limited 0) rfl many]
  rfl

end Body

end ThreeAddress
