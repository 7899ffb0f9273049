import ThreeAddress.Dataflow.Solver

/-!
The worklist of the solver as the list of the blocks that wait. Queue and set keep in step, so asking the set is asking
the queue, and a solve is an iteration over the queue alone. What the worklist was used for before leaves no trace.
-/

set_option autoImplicit false

attribute [local instance] ThreeAddress.plainZero

namespace ThreeAddress

namespace Worklist

structure InStep (work : Worklist) : Prop where
  once : work.queue.Nodup
  same : work.queued.Perm work.queue

theorem clear_in_step (work : Worklist) : work.clear.InStep := ⟨List.nodup_nil, .nil⟩

theorem push_queue (work : Worklist) (inStep : work.InStep) (block : Block) :
    (work.push block).queue = if work.queue.contains block then work.queue else work.queue ++ [block] := by
  have waits : work.queued.contains block = work.queue.contains block := by
    rw [Bool.eq_iff_iff, List.contains_iff_mem, List.contains_iff_mem]
    exact inStep.same.mem_iff
  rw [push, waits]
  split <;> rfl

theorem push_in_step (work : Worklist) (inStep : work.InStep) (block : Block) : (work.push block).InStep := by
  rw [push]
  split
  · exact inStep
  · rename_i new
    rw [List.contains_iff_mem, inStep.same.mem_iff] at new
    have tail := List.perm_append_singleton block work.queue
    exact ⟨tail.nodup_iff.mpr (List.nodup_cons.mpr ⟨new, inStep.once⟩), (inStep.same.cons block).trans tail.symm⟩

theorem pop_in_step (work rest : Worklist) (inStep : work.InStep) (block : Block) (popped : work.pop? = some (block, rest)) :
    rest.InStep ∧ work.queue = block :: rest.queue := by
  rw [pop?] at popped
  cases queue : work.queue with
  | nil =>
    rw [queue] at popped
    cases popped
  | cons head tail =>
    rw [queue] at popped
    cases popped
    have kept := inStep.same.erase block
    rw [queue, List.erase_cons_head] at kept
    exact ⟨⟨(List.nodup_cons.mp (queue ▸ inStep.once)).2, kept⟩, rfl⟩

theorem pop_none_iff (work : Worklist) : work.pop? = none ↔ work.queue = [] := by
  rw [pop?]
  cases work.queue <;> simp

theorem nothing_waits (work : Worklist) (inStep : work.InStep) (empty : work.queue = []) : work = {} := by
  obtain ⟨queue, queued⟩ := work
  cases empty
  cases inStep.same.eq_nil
  rfl

end Worklist

namespace Solver

variable {φ : Type}

abbrev State (φ : Type) := Working (List Block) φ

def enqueue (queue : List Block) (block : Block) : List Block :=
  if queue.contains block then queue else queue ++ [block]

def visit (analysis : Analysis φ) (body : Body) (block : Block) (state : State φ) : State φ :=
  visitWith enqueue analysis body block state

def iterate (analysis : Analysis φ) (body : Body) : Nat → State φ → Option (State φ)
  | 0, state => if state.queue.isEmpty then some state else none
  | budget + 1, state =>
      match state.queue with
      | [] => some state
      | block :: queue =>
          iterate analysis body budget (visit analysis body block { state with queue := queue })

theorem iterate_add (analysis : Analysis φ) (body : Body) (budget extra : Nat) (state last : State φ)
    (settles : iterate analysis body budget state = some last) :
    iterate analysis body (budget + extra) state = some last := by
  induction budget generalizing state with
  | zero =>
    cases queue : state.queue with
    | nil => cases extra <;> simpa [iterate, queue] using settles
    | cons block rest => simp [iterate, queue] at settles
  | succ budget ih =>
    rw [Nat.succ_add]
    cases queue : state.queue with
    | nil => simpa [iterate, queue] using settles
    | cons block rest =>
      simp only [iterate, queue] at settles ⊢
      exact ih _ settles

def seeds (analysis : Analysis φ) (body : Body) (order : FlowOrder) : List Block :=
  (seedOrder analysis body order).foldl enqueue []

def view (state : Working Worklist φ) : State φ := ⟨state.queue.queue, state.facts, state.stats⟩

theorem pushes_in_step (blocks : List Block) (work : Worklist) (inStep : work.InStep) :
    (blocks.foldl Worklist.push work).InStep ∧ (blocks.foldl Worklist.push work).queue = blocks.foldl enqueue work.queue := by
  induction blocks generalizing work with
  | nil => exact ⟨inStep, rfl⟩
  | cons block rest ih =>
    obtain ⟨kept, queue⟩ := ih (work.push block) (work.push_in_step inStep block)
    rw [work.push_queue inStep block] at queue
    exact ⟨kept, queue⟩

theorem visit_in_step (analysis : Analysis φ) (body : Body) (block : Block) (state : Working Worklist φ)
    (inStep : state.queue.InStep) : (visitWith Worklist.push analysis body block state).queue.InStep ∧
      view (visitWith Worklist.push analysis body block state) = visit analysis body block (view state) := by
  obtain ⟨kept, queue⟩ := pushes_in_step (readers analysis body block) state.queue inStep
  rw [visit, visitWith, visitWith]
  dsimp only [view]
  split
  · rename_i same
    exact ⟨inStep, (if_pos same).symm⟩
  · rename_i differ
    refine ⟨kept, Eq.trans ?_ (if_neg differ).symm⟩
    rw [queue]

theorem settle_iterates (analysis : Analysis φ) (body : Body) (budget : Nat) (state : Working Worklist φ)
    (inStep : state.queue.InStep) :
    (settle analysis body budget state).map view = iterate analysis body budget (view state) ∧
      ∀ last, settle analysis body budget state = some last → last.queue = {} := by
  induction budget generalizing state with
  | zero =>
    rw [settle, iterate]
    split
    · rename_i empty
      refine ⟨(if_pos empty).symm, fun last same => ?_⟩
      cases same
      exact state.queue.nothing_waits inStep (List.isEmpty_iff.mp empty)
    · rename_i waiting
      exact ⟨(if_neg waiting).symm, fun last none => by cases none⟩
  | succ budget ih =>
    cases popped : state.queue.pop? with
    | none =>
      have empty := (state.queue.pop_none_iff).mp popped
      simp only [settle, iterate, view, popped, empty]
      refine ⟨by rw [Option.map_some, view, empty], fun last same => ?_⟩
      cases same
      exact state.queue.nothing_waits inStep empty
    | some taken =>
      obtain ⟨block, work⟩ := taken
      obtain ⟨restInStep, queue⟩ := state.queue.pop_in_step work inStep block popped
      obtain ⟨kept, seen⟩ := visit_in_step analysis body block { state with queue := work } restInStep
      simp only [settle, iterate, view, popped, queue]
      obtain ⟨same, ends⟩ := ih _ kept
      rw [seen] at same
      exact ⟨same, ends⟩

end Solver

namespace Body

variable {φ : Type} (body : Body) (budget : Nat) (analysis : Analysis φ) (facts : BlockFacts φ)

theorem seeded_in_step (work : Worklist) (order : FlowOrder) :
    ((Solver.seedOrder analysis body order).foldl Worklist.push work.clear).InStep ∧
      ((Solver.seedOrder analysis body order).foldl Worklist.push work.clear).queue = Solver.seeds analysis body order :=
  Solver.pushes_in_step _ work.clear work.clear_in_step

theorem solve_within_queue : body.solveWithin budget analysis facts = (body.prepare analysis facts).bind fun order =>
    match Solver.iterate analysis body budget ⟨Solver.seeds analysis body order, facts, {}⟩ with
    | some state => .ok (state.facts, state.stats)
    | none => .error .endless := by
  rw [solveWithin, solveOn]
  cases body.prepare analysis facts with
  | error fault => rfl
  | ok order =>
    obtain ⟨inStep, queue⟩ := seeded_in_step body analysis {} order
    obtain ⟨iterates, _⟩ := Solver.settle_iterates analysis body budget ⟨_, facts, {}⟩ inStep
    rw [Solver.view, queue] at iterates
    simp only [bind, Except.bind, ← iterates]
    cases Solver.settle analysis body budget _ <;> rfl

-- What a worklist was used for before leaves no trace, even if its set and its queue do not agree, and a solve leaves
-- nothing waiting.
theorem solve_on_any_worklist (work : Worklist) :
    (body.solveOn work budget analysis facts).map Prod.snd = body.solveWithin budget analysis facts ∧
      ∀ left solved, body.solveOn work budget analysis facts = .ok (left, solved) → left = {} := by
  have cleared : body.solveOn work budget analysis facts = body.solveOn {} budget analysis facts := rfl
  rw [cleared, solveWithin]
  refine ⟨by cases body.solveOn {} budget analysis facts <;> rfl, fun left solved done => ?_⟩
  rw [solveOn] at done
  cases prepared : body.prepare analysis facts with
  | error fault =>
    rw [prepared] at done
    cases done
  | ok order =>
    obtain ⟨_, ends⟩ := Solver.settle_iterates analysis body budget ⟨_, facts, {}⟩ (seeded_in_step body analysis {} order).1
    simp only [prepared, bind, Except.bind] at done
    cases settled : Solver.settle analysis body budget
        ⟨(Solver.seedOrder analysis body order).foldl Worklist.push ({} : Worklist).clear, facts, {}⟩ with
    | none =>
      rw [settled] at done
      cases done
    | some last =>
      rw [settled] at done
      cases done
      exact ends last settled

end Body

end ThreeAddress
