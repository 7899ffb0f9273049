import ThreeAddress.Proofs.Execution.Steps

/-!
What the passes that rewrite in place have in common. Each knows something about the machine at every point, and its
edits make no difference to machines of which that is true.
-/

set_option autoImplicit false

namespace ThreeAddress

def Surroundings.Within (around : Surroundings) (pinned : OrderedSet Var) : Prop :=
  ∀ var, around.inMemory.contains var = true → var ∈ pinned.toList

theorem outside_memory (around : Surroundings) (pinned : OrderedSet Var) (within : around.Within pinned) (var : Var)
    (outside : var ∉ pinned.toList) : around.inMemory.contains var = false :=
  Bool.eq_false_iff.mpr fun inside => outside (within var inside)

def TrueAfter {φ : Type} (around : Surroundings) (holds : φ → Machine → Prop) (done : List Operation) (fact : φ) : Prop :=
  ∀ env machine, (Machine.run around ⟨env, 0⟩ done).2 = some machine → holds fact machine

theorem faithful_of_steps {φ : Type} (body : Body) (analysis : Analysis φ) (carrier : φ → Prop) (le : φ → φ → Prop)
    (step : Inst → Operation → φ → φ) (around : Surroundings) (holds : φ → Machine → Prop)
    (forward : analysis.direction = .forward) (transfers : analysis.transfer = body.transferCode .forward step)
    (start : ∀ machine, holds analysis.boundary machine)
    (weaker : ∀ a b machine, carrier a → le a b → holds b machine → holds a machine)
    (carries : ∀ block inst operation, (inst, operation) ∈ body.code block → ∀ fact machine after, holds fact machine →
      (machine.step around operation).2 = some after → holds (step inst operation fact) after) :
    analysis.Faithful body carrier le step (TrueAfter around holds) where
  forward := forward
  transfers := transfers
  start := fun _ machine _ => start machine
  lower := fun _ a b aIn less known env machine ran => weaker a b machine aIn less (known env machine ran)
  carries := by
    intro block inst operation member done fact known env last ran
    obtain ⟨machine, before, went⟩ := Machine.run_append_some around _ last done [operation] ran
    rw [Machine.run_one] at went
    exact carries block inst operation member fact machine last (known env machine before) went

theorem edited_run {σ : Type} (body other : Body) (around : Surroundings) (step : Body.Step σ) (start : Block → Option σ)
    (edited : Body.CodeEdited step start body other) (block : Block) (inside : body.blocks.contains block = true)
    (holds : σ → Machine → Prop)
    (same : ∀ inst operation, (inst, operation) ∈ body.code block → EditUnseen around step holds inst operation)
    (machine : Machine) (known : ∀ state, start block = some state → holds state machine) :
    machine.run around (other.operationsIn block) = machine.run around (body.operationsIn block) := by
  have code := edited.code block inside
  rw [Body.EditedFrom] at code
  rw [Body.operationsIn, Body.operationsIn]
  split at code
  · rw [code]
  · rename_i state begins
    obtain ⟨tally, after⟩ := code
    rw [after]
    exact edited_code_run around step holds (body.code block) same state tally machine (known state begins)

theorem edited_runs {σ : Type} (body other : Body) (accepted : body.check = .ok ()) (around : Surroundings) (step : Body.Step σ)
    (start : Block → Option σ) (edited : Body.CodeEdited step start body other) (holds : σ → Machine → Prop)
    (same : ∀ block inst operation, (inst, operation) ∈ body.code block → EditUnseen around step holds inst operation)
    (known : ∀ env path block machine, Path body body.entry path block → body.machineAt around env path [] = some machine →
      ∀ state, start block = some state → holds state machine) :
    body.RunsAs other around := by
  have wellFormed := Body.well_formed_of_check body accepted
  apply Body.runs_of_arrivals body other around
  intro env path block machine leads arrives
  have inside := Body.reaches_inside body wellFormed.edges body.entry block wellFormed.entry ⟨path, leads⟩
  exact edited_run body other around step start edited block inside holds (same block) machine
    (known env path block machine leads arrives)

end ThreeAddress
