import ThreeAddress.Proofs.Execution.Rewrites
import ThreeAddress.Proofs.Optimizer.Rewrites

/-!
Constant propagation changes no run, since what the solved facts say of variables is true wherever a run passes.
-/

set_option autoImplicit false

namespace ThreeAddress

namespace Constants

def Holds (fact : ConstFact) (machine : Machine) : Prop :=
  ∃ map, fact = .known map ∧ map.Sound ∧ ∀ var value, (var, value) ∈ map.toList → machine.env var = value

theorem holds_lower (scope : List Var) (a b : ConstFact) (machine : Machine) (aOver : a.Over scope) (less : Bindings.le a b)
    (holds : Holds b machine) : Holds a machine := by
  obtain ⟨larger, rfl, _, true⟩ := holds
  cases a with
  | top => exact less.elim
  | known map => exact ⟨map, rfl, aOver.1, fun var value member => true var value (less (var, value) member)⟩

theorem holds_get (fact : ConstFact) (machine : Machine) (holds : Holds fact machine) (var : Var) (value : Int64)
    (bound : fact.get? var = some value) : machine.env var = value := by
  obtain ⟨map, rfl, sound, true⟩ := holds
  exact true var value ((OrderedMap.get_eq_some_iff map sound var value).mp bound)

theorem holds_set (fact : ConstFact) (machine after : Machine) (holds : Holds fact machine) (var : Var) (value : Option Int64)
    (here : ∀ known, value = some known → after.env var = known)
    (elsewhere : ∀ other, other ≠ var → after.env other = machine.env other) : Holds (fact.set var value) after := by
  obtain ⟨map, rfl, sound, true⟩ := holds
  refine ⟨_, rfl, OrderedMap.sound_set map sound var value, fun other known member => ?_⟩
  rcases (OrderedMap.mem_set map sound var value other known).mp member with ⟨same, bound⟩ | ⟨apart, kept⟩
  · rw [same]
    exact here known bound
  · rw [elsewhere other apart]
    exact true other known kept

theorem holds_unbind_all (vars : List Var) (fact : ConstFact) (machine after : Machine) (holds : Holds fact machine)
    (same : ∀ other, other ∉ vars → after.env other = machine.env other) : Holds (unbindAll vars fact) after := by
  induction vars generalizing fact machine with
  | nil =>
    obtain ⟨map, rfl, sound, true⟩ := holds
    refine ⟨map, rfl, sound, fun var value member => ?_⟩
    rw [same var List.not_mem_nil]
    exact true var value member
  | cons var rest ih =>
    have first := holds_set fact machine (machine.assign var (after.env var)) holds var none (fun _ impossible => by cases impossible)
      fun other apart => Machine.assign_elsewhere machine var other _ apart
    apply ih _ _ first
    intro other outside
    by_cases here : other = var
    · rw [here, Machine.assign_here]
    · rw [Machine.assign_elsewhere _ _ _ _ here]
      exact same other fun member => (List.mem_cons.mp member).elim here outside

theorem operand_holds (fact : ConstFact) (machine : Machine) (holds : Holds fact machine) (operand : Operand) (value : Int64)
    (known : operand? fact operand = some value) : machine.value operand = value := by
  cases operand with
  | lit literal => exact Option.some.inj known
  | var name => exact holds_get fact machine holds name value known

theorem eval_step (around : Surroundings) (fact : ConstFact) (machine : Machine) (holds : Holds fact machine)
    (operation : Operation) (dst : Var) (defines : operation.def? = some dst) (value : Int64)
    (known : eval? fact operation = some value) : machine.step around operation = ([], some (machine.assign dst value)) := by
  have operands := operand_holds fact machine holds
  cases operation with
  | assign place src =>
    cases defines
    rw [Machine.step, operands src value known]
  | binary op place lhs rhs =>
    cases defines
    simp only [eval?, Option.bind_eq_bind, Option.bind_eq_some_iff] at known
    obtain ⟨a, left, b, right, result⟩ := known
    simp only [Machine.step, operands lhs a left, operands rhs b right, result]
  | unary op place src =>
    cases defines
    obtain ⟨a, held, result⟩ := Option.map_eq_some_iff.mp known
    rw [Machine.step, operands src a held, result]
  | _ => cases known

theorem clobbered_holds (around : Surroundings) (pinned : OrderedSet Var) (within : around.Within pinned) (clobbers : Bool)
    (fact : ConstFact) (machine after : Machine) (holds : Holds fact machine)
    (elsewhere : ∀ var, (clobbers = true → around.inMemory.contains var = false) → after.env var = machine.env var) :
    Holds (if clobbers then unbindAll pinned.toList fact else fact) after := by
  cases clobbers with
  | true =>
    apply holds_unbind_all pinned.toList fact machine after holds
    exact fun var outside => elsewhere var fun _ => outside_memory around pinned within var outside
  | false =>
    apply holds_unbind_all [] fact machine after holds
    exact fun var _ => elsewhere var nofun

theorem step_holds (around : Surroundings) (pinned : OrderedSet Var) (within : around.Within pinned) (inst : Inst)
    (operation : Operation) (fact : ConstFact) (machine after : Machine) (holds : Holds fact machine)
    (went : (machine.step around operation).2 = some after) : Holds (step pinned inst operation fact) after := by
  rw [step_eq]
  cases defines : operation.def? with
  | none =>
    simp only [written, defines]
    refine clobbered_holds around pinned within _ fact machine after holds fun var unclobbered => ?_
    apply Machine.step_elsewhere around machine after operation went var _ unclobbered
    rw [defines]
    exact Option.some_ne_none var |>.symm
  | some dst =>
    have writes : Holds (written operation fact) (machine.assign dst (after.env dst)) := by
      simp only [written, defines]
      apply holds_set fact machine _ holds dst
      · intro value known
        rw [eval_step around fact machine holds operation dst defines value known] at went
        cases went
        rw [Machine.assign_here, Machine.assign_here]
      · exact fun other apart => Machine.assign_elsewhere machine dst other _ apart
    refine clobbered_holds around pinned within _ _ _ after writes fun var unclobbered => ?_
    by_cases here : var = dst
    · rw [here, Machine.assign_here]
    · rw [Machine.assign_elsewhere _ _ _ _ here]
      apply Machine.step_elsewhere around machine after operation went var _ unclobbered
      rw [defines]
      exact fun same => here (Option.some.inj same).symm

theorem fold_step (around : Surroundings) (fact : ConstFact) (machine : Machine) (holds : Holds fact machine)
    (operation replacement : Operation) (folded : fold? fact operation = some replacement) :
    machine.step around replacement = machine.step around operation := by
  cases operation with
  | binary op dst lhs rhs =>
    obtain ⟨value, known, made⟩ := Option.map_eq_some_iff.mp folded
    rw [← made, eval_step around fact machine holds _ dst rfl value known]
    rfl
  | unary op dst src =>
    obtain ⟨value, known, made⟩ := Option.map_eq_some_iff.mp folded
    rw [← made, eval_step around fact machine holds _ dst rfl value known]
    rfl
  | _ => cases folded

theorem faithful (around : Surroundings) (pinned : OrderedSet Var) (within : around.Within pinned) (body : Body) :
    (analysis pinned body).Faithful body (Bindings.Over body.definedScope) Bindings.le (step pinned) (TrueAfter around Holds) := by
  apply faithful_of_steps body _ _ _ _ around Holds rfl rfl
  · exact fun machine => ⟨.empty, rfl, OrderedMap.sound_empty, fun _ _ member => (List.not_mem_nil member).elim⟩
  · exact fun a b machine aOver less holds => holds_lower body.definedScope a b machine aOver less holds
  · exact fun _ inst operation _ fact machine after holds went =>
      step_holds around pinned within inst operation fact machine after holds went

-- The walk goes on from the operation as it was edited, with a fact that is as true as the one that was solved.
theorem edit_step_unseen (around : Surroundings) (pinned : OrderedSet Var) (within : around.Within pinned) (inst : Inst)
    (operation : Operation) : EditUnseen around (editStep pinned) Holds inst operation := by
  intro fact tally machine holds
  have same := Machine.step_simplify around machine fact.get? (fold? fact) (holds_get fact machine holds)
    (fold_step around fact machine holds) tally operation
  constructor
  · exact same
  · intro after went
    rw [← same] at went
    exact step_holds around pinned within inst _ fact machine after holds went

end Constants

namespace Body

section Facts

variable (body : Body) (accepted : body.check = .ok ()) (around : Surroundings) (pinned : OrderedSet Var)
  (within : around.Within pinned) (facts : BlockFacts ConstFact)
  (solved : body.Solved (Constants.analysis pinned body) (Bindings.Over body.definedScope) Bindings.le facts)

include accepted within solved

theorem constants_true (path : List Block) (block : Block) (leads : Path body body.entry path block)
    (front : List (Inst × Operation)) (fact : ConstFact) (here : facts.At body (Constants.step pinned) block front fact)
    (env : Var → Int64) (machine : Machine) (arrives : body.machineAt around env path front = some machine) :
    Constants.Holds fact machine := by
  have laws := Constants.lawful pinned body body.definedScope (mem_defined_scope body)
  have faithful := Constants.faithful around pinned within body
  exact point_holds body _ _ _ laws facts solved accepted _ _ faithful path block leads front fact here env machine arrives

theorem constants_runs (other : Body) (edited : CodeEdited (Constants.editStep pinned) (knownAt facts) body other) :
    body.RunsAs other around := by
  apply edited_runs body other accepted around _ _ edited Constants.Holds
  · exact fun _ inst operation _ => Constants.edit_step_unseen around pinned within inst operation
  · intro env path block machine leads arrives fact begins
    have stored := (Option.filter_eq_some_iff.mp begins).1
    exact constants_true body accepted around pinned within facts solved path block leads [] fact
      (.within block [] (body.code block) fact stored rfl) env machine arrives

end Facts

theorem constant_propagation_preserves_runs (body : Body) (accepted : body.check = .ok ()) (fuel : Fuel) :
    ∃ pinned facts tally propagated, body.addressTaken = .ok pinned ∧
      body.analyze (Constants.analysis pinned body) = .ok facts ∧ body.propagateConstants fuel = .ok (tally, propagated) ∧
      body.SameFrame propagated ∧
      ∀ around : Surroundings, around.Within pinned → body.RunsAs propagated around ∧
        ∀ env path block front fact machine, Path body body.entry path block →
          facts.At body (Constants.step pinned) block front fact → body.machineAt around env path front = some machine →
          ∀ var value, fact.get? var = some value → machine.env var = value := by
  obtain ⟨pinned, facts, tally, propagated, taken, solved, done, edited⟩ := propagate_constants_edits body accepted fuel
  refine ⟨pinned, facts, tally, propagated, taken, solved.found, done, edited.frame, fun around within => ?_⟩
  constructor
  · exact constants_runs body accepted around pinned within facts solved propagated edited
  · intro env path block front fact machine leads here arrives
    have holds := constants_true body accepted around pinned within facts solved path block leads front fact here env machine arrives
    exact Constants.holds_get fact machine holds

-- A loop that computes its constant anew each time round.
def turning : Body where
  name := "turning"
  entry := .nth 0
  blocks := .ofList [
    { chain := ⟨.nth 0, .nth 0, 1⟩, succs := [.nth 1] },
    { chain := ⟨.nth 1, .nth 6, 6⟩, succs := [.nth 1, .nth 2], preds := [.nth 0, .nth 1] },
    { chain := ⟨.nth 7, .nth 7, 1⟩, preds := [.nth 1] }]
  cells := .ofList [
    { operation := .assign (.nth 0) (.lit 4), block := .nth 0 },
    { operation := .label, block := .nth 1, next := .nth 2 },
    { operation := .binary .mul (.nth 1) (.var (.nth 0)) (.lit 2), block := .nth 1, prev := .nth 1, next := .nth 3 },
    { operation := .write (.var (.nth 1)), block := .nth 1, prev := .nth 2, next := .nth 4 },
    { operation := .binary .sub (.nth 0) (.var (.nth 1)) (.lit 4), block := .nth 1, prev := .nth 3, next := .nth 5 },
    { operation := .read (.nth 2), block := .nth 1, prev := .nth 4, next := .nth 6 },
    { operation := .branch .eq (.var (.nth 2)) (.lit 0) (.nth 1), block := .nth 1, prev := .nth 5 },
    { operation := .ret (.var (.nth 0)), block := .nth 2 }]
  vars := .ofList [some "x", some "y", some "k"]

-- The second time round the constant is known still, and what is computed from it is written down.
theorem turning_propagates_constants : turning.check = .ok () ∧
    ∃ tally propagated, turning.propagateConstants .infinite = .ok (tally, propagated) ∧
      propagated.operation? (.nth 2) = some (.assign (.nth 1) (.lit 8)) ∧
      ∀ around : Surroundings, around.Within .empty → turning.RunsAs propagated around ∧
        ∀ env machine, turning.machineAt around env [.nth 0, .nth 1, .nth 1] [] = some machine → machine.env (.nth 0) = 4 := by
  have accepted : turning.check = .ok () := by rfl
  obtain ⟨pinned, facts, tally, propagated, taken, solved, done, _, shows⟩ :=
    constant_propagation_preserves_runs turning accepted .infinite
  have none : turning.addressTaken = .ok .empty := by rfl
  cases none.symm.trans taken
  have rewritten : (turning.propagateConstants .infinite).toOption.map (fun after => after.2.operation? (.nth 2)) =
      some (some (.assign (.nth 1) (.lit 8))) := by decide +kernel
  rw [done] at rewritten
  have known : (turning.analyze (Constants.analysis .empty turning)).toOption.bind
      (fun facts => (facts.atEntry.get? (.nth 1)).bind fun fact => fact.get? (.nth 0)) = some 4 := by decide +kernel
  rw [solved, Except.toOption, Option.bind_some] at known
  obtain ⟨fact, stored, bound⟩ := Option.bind_eq_some_iff.mp known
  have leads : Path turning turning.entry [.nth 0, .nth 1, .nth 1] (.nth 1) :=
    .step _ (.nth 1) _ _ (by decide) (.step _ (.nth 1) _ _ (by decide) (.here _))
  refine ⟨accepted, tally, propagated, done, Option.some.inj rewritten, fun around within => ?_⟩
  obtain ⟨runs, holds⟩ := shows around within
  refine ⟨runs, fun env machine arrives => ?_⟩
  exact holds env _ (.nth 1) [] fact machine leads (.within (.nth 1) [] _ fact stored rfl) arrives (.nth 0) 4 bound

end Body

end ThreeAddress
