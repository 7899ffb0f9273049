import ThreeAddress.Proofs.Body.Placed
import ThreeAddress.Proofs.Dataflow.BindingFacts
import ThreeAddress.Proofs.Dataflow.FixedPoint

/-!
Solving from facts that are already there. It comes to an end exactly if at some moment of the run the stored
facts lie all on one side of what a visit would make of them; from facts that lie on both sides, it can go
round and round.
-/

set_option autoImplicit false

namespace ThreeAddress

namespace Solver

variable {φ : Type}

def advance (analysis : Analysis φ) (body : Body) : Nat → State φ → State φ
  | 0, state => state
  | count + 1, state =>
      match state.queue with
      | [] => state
      | block :: queue => advance analysis body count (visit analysis body block { state with queue := queue })

section Advance

variable (analysis : Analysis φ) (body : Body)

theorem advance_runs (count : Nat) (state : State φ) : Runs analysis body state (advance analysis body count state) := by
  induction count generalizing state with
  | zero => exact .refl
  | succ count ih =>
    obtain ⟨queue, facts, stats⟩ := state
    cases queue with
    | nil => exact .refl
    | cons block rest => exact .head (.take [] rest block facts stats) (ih _)

theorem iterate_advance (count budget : Nat) (state : State φ) :
    iterate analysis body (count + budget) state = iterate analysis body budget (advance analysis body count state) := by
  induction count generalizing state with
  | zero => rw [Nat.zero_add, advance]
  | succ count ih =>
    obtain ⟨queue, facts, stats⟩ := state
    rw [Nat.succ_add]
    cases queue with
    | nil =>
      simp only [iterate, advance]
      cases budget <;> rfl
    | cons block rest => exact ih _

theorem iterate_eq_some_iff (budget : Nat) (state last : State φ) :
    iterate analysis body budget state = some last ↔
      (advance analysis body budget state).queue = [] ∧ advance analysis body budget state = last := by
  have whole := iterate_advance analysis body budget 0 state
  rw [Nat.add_zero] at whole
  rw [whole, iterate]
  simp only [List.isEmpty_iff]
  by_cases done : (advance analysis body budget state).queue = []
  · rw [if_pos done, Option.some.injEq, and_iff_right done]
  · simp [done]

theorem advance_empty (count extra : Nat) (state : State φ) (done : (advance analysis body count state).queue = []) :
    (advance analysis body (count + extra) state).queue = [] := by
  have settled := (iterate_eq_some_iff analysis body count state _).mpr ⟨done, rfl⟩
  have later := iterate_add analysis body count extra state _ settled
  exact ((iterate_eq_some_iff analysis body (count + extra) state _).mp later).1

theorem advance_stats (count : Nat) (queue : List Block) (facts : BlockFacts φ) (stats other : SolveStats) :
    (advance analysis body count ⟨queue, facts, stats⟩).queue = (advance analysis body count ⟨queue, facts, other⟩).queue ∧
      (advance analysis body count ⟨queue, facts, stats⟩).facts = (advance analysis body count ⟨queue, facts, other⟩).facts := by
  induction count generalizing queue facts stats other with
  | zero => exact ⟨rfl, rfl⟩
  | succ count ih =>
    cases queue with
    | nil => exact ⟨rfl, rfl⟩
    | cons block rest =>
      simp only [advance, visit, visitWith]
      split <;> exact ih _ _ _ _

theorem advance_add (count more : Nat) (state : State φ) :
    advance analysis body (count + more) state = advance analysis body more (advance analysis body count state) := by
  induction count generalizing state with
  | zero => rw [Nat.zero_add, advance]
  | succ count ih =>
    obtain ⟨queue, facts, stats⟩ := state
    rw [Nat.succ_add]
    cases queue with
    | nil =>
      simp only [advance]
      cases more <;> rfl
    | cons block rest => exact ih _

theorem cycle_is_endless (period : Nat) (state : State φ) (forward : 0 < period) (waits : state.queue ≠ [])
    (queue : (advance analysis body period state).queue = state.queue)
    (facts : (advance analysis body period state).facts = state.facts) (budget : Nat) :
    iterate analysis body budget state = none := by
  have back (rounds : Nat) : (advance analysis body (rounds * period) state).queue = state.queue ∧
      (advance analysis body (rounds * period) state).facts = state.facts := by
    induction rounds with
    | zero =>
      rw [Nat.zero_mul, advance]
      exact ⟨rfl, rfl⟩
    | succ rounds ih =>
      rw [Nat.succ_mul, advance_add]
      generalize reached : advance analysis body (rounds * period) state = middle at ih ⊢
      obtain ⟨middleQueue, middleFacts, stats⟩ := middle
      obtain ⟨startQueue, startFacts, startStats⟩ := state
      obtain ⟨rfl, rfl⟩ := ih
      have same := advance_stats analysis body period middleQueue middleFacts stats startStats
      exact ⟨same.1.trans queue, same.2.trans facts⟩
  cases settled : iterate analysis body budget state with
  | none => rfl
  | some last =>
    have done := ((iterate_eq_some_iff analysis body budget state last).mp settled).1
    have enough : budget ≤ budget * period := Nat.le_mul_of_pos_right budget forward
    have empty := advance_empty analysis body budget (budget * period - budget) state done
    rw [Nat.add_sub_cancel' enough, (back budget).1] at empty
    exact absurd empty waits

end Advance

def Settles (body : Body) (analysis : Analysis φ) (facts : BlockFacts φ) : Prop :=
  ∃ budget result, body.solveWithin budget analysis facts = .ok result

-- At some moment no visit would move any outgoing fact up, or none would move any down.
def TurnsOneSided (body : Body) (analysis : Analysis φ) (le : φ → φ → Prop) (facts : BlockFacts φ) : Prop :=
  ∃ order count, body.flowOrder = .ok order ∧
    (OneSided analysis body le (outgoing analysis (advance analysis body count (first analysis body order facts)).facts) ∨
      OneSided analysis body (flip le)
        (outgoing analysis (advance analysis body count (first analysis body order facts)).facts))

structure Takes (body : Body) (analysis : Analysis φ) (valid : φ → Prop) (facts : BlockFacts φ) : Prop where
  tag : facts.tag = analysis.tag
  fits : facts.Fits body
  within : Within facts valid

section Settled

variable (analysis : Analysis φ) (body : Body) (accepted : body.check = .ok ()) (carrier : φ → Prop) (le : φ → φ → Prop)
  (laws : analysis.Lawful body carrier le) (facts : BlockFacts φ) (takes : Takes body analysis carrier facts)

include accepted laws takes

theorem advance_proper (order : FlowOrder) (queues : Queues body (seeds analysis body order)) (count : Nat) :
    Proper analysis body carrier (advance analysis body count (first analysis body order facts)) :=
  runs_proper analysis body (Body.well_formed_of_check body accepted).edges carrier laws.toCarries _ _
    (start_proper analysis body carrier laws.toCarries _ queues facts takes.fits takes.within {})
    (advance_runs analysis body count _)

theorem turns_one_sided (settles : Settles body analysis facts) : TurnsOneSided body analysis le facts := by
  have edges := (Body.well_formed_of_check body accepted).edges
  have reflexive := same_self analysis body carrier le (steers_down analysis body carrier le laws)
  obtain ⟨order, ordered, queues, iterates⟩ := solve_within_iterates analysis body accepted facts takes.tag takes.fits
  have proper := advance_proper analysis body accepted carrier le laws facts takes order queues
  obtain ⟨budget, result, solved⟩ := settles
  rw [iterates] at solved
  cases settled : iterate analysis body budget (first analysis body order facts) with
  | none =>
    rw [settled] at solved
    cases solved
  | some last =>
    obtain ⟨done, _⟩ := (iterate_eq_some_iff analysis body budget _ last).mp settled
    have waiting := runs_waiting analysis body edges carrier laws.toCarries reflexive _ _ (proper 0)
      (start_waiting analysis body _ queues facts {}) (advance_runs analysis body budget _)
    have solves := solves_of_settled analysis body carrier laws.toCarries reflexive _ (proper budget) waiting done
    have within := within_of_proper analysis body carrier _ (proper budget)
    exact ⟨order, budget, ordered, .inl fun block inside =>
      (solution_stays analysis body carrier le laws _ within solves block inside).1⟩

variable (descends : WellFounded (Below carrier le)) (ascends : WellFounded (Below carrier (flip le)))

include descends ascends

theorem settles_of_one_sided (turns : TurnsOneSided body analysis le facts) : Settles body analysis facts := by
  have edges := (Body.well_formed_of_check body accepted).edges
  obtain ⟨order, ordered, queues, iterates⟩ := solve_within_iterates analysis body accepted facts takes.tag takes.fits
  obtain ⟨sameOrder, count, orderedAgain, sides⟩ := turns
  cases ordered.symm.trans orderedAgain
  have proper := advance_proper analysis body accepted carrier le laws facts takes order queues count
  obtain ⟨budget, last, settled⟩ : ∃ budget last, iterate analysis body budget
      (advance analysis body count (first analysis body order facts)) = some last := by
    cases sides with
    | inl falls =>
      exact iterate_settles analysis body edges carrier laws.toCarries le (steers_down analysis body carrier le laws) descends _
        proper falls
    | inr rises =>
      exact iterate_settles analysis body edges carrier laws.toCarries (flip le) (steers_up analysis body carrier le laws) ascends
        _ proper rises
  refine ⟨count + budget, (last.facts, last.stats), ?_⟩
  rw [iterates, iterate_advance, settled]

theorem settles_iff : Settles body analysis facts ↔ TurnsOneSided body analysis le facts :=
  ⟨turns_one_sided analysis body accepted carrier le laws facts takes,
    settles_of_one_sided analysis body accepted carrier le laws facts takes descends ascends⟩

end Settled

def slots (facts : BlockFacts φ) : List φ := facts.atEntry.toList ++ facts.atExit.toList

theorem mem_to_list_of_get {entity : Entity} (arena : Arena entity φ) (ref : Ref entity) (value : φ)
    (found : arena.get? ref = some value) : value ∈ arena.toList := by
  cases ref with
  | invalid => cases found
  | nth index => exact Array.mem_toList_iff.mpr (Array.mem_of_getElem? found)

theorem within_imp (valid carrier : φ → Prop) (facts : BlockFacts φ) (within : Within facts valid)
    (imp : ∀ fact ∈ slots facts, valid fact → carrier fact) : Within facts carrier := by
  constructor
  · intro block fact found
    exact imp fact (List.mem_append_left _ (mem_to_list_of_get _ block fact found)) (within.1 block fact found)
  · intro block fact found
    exact imp fact (List.mem_append_right _ (mem_to_list_of_get _ block fact found)) (within.2 block fact found)

theorem sets_settle_iff {κ : Type} [Ord κ] [Std.TransOrd κ] [Std.LawfulEqOrd κ] (meet : Meet)
    (analysis : Analysis (OrderedSet κ)) (body : Body) (accepted : body.check = .ok ()) (base : List κ)
    (laws : ∀ scope, (∀ element ∈ base, element ∈ scope) → analysis.Lawful body (OrderedSet.Over scope) meet.le)
    (facts : BlockFacts (OrderedSet κ)) (takes : Takes body analysis OrderedSet.Sound facts) :
    Settles body analysis facts ↔ TurnsOneSided body analysis meet.le facts := by
  -- The facts given may hold elements that the analysis itself never adds.
  let scope := base ++ (slots facts).flatMap OrderedSet.toList
  have inScope := within_imp OrderedSet.Sound (OrderedSet.Over scope) facts takes.within fun fact member sound =>
    ⟨sound, fun element inFact => List.mem_append_right base (List.mem_flatMap.mpr ⟨fact, member, inFact⟩)⟩
  exact settles_iff analysis body accepted (OrderedSet.Over scope) meet.le
    (laws scope fun element member => List.mem_append_left _ member) facts ⟨takes.tag, takes.fits, inScope⟩
    (meet.descends scope) (meet.ascends scope)

end Solver

namespace Body

theorem cell_of_operation (body : Body) (inst : Inst) (operation : Operation)
    (found : body.operation? inst = some operation) : ∃ cell ∈ body.cells.toList, cell.operation = operation := by
  obtain ⟨cell, present, same⟩ := Option.map_eq_some_iff.mp found
  exact ⟨cell, Solver.mem_to_list_of_get body.cells inst cell present, same⟩

def usedScope (body : Body) : List Var := body.cells.toList.flatMap fun cell => cell.operation.usedVars

def definedScope (body : Body) : List Var := body.cells.toList.filterMap fun cell => cell.operation.def?

theorem mem_used_scope (body : Body) (inst : Inst) (operation : Operation) (found : body.operation? inst = some operation)
    (var : Var) (used : var ∈ operation.usedVars) : var ∈ body.usedScope := by
  obtain ⟨cell, member, same⟩ := cell_of_operation body inst operation found
  exact List.mem_flatMap.mpr ⟨cell, member, same ▸ used⟩

theorem mem_defined_scope (body : Body) (inst : Inst) (operation : Operation) (found : body.operation? inst = some operation)
    (dst : Var) (defined : operation.def? = some dst) : dst ∈ body.definedScope := by
  obtain ⟨cell, member, same⟩ := cell_of_operation body inst operation found
  exact List.mem_filterMap.mpr ⟨cell, member, same ▸ defined⟩

theorem tracked_lawful (body : Body) (layout : Block → List Inst) (copies : Copies) (copiesOf : CopiesOf body layout copies) :
    (copies.analysis body).Lawful body (OrderedSet.Over copies.all.toList) (Meet.le .intersection) := by
  have sound : copies.all.Sound := copiesOf.all ▸ OrderedSet.sound_of_list _
  have listed (copy : Copy) (member : copy ∈ copies.list) : copy.inst ∈ copies.all.toList := by
    rw [copiesOf.all, OrderedSet.mem_of_list]
    exact List.mem_map_of_mem member
  exact Copies.lawful copies body copies.all.toList ⟨sound, fun _ member => member⟩ listed

end Body

def Bindings.Sound {κ ν : Type} [Ord κ] (fact : Bindings κ ν) : Prop := ∀ map, fact = .known map → map.Sound

namespace Solver

theorem constants_settle_iff (pinned : OrderedSet Var) (body : Body) (accepted : body.check = .ok ())
    (facts : BlockFacts ConstFact) (takes : Takes body (Constants.analysis pinned body) Bindings.Sound facts) :
    Settles body (Constants.analysis pinned body) facts ↔
      TurnsOneSided body (Constants.analysis pinned body) Bindings.le facts := by
  let keys : ConstFact → List Var := fun fact => (fact.entries?.getD []).map Prod.fst
  let scope := body.definedScope ++ (slots facts).flatMap keys
  have inScope := within_imp Bindings.Sound (Bindings.Over scope) facts takes.within fun fact member sound => by
    cases fact with
    | top => trivial
    | known map =>
      refine ⟨sound map rfl, fun key bound => List.mem_append_right _ ?_⟩
      exact List.mem_flatMap.mpr ⟨.known map, member, bound⟩
  have laws := Constants.lawful pinned body scope fun inst operation found dst defined =>
    List.mem_append_left _ (Body.mem_defined_scope body inst operation found dst defined)
  exact settles_iff (Constants.analysis pinned body) body accepted (Bindings.Over scope) Bindings.le laws facts
    ⟨takes.tag, takes.fits, inScope⟩ (Bindings.descends scope) (Bindings.ascends scope)

theorem solve_settles_exactly (body : Body) (accepted : body.check = .ok ()) :
    (∀ facts, Takes body body.dominatorAnalysis OrderedSet.Sound facts →
      (Settles body body.dominatorAnalysis facts ↔
        TurnsOneSided body body.dominatorAnalysis (Meet.le .intersection) facts)) ∧
    (∀ facts, Takes body body.livenessAnalysis OrderedSet.Sound facts →
      (Settles body body.livenessAnalysis facts ↔ TurnsOneSided body body.livenessAnalysis (Meet.le .union) facts)) ∧
    (∃ copies, body.copies = .ok copies ∧ ∀ facts, Takes body (copies.analysis body) OrderedSet.Sound facts →
      (Settles body (copies.analysis body) facts ↔
        TurnsOneSided body (copies.analysis body) (Meet.le .intersection) facts)) ∧
    (∃ constants, body.constantAnalysis = .ok constants ∧ ∀ facts, Takes body constants Bindings.Sound facts →
      (Settles body constants facts ↔ TurnsOneSided body constants Bindings.le facts)) := by
  have wellFormed := Body.well_formed_of_check body accepted
  refine ⟨fun facts takes => ?_, fun facts takes => ?_, ?_, ?_⟩
  · exact sets_settle_iff .intersection _ body accepted body.blocks.refs
      (fun scope blocks => Body.dominator_lawful body wellFormed.entry scope blocks) facts takes
  · refine sets_settle_iff .union _ body accepted body.usedScope (fun scope used => ?_) facts takes
    exact Body.liveness_lawful body scope fun inst operation found var member =>
      used var (Body.mem_used_scope body inst operation found var member)
  · obtain ⟨copies, found, copiesOf⟩ := Body.copies_total body body.layout wellFormed.laid
    refine ⟨copies, found, fun facts takes => ?_⟩
    refine sets_settle_iff .intersection _ body accepted (copies.list.map Copy.inst) (fun scope listed => ?_) facts takes
    refine Copies.lawful copies body scope ?_ fun copy member => listed copy.inst (List.mem_map_of_mem member)
    rw [copiesOf.all]
    exact OrderedSet.over_of_list scope _ listed
  · obtain ⟨pinned, taken, _⟩ := Body.address_taken_total body body.layout wellFormed.laid
    refine ⟨Constants.analysis pinned body, ?_, fun facts takes => constants_settle_iff pinned body accepted facts takes⟩
    rw [Body.constantAnalysis, taken]
    rfl

theorem takes_listed (body : Body) (analysis : Analysis (OrderedSet Block)) (size : Nat) (outs : List (List Block))
    (entries : size = body.blocks.size) (exits : outs.length = body.blocks.size) :
    Takes body analysis OrderedSet.Sound
      ⟨analysis.tag, .replicate size .empty, .ofList (outs.map OrderedSet.ofList)⟩ := by
  refine ⟨rfl, ⟨?_, ?_⟩, fun block fact found => ?_, fun block fact found => ?_⟩
  · simpa [Arena.replicate, Arena.size] using entries
  · simpa [Arena.ofList, Arena.size] using exits
  · have member := mem_to_list_of_get (.replicate size .empty) block fact found
    rw [Arena.toList, Arena.replicate, Array.toList_replicate] at member
    rw [List.eq_of_mem_replicate member]
    exact OrderedSet.sound_empty
  · have member := mem_to_list_of_get (.ofList (outs.map OrderedSet.ofList)) block fact found
    obtain ⟨elements, _, made⟩ := List.mem_map.mp member
    exact made ▸ OrderedSet.sound_of_list elements

-- Facts of another run: a visit to the entry would put its own block for block 1.
def astray : BlockFacts (OrderedSet Block) where
  tag := spin.dominatorAnalysis.tag
  atEntry := .replicate 3 .empty
  atExit := .ofList ([[.nth 1], [.nth 2], []].map OrderedSet.ofList)

theorem spin_dominators_settle : spin.check = .ok () ∧ Takes spin spin.dominatorAnalysis OrderedSet.Sound astray ∧
    ¬ OneSided spin.dominatorAnalysis spin (Meet.le .intersection) (outgoing spin.dominatorAnalysis astray) ∧
    ¬ OneSided spin.dominatorAnalysis spin (flip (Meet.le .intersection)) (outgoing spin.dominatorAnalysis astray) ∧
    Settles spin spin.dominatorAnalysis astray := by
  have accepted : spin.check = .ok () := by rfl
  have wellFormed := Body.well_formed_of_check spin accepted
  obtain ⟨order, ordered, _⟩ := Body.flow_order_total spin wellFormed.edges wellFormed.entry
  have takes : Takes spin spin.dominatorAnalysis OrderedSet.Sound astray := takes_listed spin _ 3 _ rfl rfl
  have rises : spin.flowOrder.toOption.all (fun order => OneSided spin.dominatorAnalysis spin (flip (Meet.le .intersection))
      (outgoing spin.dominatorAnalysis
        (advance spin.dominatorAnalysis spin 2 (first spin.dominatorAnalysis spin order astray)).facts)) = true := by
    decide +kernel
  rw [ordered] at rises
  have settles := ((solve_settles_exactly spin accepted).1 _ takes).mpr ⟨order, 2, ordered, .inr (of_decide_eq_true rises)⟩
  exact ⟨accepted, takes, by decide +kernel, by decide +kernel, settles⟩

deriving instance DecidableEq for OrderedMap, OrderedSet, Arena, BlockFacts

-- A circle of blocks that nothing leads to, queued against the direction of its edges.
def circle : Body where
  name := "circle"
  entry := .nth 0
  blocks := .ofList [{}, { succs := [.nth 3], preds := [.nth 2] }, { succs := [.nth 1], preds := [.nth 3] },
    { succs := [.nth 2], preds := [.nth 1] }]
  cells := .empty
  vars := .empty

-- Facts under which the entry dominates one block of the circle and no other.
def stale : BlockFacts (OrderedSet Block) where
  tag := circle.dominatorAnalysis.tag
  atEntry := .replicate 4 .empty
  atExit := .ofList ([[], [], [.nth 0], []].map OrderedSet.ofList)

-- The one element runs round the circle ahead of the visits, and neither fills it nor leaves it.
theorem stale_dominators_never_settle : circle.check = .ok () ∧
    Takes circle circle.dominatorAnalysis OrderedSet.Sound stale ∧
    ∀ budget, circle.solveWithin budget circle.dominatorAnalysis stale = .error .endless := by
  have accepted : circle.check = .ok () := by rfl
  have takes : Takes circle circle.dominatorAnalysis OrderedSet.Sound stale := takes_listed circle _ 4 _ rfl rfl
  obtain ⟨order, ordered, _, iterates⟩ := solve_within_iterates circle.dominatorAnalysis circle accepted stale takes.tag takes.fits
  have seeded : circle.flowOrder.toOption.map (seeds circle.dominatorAnalysis circle) =
      some [.nth 0, .nth 1, .nth 2, .nth 3] := by decide +kernel
  rw [ordered] at seeded
  have start : first circle.dominatorAnalysis circle order stale = ⟨[.nth 0, .nth 1, .nth 2, .nth 3], stale, {}⟩ := by
    rw [first, Option.some.inj seeded]
  -- After thirteen visits the run is on a cycle of six.
  have onCycle : (advance circle.dominatorAnalysis circle 13 ⟨[.nth 0, .nth 1, .nth 2, .nth 3], stale, {}⟩).queue =
      [.nth 1, .nth 2] := by decide +kernel
  have never := cycle_is_endless circle.dominatorAnalysis circle 6
    (advance circle.dominatorAnalysis circle 13 ⟨[.nth 0, .nth 1, .nth 2, .nth 3], stale, {}⟩) (by decide)
    (by rw [onCycle]; exact List.cons_ne_nil _ _) (by rw [onCycle]; decide +kernel) (by decide +kernel)
  refine ⟨accepted, takes, fun budget => ?_⟩
  rw [iterates, start]
  cases settled : iterate circle.dominatorAnalysis circle budget ⟨[.nth 0, .nth 1, .nth 2, .nth 3], stale, {}⟩ with
  | none => rfl
  | some last =>
    have later := iterate_add circle.dominatorAnalysis circle budget 13 _ last settled
    rw [Nat.add_comm, iterate_advance, never budget] at later
    cases later

end Solver

end ThreeAddress
