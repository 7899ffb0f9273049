import Mathlib.Algebra.Order.BigOperators.Group.List
import Mathlib.Tactic.Ring
import ThreeAddress.Proofs.Dataflow.Settling

/-!
The solver's own budget is enough for the analyses of a body: every visit either shortens the queue or lowers
the rank of a fact, and there is more budget than all ranks and queues together.
-/

set_option autoImplicit false

namespace ThreeAddress

variable {φ : Type}

namespace Solver

def rankAt (analysis : Analysis φ) (rank : φ → Nat) (facts : BlockFacts φ) (block : Block) : Nat :=
  rank (outgoing analysis facts block)

def workLeft (analysis : Analysis φ) (body : Body) (rank : φ → Nat) (state : State φ) : Nat :=
  state.queue.length + body.blocks.size * (body.blocks.refs.map (rankAt analysis rank state.facts)).sum

theorem queue_length_le (body : Body) (queue : List Block) (once : queue.Nodup)
    (inside : ∀ block ∈ queue, body.blocks.contains block = true) : queue.length ≤ body.blocks.size := by
  have part := List.subperm_of_subset once fun block member => (Arena.mem_refs_iff body.blocks block).mpr (inside block member)
  simpa [Arena.refs] using part.length_le

section Ranked

variable (analysis : Analysis φ) (body : Body) (carrier : φ → Prop) (le : φ → φ → Prop) (rank : φ → Nat)
  (ranked : ∀ a b, Below carrier le a b → rank a < rank b)

include ranked

-- An update may fill the queue, which costs no more than one rank of one block is worth.
theorem work_left_falls (edges : body.EdgesAgree) (carries : analysis.Carries body carrier) (state next : State φ)
    (proper : Proper analysis body carrier state) (falls : Falls analysis body carrier le state next)
    (visits : Visits analysis body state next) :
    workLeft analysis body rank next < workLeft analysis body rank state := by
  have nextProper := visits_proper analysis body edges carrier carries state next proper visits
  have bound := queue_length_le body next.queue nextProper.once nextProper.queued
  cases falls with
  | kept outs queue =>
    have same : rankAt analysis rank next.facts = rankAt analysis rank state.facts := by
      funext block
      rw [rankAt, rankAt, outs]
    simp only [workLeft, same]
    omega
  | lowered block waits inside below others =>
    have member := (Arena.mem_refs_iff body.blocks block).mpr inside
    have sum := sum_map_update body.blocks.refs block (rankAt analysis rank state.facts) (rankAt analysis rank next.facts)
      (Arena.refs_nodup _) member fun other _ apart => by rw [rankAt, rankAt, others other apart]
    have less : rankAt analysis rank next.facts block < rankAt analysis rank state.facts block := ranked _ _ below
    have waiting : 0 < state.queue.length := List.length_pos_of_mem waits
    have drop : (body.blocks.refs.map (rankAt analysis rank next.facts)).sum + 1 ≤
        (body.blocks.refs.map (rankAt analysis rank state.facts)).sum := by omega
    have scaled := Nat.mul_le_mul_left body.blocks.size drop
    rw [Nat.mul_succ] at scaled
    simp only [workLeft]
    omega

theorem iterate_within_work (edges : body.EdgesAgree) (laws : analysis.Lawful body carrier le) (budget : Nat)
    (state : State φ) (proper : Proper analysis body carrier state)
    (oneSided : OneSided analysis body le (outgoing analysis state.facts))
    (enough : workLeft analysis body rank state ≤ budget) :
    ∃ last, iterate analysis body budget state = some last := by
  have carries := laws.toCarries
  have steers := steers_down analysis body carrier le laws
  induction budget generalizing state with
  | zero =>
    have empty : state.queue.length = 0 := by
      unfold workLeft at enough
      omega
    rw [iterate, List.length_eq_zero_iff.mp empty]
    exact ⟨state, rfl⟩
  | succ budget ih =>
    obtain ⟨queue, facts, stats⟩ := state
    cases queue with
    | nil => exact ⟨_, rfl⟩
    | cons block rest =>
      have visits : Visits analysis body ⟨block :: rest, facts, stats⟩ (visit analysis body block ⟨rest, facts, stats⟩) :=
        .take [] rest block facts stats
      have falls := visits_falls analysis body carrier carries le steers _ _ proper oneSided visits
      have less := work_left_falls analysis body carrier le rank ranked edges carries _ _ proper falls visits
      exact ih _ (visits_proper analysis body edges carrier carries _ _ proper visits)
        (visits_one_sided analysis body edges carrier carries le steers _ _ proper oneSided visits)
        (Nat.le_of_lt_succ (Nat.lt_of_lt_of_le less enough))

end Ranked

theorem budget_suffices (body : Body) (height : Nat) (low : height ≤ 2 * (body.blocks.size + body.cells.size) + 1) :
    body.blocks.size + body.blocks.size * (body.blocks.size * height) ≤ budget body := by
  unfold budget
  dsimp only
  generalize (body.blocks.toList.map fun data => data.succs.length).sum = edges
  generalize size : body.blocks.size + edges + body.cells.size + 4 = total
  have blocks : body.blocks.size ≤ total := by omega
  have tall : height ≤ 2 * total := by omega
  have big : 4 ≤ total := by omega
  have square : body.blocks.size * (body.blocks.size * height) ≤ total * (total * (2 * total)) :=
    Nat.mul_le_mul blocks (Nat.mul_le_mul blocks tall)
  have one : 1 ≤ total * total := Nat.mul_pos (by omega) (by omega)
  have cube : total ≤ total * (total * total) := by
    calc total = total * 1 := (Nat.mul_one total).symm
      _ ≤ total * (total * total) := Nat.mul_le_mul_left total one
  calc body.blocks.size + body.blocks.size * (body.blocks.size * height)
      ≤ total * (total * total) + total * (total * (2 * total)) := Nat.add_le_add (blocks.trans cube) square
    _ = 3 * (total * (total * total)) := by ring
    _ ≤ total * (total * (total * total)) := Nat.mul_le_mul_right _ (by omega)
    _ = total ^ 4 := by ring

end Solver

structure Body.Solved (body : Body) (analysis : Analysis φ) (carrier : φ → Prop) (le : φ → φ → Prop)
    (facts : BlockFacts φ) : Prop where
  found : body.analyze analysis = .ok facts
  fits : facts.Fits body
  within : Solver.Within facts carrier
  greatest : Solver.Greatest analysis body carrier le facts

theorem Body.analyze_total (body : Body) (analysis : Analysis φ) (accepted : body.check = .ok ()) (carrier : φ → Prop)
    (le : φ → φ → Prop) (laws : analysis.Lawful body carrier le)
    (neutral : ∀ fact, carrier fact → analysis.same (analysis.merge analysis.init fact).1 fact = true)
    (rank : φ → Nat) (ranked : ∀ a b, Solver.Below carrier le a b → rank a < rank b) (height : Nat)
    (bounded : ∀ fact, carrier fact → rank fact ≤ height)
    (low : height ≤ 2 * (body.blocks.size + body.cells.size) + 1) :
    ∃ facts, body.Solved analysis carrier le facts := by
  have edges := (Body.well_formed_of_check body accepted).edges
  obtain ⟨order, _, queues, iterates⟩ := Solver.solve_within_iterates analysis body accepted (.initial analysis body) rfl
    (Solver.initial_fits analysis body)
  have proper := Solver.initial_proper analysis body carrier le laws _ queues
  have oneSided := Solver.initial_one_sided analysis body carrier le laws neutral
  have sums : (body.blocks.refs.map (Solver.rankAt analysis rank (.initial analysis body))).sum ≤
      body.blocks.size * height := by
    have each := List.sum_le_card_nsmul (body.blocks.refs.map (Solver.rankAt analysis rank (.initial analysis body))) height
      fun value member => by
        obtain ⟨block, _, same⟩ := List.mem_map.mp member
        exact same ▸ bounded _ (proper.outs block)
    simpa [Arena.refs] using each
  have queued := Solver.queue_length_le body _ queues.once fun block member => (queues.all block).mp member
  have enough : Solver.workLeft analysis body rank (Solver.first analysis body order (.initial analysis body)) ≤
      Solver.budget body :=
    (Nat.add_le_add queued (Nat.mul_le_mul_left _ sums)).trans (Solver.budget_suffices body height low)
  obtain ⟨last, settled⟩ := Solver.iterate_within_work analysis body carrier le rank ranked edges laws _ _ proper oneSided enough
  obtain ⟨runs, done⟩ := Solver.iterate_runs analysis body _ _ last settled
  have lastProper := Solver.runs_proper analysis body edges carrier laws.toCarries _ last proper runs
  refine ⟨last.facts, ?_, lastProper.fits, Solver.within_of_proper analysis body carrier last lastProper,
    Solver.runs_greatest analysis body edges carrier le laws neutral _ queues last runs done⟩
  have solved : body.solveWithin (Solver.budget body) analysis (.initial analysis body) = .ok (last.facts, last.stats) := by
    rw [iterates, Solver.first, settled]
  rw [Body.analyze, Body.solve, solved]
  rfl

theorem Body.solved_bounds (body : Body) (analysis : Analysis φ) (carrier : φ → Prop) (le : φ → φ → Prop)
    (laws : analysis.Lawful body carrier le) (facts : BlockFacts φ) (solved : body.Solved analysis carrier le facts)
    (block : Block) (inside : body.blocks.contains block = true) :
    le (Solver.inflow analysis facts block) (Solver.start analysis body block) ∧
      (∀ source ∈ Solver.sources analysis body block,
        le (Solver.inflow analysis facts block) (Solver.outgoing analysis facts source)) ∧
      le (Solver.outgoing analysis facts block) (analysis.transfer block (Solver.inflow analysis facts block)) := by
  have outs := Solver.outgoing_within analysis carrier facts solved.within laws.init
  have inIn := Solver.inflow_within analysis carrier facts solved.within laws.init block
  have joinedIn := Solver.joined_carried analysis body carrier laws.toCarries _ outs block
  have below := ((laws.same_iff _ _ inIn joinedIn).mp (solved.greatest.solves.joins block inside)).1
  obtain ⟨first, each⟩ := Solver.joined_le analysis body carrier le laws _ outs block
  have startIn := Solver.start_carried analysis body carrier laws.toCarries block
  refine ⟨laws.trans _ _ _ inIn joinedIn startIn below first, fun source member => ?_, ?_⟩
  · exact laws.trans _ _ _ inIn joinedIn (outs source) below (each source member)
  · exact ((laws.same_iff _ _ (laws.transfer block _ inside inIn) (outs block)).mp (solved.greatest.solves.transfers block inside)).2

namespace Body

variable (body : Body) (accepted : body.check = .ok ())

theorem length_refs {entity : Entity} {α : Type} (arena : Arena entity α) : arena.refs.length = arena.size := by
  simp [Arena.refs]

theorem length_used_scope : body.usedScope.length ≤ 2 * body.cells.size := by
  have each (operation : Operation) : operation.usedVars.length ≤ 2 := by
    refine (List.length_filterMap_le _ _).trans ?_
    cases operation <;> simp [Operation.uses]
  have sum := List.sum_le_card_nsmul (body.cells.toList.map fun cell => cell.operation.usedVars.length) 2 fun count member => by
    obtain ⟨cell, _, same⟩ := List.mem_map.mp member
    exact same ▸ each cell.operation
  rw [usedScope, List.length_flatMap]
  simpa [Arena.toList, Arena.size, Nat.mul_comm] using sum

theorem length_defined_scope : body.definedScope.length ≤ body.cells.size :=
  (List.length_filterMap_le _ _).trans (by simp [Arena.toList, Arena.size])

include accepted

theorem dominators_solved : ∃ facts, body.Solved body.dominatorAnalysis (OrderedSet.Over body.blocks.refs)
    (Meet.le .intersection) facts := by
  have entry := (well_formed_of_check body accepted).entry
  refine analyze_total body _ accepted _ _ (dominator_lawful body entry body.blocks.refs fun _ member => member)
    (Solver.dominator_neutral body) (Meet.rank .intersection body.blocks.refs) (Meet.rank_lt body.blocks.refs .intersection)
    body.blocks.refs.length (Meet.rank_le body.blocks.refs .intersection) ?_
  rw [length_refs]
  omega

theorem liveness_solved : ∃ facts, body.Solved body.livenessAnalysis (OrderedSet.Over body.usedScope) (Meet.le .union) facts := by
  have laws := liveness_lawful body body.usedScope (mem_used_scope body)
  have neutral (fact : OrderedSet Var) (inScope : fact.Over body.usedScope) :
      body.livenessAnalysis.same (body.livenessAnalysis.merge body.livenessAnalysis.init fact).1 fact = true := by
    have merged := OrderedSet.mem_union .empty fact OrderedSet.sound_empty inScope.sound
    refine (OrderedSet.beq_iff _ fact (OrderedSet.sound_union _ fact OrderedSet.sound_empty inScope.sound) inScope.sound).mpr ?_
    exact fun var => (merged var).trans (or_iff_right List.not_mem_nil)
  have short := length_used_scope body
  exact analyze_total body _ accepted _ _ laws neutral (Meet.rank .union body.usedScope) (Meet.rank_lt body.usedScope .union)
    body.usedScope.length (Meet.rank_le body.usedScope .union) (by omega)

theorem copies_solved : ∃ copies facts, body.copies = .ok copies ∧ CopiesOf body body.layout copies ∧
    body.Solved (copies.analysis body) (OrderedSet.Over copies.all.toList) (Meet.le .intersection) facts := by
  have laid := (well_formed_of_check body accepted).laid
  obtain ⟨copies, found, copiesOf⟩ := copies_total body body.layout laid
  have sound : copies.all.Sound := copiesOf.all ▸ OrderedSet.sound_of_list _
  have laws := tracked_lawful body body.layout copies copiesOf
  have neutral (fact : OrderedSet Inst) (inScope : fact.Over copies.all.toList) :
      (copies.analysis body).same ((copies.analysis body).merge (copies.analysis body).init fact).1 fact = true := by
    have merged := OrderedSet.mem_inter copies.all fact sound inScope.sound
    refine (OrderedSet.beq_iff _ fact (OrderedSet.sound_inter _ fact sound) inScope.sound).mpr fun inst => ?_
    exact (merged inst).trans (and_iff_right_of_imp (inScope.inside inst))
  -- Copies are placed instructions, so there are no more of them than cells.
  have few : copies.all.toList.length ≤ body.cells.size := by
    rw [← length_refs]
    refine (List.subperm_of_subset (OrderedSet.nodup_to_list _ sound) fun inst member => ?_).length_le
    rw [copiesOf.all, OrderedSet.mem_of_list] at member
    obtain ⟨copy, inList, same⟩ := List.mem_map.mp member
    obtain ⟨block, placed⟩ := ((copiesOf.listed copy).mp inList).1
    obtain ⟨cell, present, _⟩ := laid.parents block copy.inst placed
    exact same ▸ (Arena.mem_refs_iff _ _).mpr (Arena.contains_of_get _ _ _ present)
  obtain ⟨facts, solved⟩ := analyze_total body (copies.analysis body) accepted _ _ laws neutral
    (Meet.rank .intersection copies.all.toList) (Meet.rank_lt copies.all.toList .intersection) copies.all.toList.length
    (Meet.rank_le copies.all.toList .intersection) (by omega)
  exact ⟨copies, facts, found, copiesOf, solved⟩

theorem constants_solved (pinned : OrderedSet Var) : ∃ facts,
    body.Solved (Constants.analysis pinned body) (Bindings.Over body.definedScope) Bindings.le facts := by
  have laws := Constants.lawful pinned body body.definedScope (mem_defined_scope body)
  have neutral (fact : ConstFact) (inScope : fact.Over body.definedScope) :
      (Constants.analysis pinned body).same
        ((Constants.analysis pinned body).merge (Constants.analysis pinned body).init fact).1 fact = true := by
    refine (Bindings.beq_iff body.definedScope _ fact (laws.merge _ fact laws.init inScope) inScope).mpr ?_
    have lower := laws.lower _ fact laws.init inScope
    exact ⟨lower.2, laws.greatest _ fact fact laws.init inScope inScope trivial (Bindings.le_refl fact)⟩
  have short := length_defined_scope body
  exact analyze_total body _ accepted _ _ laws neutral (Bindings.rank body.definedScope) (Bindings.rank_lt body.definedScope)
    (body.definedScope.length + 1) (Bindings.rank_le body.definedScope) (by omega)

end Body

end ThreeAddress
