import ThreeAddress.Proofs.Dataflow.Descent
import ThreeAddress.Proofs.Dataflow.SetFacts

/-!
The worklist finds the greatest solution of the equations of an analysis, in whatever order it takes the
blocks that wait.
-/

set_option autoImplicit false

namespace ThreeAddress.Solver

variable {φ : Type}

structure Solves (analysis : Analysis φ) (body : Body) (facts : BlockFacts φ) : Prop where
  joins : ∀ block, body.blocks.contains block = true →
    analysis.same (inflow analysis facts block) (joined analysis body (outgoing analysis facts) block) = true
  transfers : ∀ block, body.blocks.contains block = true →
    analysis.same (analysis.transfer block (inflow analysis facts block)) (outgoing analysis facts block) = true

section Solutions

variable (analysis : Analysis φ) (body : Body) (edges : body.EdgesAgree) (carrier : φ → Prop)
  (carries : analysis.Carries body carrier)

include carries in
theorem solves_of_settled (reflexive : ∀ fact, carrier fact → analysis.same fact fact = true) (state : State φ)
    (proper : Proper analysis body carrier state) (waiting : Waiting analysis body state) (done : state.queue = []) :
    Solves analysis body state.facts := by
  have settled (block : Block) (inside : body.blocks.contains block = true) : SettledAt analysis body state.facts block := by
    refine (waiting block inside).resolve_left ?_
    rw [done]
    exact List.not_mem_nil
  constructor
  · intro block inside
    rw [(settled block inside).1]
    exact reflexive _ (joined_carried analysis body carrier carries _ proper.outs block)
  · exact fun block inside => (settled block inside).2

variable (le : φ → φ → Prop) (laws : analysis.Lawful body carrier le)

include laws

theorem solution_stays (facts : BlockFacts φ) (within : Within facts carrier) (solves : Solves analysis body facts)
    (block : Block) (inside : body.blocks.contains block = true) :
    le (recomputed analysis body (outgoing analysis facts) block) (outgoing analysis facts block) ∧
      le (outgoing analysis facts block) (recomputed analysis body (outgoing analysis facts) block) := by
  have outs := outgoing_within analysis carrier facts within laws.init
  have inIn := inflow_within analysis carrier facts within laws.init block
  have joinedIn := joined_carried analysis body carrier laws.toCarries _ outs block
  have passedIn := laws.transfer block _ inside inIn
  have newIn := recomputed_carried analysis body carrier laws.toCarries _ outs block inside
  obtain ⟨down, up⟩ := (laws.same_iff _ _ inIn joinedIn).mp (solves.joins block inside)
  obtain ⟨outDown, outUp⟩ := (laws.same_iff _ _ passedIn (outs block)).mp (solves.transfers block inside)
  have passes := laws.monotone block _ _ inside joinedIn inIn up
  have returns := laws.monotone block _ _ inside inIn joinedIn down
  exact ⟨laws.trans _ _ _ newIn passedIn (outs block) passes outDown,
    laws.trans _ _ _ (outs block) passedIn newIn outUp returns⟩

include edges

-- Visits keep the facts above all that the equations do not lower, such as a solution.
theorem runs_above (low : Block → φ) (lowIn : ∀ block, carrier (low block))
    (rises : ∀ block, body.blocks.contains block = true → le (low block) (recomputed analysis body low block))
    (state last : State φ) (proper : Proper analysis body carrier state)
    (above : ∀ block, body.blocks.contains block = true → le (low block) (outgoing analysis state.facts block))
    (runs : Runs analysis body state last) (block : Block) (inside : body.blocks.contains block = true) :
    le (low block) (outgoing analysis last.facts block) := by
  induction runs generalizing block with
  | refl => exact above block inside
  | @tail middle last before visits ih =>
    have middleProper := runs_proper analysis body edges carrier laws.toCarries state middle proper before
    cases visits with
    | take front back visited facts stats =>
      have visitedInside := middleProper.queued visited (List.mem_append_right front List.mem_cons_self)
      cases (visit_visited analysis body visited ⟨front ++ back, facts, stats⟩ middleProper.fits visitedInside).outcome with
      | inl kept =>
        rw [kept.2.1]
        exact ih block inside
      | inr changed =>
        rw [changed.2.1]
        by_cases here : block = visited
        · rw [here, Function.update_self]
          have newIn := recomputed_carried analysis body carrier laws.toCarries _ middleProper.outs visited visitedInside
          have oldIn := recomputed_carried analysis body carrier laws.toCarries _ lowIn visited visitedInside
          have higher := recomputed_mono analysis body carrier le laws _ _ lowIn middleProper.outs visited visitedInside
            fun source member => ih source (sources_inside analysis body edges visited source member)
          exact laws.trans _ _ _ (lowIn visited) oldIn newIn (rises visited visitedInside) higher
        · rw [Function.update_of_ne here]
          exact ih block inside

end Solutions

structure Greatest (analysis : Analysis φ) (body : Body) (carrier : φ → Prop) (le : φ → φ → Prop)
    (facts : BlockFacts φ) : Prop where
  solves : Solves analysis body facts
  highest : ∀ other : BlockFacts φ, Within other carrier → Solves analysis body other →
    ∀ block, body.blocks.contains block = true →
      le (inflow analysis other block) (inflow analysis facts block) ∧
        le (outgoing analysis other block) (outgoing analysis facts block)

theorem within_of_proper (analysis : Analysis φ) (body : Body) (carrier : φ → Prop) (state : State φ)
    (proper : Proper analysis body carrier state) : Within state.facts carrier := by
  have outs := proper.outs
  have ins := proper.ins
  unfold outgoing at outs
  unfold inflow at ins
  cases direction : analysis.direction with
  | forward =>
    simp only [direction] at outs ins
    exact ⟨fun block fact found => by simpa [found] using ins block, fun block fact found => by simpa [found] using outs block⟩
  | backward =>
    simp only [direction] at outs ins
    exact ⟨fun block fact found => by simpa [found] using outs block, fun block fact found => by simpa [found] using ins block⟩

section Start

variable (analysis : Analysis φ) (body : Body) (edges : body.EdgesAgree) (carrier : φ → Prop) (le : φ → φ → Prop)
  (laws : analysis.Lawful body carrier le)

include laws in
theorem initial_proper (queue : List Block) (queues : Queues body queue) :
    Proper analysis body carrier ⟨queue, .initial analysis body, {}⟩ :=
  start_proper analysis body carrier laws.toCarries queue queues _ (initial_fits analysis body)
    (initial_within analysis body carrier laws.init) {}

variable (neutral : ∀ fact, carrier fact → analysis.same (analysis.merge analysis.init fact).1 fact = true)

include laws neutral

theorem le_init (fact : φ) (factIn : carrier fact) : le fact analysis.init := by
  have mergedIn := laws.merge _ fact laws.init factIn
  have up := ((laws.same_iff _ fact mergedIn factIn).mp (neutral fact factIn)).2
  exact laws.trans _ _ _ factIn mergedIn laws.init up (laws.lower _ fact laws.init factIn).1

theorem initial_one_sided : OneSided analysis body le (outgoing analysis (.initial analysis body)) := by
  intro block inside
  rw [(initial_slots analysis body).1]
  exact le_init analysis body carrier le laws neutral _
    (recomputed_carried analysis body carrier laws.toCarries _ (fun _ => laws.init) block inside)

include edges

theorem runs_greatest (queue : List Block) (queues : Queues body queue) (last : State φ)
    (runs : Runs analysis body ⟨queue, .initial analysis body, {}⟩ last) (done : last.queue = []) :
    Greatest analysis body carrier le last.facts := by
  have carries := laws.toCarries
  have reflexive := same_self analysis body carrier le (steers_down analysis body carrier le laws)
  have start := initial_proper analysis body carrier le laws queue queues
  have proper := runs_proper analysis body edges carrier carries _ last start runs
  have waiting := runs_waiting analysis body edges carrier carries reflexive _ last start
    (start_waiting analysis body queue queues _ {}) runs
  have solves := solves_of_settled analysis body carrier carries reflexive last proper waiting done
  refine ⟨solves, fun other within otherSolves block inside => ?_⟩
  have outs := outgoing_within analysis carrier other within laws.init
  have first (block : Block) (_ : body.blocks.contains block = true) :
      le (outgoing analysis other block) (outgoing analysis (.initial analysis body) block) := by
    rw [(initial_slots analysis body).1]
    exact le_init analysis body carrier le laws neutral _ (outs block)
  have stays := solution_stays analysis body carrier le laws other within otherSolves
  have below := runs_above analysis body edges carrier le laws (outgoing analysis other) outs
    (fun block inside => (stays block inside).2) _ last start first runs
  have inIn := inflow_within analysis carrier other within laws.init block
  have joinedIn := joined_carried analysis body carrier carries _ outs block
  have lastJoinedIn := joined_carried analysis body carrier carries _ proper.outs block
  have joins := ((laws.same_iff _ _ inIn joinedIn).mp (otherSolves.joins block inside)).1
  have lastJoins := ((laws.same_iff _ _ (proper.ins block) lastJoinedIn).mp (solves.joins block inside)).2
  have rises := joined_mono analysis body carrier le laws _ _ outs proper.outs block
    fun source member => below source (sources_inside analysis body edges block source member)
  have joinedBelow := laws.trans _ _ _ joinedIn lastJoinedIn (proper.ins block) rises lastJoins
  exact ⟨laws.trans _ _ _ inIn joinedIn (proper.ins block) joins joinedBelow, below block inside⟩

end Start

theorem dominator_neutral (body : Body) (fact : OrderedSet Block) (inScope : fact.Over body.blocks.refs) :
    body.dominatorAnalysis.same (body.dominatorAnalysis.merge body.dominatorAnalysis.init fact).1 fact = true := by
  have merged := OrderedSet.mem_inter body.allBlocks fact (Body.sound_all_blocks body) inScope.sound
  refine (OrderedSet.beq_iff _ fact (OrderedSet.sound_inter _ fact (Body.sound_all_blocks body)) inScope.sound).mpr ?_
  intro block
  refine (merged block).trans (and_iff_right_of_imp fun member => ?_)
  exact (Body.mem_all_blocks body block).mpr ((Arena.mem_refs_iff _ _).mp (inScope.inside block member))

-- A block that loops on itself, entered from the entry and from a block that nothing leads to.
def spin : Body where
  name := "spin"
  entry := .nth 0
  blocks := .ofList [{ succs := [.nth 1] }, { succs := [.nth 1], preds := [.nth 0, .nth 1, .nth 2] }, { succs := [.nth 1] }]
  cells := .empty
  vars := .empty

end ThreeAddress.Solver
