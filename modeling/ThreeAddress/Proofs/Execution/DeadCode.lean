import ThreeAddress.Proofs.Execution.Rewrites
import ThreeAddress.Proofs.Optimizer.DeadCode

/-!
Dead code elimination changes no trace: machines that agree on what is live stay so, whether or not they run the
instructions that are removed.
-/

set_option autoImplicit false

namespace ThreeAddress

namespace Liveness

def through (code : List (Inst × Operation)) (live : OrderedSet Var) : OrderedSet Var :=
  code.foldl (fun live (inst, operation) => step inst operation live) live

end Liveness

section Sweep

variable (around : Surroundings) (pinned : OrderedSet Var)

theorem dead_defines (live : OrderedSet Var) (operation : Operation) (dead : Body.isDead pinned live operation = true) :
    ∃ dst, operation.def? = some dst ∧ live.contains dst = false ∧ operation.canTrap = false := by
  rw [Body.isDead] at dead
  cases defines : operation.def? with
  | none =>
    rw [defines] at dead
    cases dead
  | some dst =>
    simp only [defines, Bool.and_eq_true, Bool.not_eq_true'] at dead
    obtain ⟨⟨⟨_, safe⟩, unread⟩, _⟩ := dead
    exact ⟨dst, rfl, unread, safe⟩

theorem dead_step (operation : Operation) (computes : operation.isComputation = true) (safe : operation.canTrap = false)
    (machine : Machine) : ∃ after, machine.step around operation = ([], some after) ∧ after.asked = machine.asked ∧
      ∀ var, operation.def? ≠ some var → after.env var = machine.env var := by
  have went := Machine.step_of_not_can_trap around machine operation safe
  have unclobbered : operation.clobbersMemory = false := by cases operation <;> first | rfl | cases computes
  obtain ⟨after, steps, asked⟩ : ∃ after, machine.step around operation = ([], some after) ∧ after.asked = machine.asked := by
    cases operation with
    | binary op place lhs rhs =>
      simp only [Machine.step] at went ⊢
      split at went
      · exact ⟨_, rfl, rfl⟩
      · cases went
    | assign _ _ | unary _ _ _ | addrOf _ _ => exact ⟨_, rfl, rfl⟩
    | _ => cases computes
  refine ⟨after, steps, asked, fun var unwritten => ?_⟩
  apply Machine.step_elsewhere around machine after operation (by rw [steps]) var unwritten
  intro clobbers
  rw [unclobbered] at clobbers
  cases clobbers

section Last

variable (inst : Inst) (operation : Operation) (live : OrderedSet Var) (sound : live.Sound) (front : List Operation)
  (a b : Machine)

include sound

theorem kept_alike (kept : List Operation)
    (alike : Alike (Machine.AgreeOn (· ∈ (Liveness.step inst operation live).toList)) (a.run around front) (b.run around kept)) :
    Alike (Machine.AgreeOn (· ∈ live.toList)) (a.run around (front ++ [operation])) (b.run around (kept ++ [operation])) := by
  rw [Machine.run_front_back, Machine.run_front_back]
  refine alike_and_then _ _ _ _ alike _ _ fun a b agree => ?_
  rw [Machine.run_one, Machine.run_one]
  have reads : ∀ var ∈ operation.usedVars, var ∈ (Liveness.step inst operation live).toList :=
    fun var used => (Liveness.mem_step inst operation live sound var).mpr (.inl used)
  refine alike_mono _ _ _ _ (Machine.step_agree around _ a b agree operation reads) fun a b agree => ?_
  refine Machine.agree_mono _ _ a b agree fun var member => ?_
  by_cases defines : operation.def? = some var
  · exact .inr defines
  · exact .inl ((Liveness.mem_step inst operation live sound var).mpr (.inr ⟨defines, member⟩))

theorem dropped_alike (dead : Body.isDead pinned live operation = true) (kept : List Operation)
    (alike : Alike (Machine.AgreeOn (· ∈ live.toList)) (a.run around front) (b.run around kept)) :
    Alike (Machine.AgreeOn (· ∈ live.toList)) (a.run around (front ++ [operation])) (b.run around kept) := by
  obtain ⟨dst, defines, unread, safe⟩ := dead_defines pinned live operation dead
  have computes := Body.is_dead_is_computation pinned live operation dead
  rw [Machine.run_front_back, ← and_then_nothing (b.run around kept)]
  refine alike_and_then _ _ _ _ alike _ _ fun a b agree => ?_
  obtain ⟨after, went, asked, elsewhere⟩ := dead_step around operation computes safe a
  rw [Machine.run_one, went]
  refine .on [] after b ⟨asked.trans agree.asked, fun var member => ?_⟩
  rw [elsewhere var fun same => ?_]
  · exact agree.env var member
  · rw [defines] at same
    exact (OrderedSet.contains_eq_false_iff live sound dst).mp unread (Option.some.inj same ▸ member)

theorem dead_subset (dead : Body.isDead pinned live operation = true) : live.Subset (Liveness.step inst operation live) := by
  obtain ⟨dst, defines, unread, _⟩ := dead_defines pinned live operation dead
  intro var member
  refine (Liveness.mem_step inst operation live sound var).mpr (.inr ⟨fun same => ?_, member⟩)
  rw [defines] at same
  exact (OrderedSet.contains_eq_false_iff live sound dst).mp unread (Option.some.inj same ▸ member)

end Last

def leftCode (code : List (Inst × Operation)) (gone : List Inst) : List Operation :=
  (code.reverse.filter fun entry => !gone.contains entry.1).map Prod.snd

theorem left_code_kept (inst : Inst) (operation : Operation) (rest : List (Inst × Operation)) (gone : List Inst)
    (stays : inst ∉ gone) : leftCode ((inst, operation) :: rest) gone = leftCode rest gone ++ [operation] := by
  rw [leftCode, List.reverse_cons, List.filter_append, List.map_append, List.filter_cons_of_pos (by simpa using stays)]
  rfl

theorem left_code_dropped (inst : Inst) (operation : Operation) (rest : List (Inst × Operation)) (gone : List Inst)
    (fresh : inst ∉ rest.map Prod.fst) : leftCode ((inst, operation) :: rest) (inst :: gone) = leftCode rest gone := by
  rw [leftCode, List.reverse_cons, List.filter_append, List.filter_cons_of_neg (by simp), List.filter_nil, List.append_nil]
  refine congrArg (List.map Prod.snd) (List.filter_congr fun entry member => ?_)
  have different : entry.1 ≠ inst := fun same => fresh (List.mem_map.mpr ⟨entry, List.mem_reverse.mp member, same⟩)
  simp [different]

theorem swept_dead_fresh (inst : Inst) (live : OrderedSet Var) (fuel : Fuel) (rest : List (Inst × Operation))
    (fresh : inst ∉ rest.map Prod.fst) : inst ∉ (Body.sweptDead pinned live fuel rest).2 := by
  intro gone
  obtain ⟨found, member, _⟩ := Body.swept_dead_mem _ _ _ _ inst gone
  exact fresh (List.mem_map.mpr ⟨_, member, rfl⟩)

theorem swept_alike (code : List (Inst × Operation)) (once : (code.map Prod.fst).Nodup) (live : OrderedSet Var) (sound : live.Sound)
    (fuel : Fuel) (a b : Machine) (agree : Machine.AgreeOn (· ∈ (Liveness.through code live).toList) a b) :
    Alike (Machine.AgreeOn (· ∈ live.toList)) (a.run around (code.reverse.map Prod.snd))
      (b.run around (leftCode code (Body.sweptDead pinned live fuel code).2)) := by
  -- From the last instruction back, so that what is left out was dead where it stood.
  induction code generalizing live fuel with
  | nil => exact .on [] a b agree
  | cons first rest ih =>
    obtain ⟨inst, operation⟩ := first
    obtain ⟨fresh, restOnce⟩ := List.nodup_cons.mp once
    have before := Liveness.sound_step inst operation live sound
    rw [List.reverse_cons, List.map_append]
    have kept (paid : Fuel) : Alike (Machine.AgreeOn (· ∈ live.toList)) (a.run around (rest.reverse.map Prod.snd ++ [operation]))
        (b.run around (leftCode ((inst, operation) :: rest)
          (Body.sweptDead pinned (Liveness.step inst operation live) paid rest).2)) := by
      rw [left_code_kept inst operation rest _ (swept_dead_fresh pinned inst _ paid rest fresh)]
      exact kept_alike around inst operation live sound _ a b _ (ih restOnce _ before paid agree)
    by_cases dead : Body.isDead pinned live operation = true
    · by_cases granted : fuel.consume.1 = true
      · have less := Machine.agree_mono _ _ a b agree
          (Liveness.elementwise.fold_mono rest live _ sound before (dead_subset pinned inst operation live sound dead))
        have gone : (Body.sweptDead pinned live fuel ((inst, operation) :: rest)).2 =
            inst :: (Body.sweptDead pinned live fuel.consume.2 rest).2 := by
          simp only [Body.sweptDead, dead, granted, if_true]
        rw [gone, left_code_dropped inst operation rest _ fresh]
        exact dropped_alike around pinned operation live sound _ a b dead _ (ih restOnce live sound fuel.consume.2 less)
      · simp only [Body.sweptDead, dead, granted]
        exact kept fuel.consume.2
    · simp only [Body.sweptDead, dead]
      exact kept fuel

end Sweep

namespace Body

theorem swept_traces (body : Body) (accepted : body.check = .ok ()) (around : Surroundings) (pinned : OrderedSet Var)
    (order : FlowOrder) (describes : order.Describes body) (facts : BlockFacts (OrderedSet Var))
    (solved : body.Solved body.livenessAnalysis (OrderedSet.Over body.usedScope) (Meet.le .union) facts) (other : Body)
    (gone : Block → List Inst) (sweep : Swept pinned order facts body other gone) : body.TracesAs other around := by
  have wellFormed := well_formed_of_check body accepted
  have laid := wellFormed.laid
  have laws := liveness_lawful body body.usedScope (mem_used_scope body)
  have flows := Solver.inflow_within body.livenessAnalysis _ facts solved.within laws.init
  have bounds := solved_bounds body _ _ _ laws facts solved
  apply traces_of_simulation body other around
    fun block a b => Machine.AgreeOn (· ∈ (Solver.outgoing body.livenessAnalysis facts block).toList) a b
  · intro block reached a b agree
    have inside := reaches_inside body wellFormed.edges body.entry block wellFormed.entry reached
    obtain ⟨_, _, passes⟩ := bounds block inside
    obtain ⟨given, chosen⟩ := sweep.chosen block inside
    rw [swept, (describes.reachable block inside).mpr reached, if_pos rfl] at chosen
    have code : other.code block = (body.code block).filter fun entry => !(gone block).contains entry.1 := by
      have filtered := code_of_filter body (body.layout block) fun inst => !(gone block).contains inst
      rw [code_laid other _ sweep.laid, code_laid body body.layout laid]
      exact (code_of_congr body other _ fun inst _ => congrFun sweep.operations inst).trans filtered
    have once : ((body.code block).reverse.map Prod.fst).Nodup := by
      rw [List.map_reverse, List.nodup_reverse, code_laid body body.layout laid]
      exact (code_of_sublist body _).nodup (nodup_layout body body.layout laid block)
    have through : body.livenessAnalysis.transfer block (Solver.inflow body.livenessAnalysis facts block) =
        Liveness.through (body.code block).reverse (facts.liveOut block) := by
      rw [← code_rev_laid body laid block inside]
      rfl
    rw [through] at passes
    have alike := swept_alike around pinned (body.code block).reverse once (facts.liveOut block) (flows block).sound given a b
      (Machine.agree_mono _ _ a b agree passes)
    rw [← chosen, leftCode, List.reverse_reverse, ← code] at alike
    refine alike_mono _ _ _ _ alike fun a b agree succ edge => ?_
    exact Machine.agree_mono _ _ a b agree ((bounds block inside).2.1 succ edge)
  · exact fun machine => ⟨rfl, fun _ _ => rfl⟩

-- Dead code elimination changes nothing that a run shows, whatever stores and calls overwrite. It only takes instructions
-- away, as many as it counts, and never a label.
theorem dead_code_removal_preserves_traces (body : Body) (accepted : body.check = .ok ()) (unmarked : body.Unmarked) (fuel : Fuel) :
    ∃ tally cleaned before after, body.removeDeadCode fuel = .ok (tally, cleaned) ∧
      (∀ around : Surroundings, body.TracesAs cleaned around) ∧ body.SameFrame cleaned ∧ cleaned.operation? = body.operation? ∧
      (∀ block, (cleaned.layout block).filter cleaned.isLabelAt = (body.layout block).filter body.isLabelAt) ∧
      body.placed = .ok before ∧ cleaned.placed = .ok after ∧ after.Sublist before ∧
      tally.count = (before.filter fun inst => !after.contains inst).length := by
  obtain ⟨pinned, order, facts, tally, cleaned, gone, _, describes, solved, done, sweep, count⟩ :=
    remove_dead_code_sweeps body accepted unmarked fuel
  have laid := (well_formed_of_check body accepted).laid
  obtain ⟨before, after, placed, placedAfter, sublist, lost⟩ := swept_placed pinned order facts body cleaned laid gone sweep
  obtain ⟨_, _, again, _, _, keeps⟩ := remove_dead_code_keeps body accepted unmarked fuel
  cases done.symm.trans again
  refine ⟨tally, cleaned, before, after, done, fun around => ?_, sweep.frame, sweep.operations, keeps.labels, placed, placedAfter,
    sublist, ?_⟩
  · exact swept_traces body accepted around pinned order describes facts solved cleaned gone sweep
  · rw [count, lost]

-- A chain that nothing reads, a quotient that may trap, and a block that nothing leads to.
def leaving : Body where
  name := "leaving"
  entry := .nth 0
  blocks := .ofList [{ chain := ⟨.nth 0, .nth 4, 5⟩ }, { chain := ⟨.nth 5, .nth 7, 3⟩ }]
  cells := .ofList [
    { operation := .param (.nth 0), block := .nth 0, next := .nth 1 },
    { operation := .binary .add (.nth 1) (.var (.nth 0)) (.lit 1), block := .nth 0, prev := .nth 0, next := .nth 2 },
    { operation := .assign (.nth 2) (.var (.nth 1)), block := .nth 0, prev := .nth 1, next := .nth 3 },
    { operation := .binary .div (.nth 3) (.lit 1) (.var (.nth 0)), block := .nth 0, prev := .nth 2, next := .nth 4 },
    { operation := .ret (.var (.nth 0)), block := .nth 0, prev := .nth 3 },
    { operation := .label, block := .nth 1, next := .nth 6 },
    { operation := .write (.var (.nth 0)), block := .nth 1, prev := .nth 5, next := .nth 7 },
    { operation := .ret (.var (.nth 0)), block := .nth 1, prev := .nth 6 }]
  vars := .ofList [some "a", some "x", some "y", some "z"]

theorem leaving_removes_dead_code : leaving.check = .ok () ∧ leaving.Unmarked ∧
    ∃ tally cleaned, leaving.removeDeadCode .infinite = .ok (tally, cleaned) ∧ tally.count = 4 ∧
      cleaned.layout (.nth 0) = [.nth 0, .nth 3, .nth 4] ∧ cleaned.layout (.nth 1) = [.nth 5] ∧
      ∀ around : Surroundings, leaving.TracesAs cleaned around := by
  have accepted : leaving.check = .ok () := by rfl
  have unmarked : leaving.Unmarked := unmarked_of_cells leaving (by decide)
  obtain ⟨tally, cleaned, _, _, done, traces, _⟩ := dead_code_removal_preserves_traces leaving accepted unmarked .infinite
  have swept : (leaving.removeDeadCode .infinite).toOption.map
      (fun after => (after.1.count, after.2.layout (.nth 0), after.2.layout (.nth 1))) =
      some (4, [.nth 0, .nth 3, .nth 4], [.nth 5]) := by decide +kernel
  rw [done] at swept
  obtain ⟨count, rest⟩ := Prod.mk.inj (Option.some.inj swept)
  obtain ⟨entry, unreached⟩ := Prod.mk.inj rest
  exact ⟨accepted, unmarked, tally, cleaned, done, count, entry, unreached, traces⟩

end Body

end ThreeAddress
