import ThreeAddress.Proofs.Dataflow.Unreached

/-!
The constants tell which blocks are reached. Some bindings come in at the entry, no operation takes bindings for top, and
a meet with known bindings is known, so along every path from the entry something is known. Where no path leads, top
solves the equations, and nothing is higher.
-/

set_option autoImplicit false

namespace ThreeAddress

theorem Bindings.is_top_of_le {κ ν : Type} (low high : Bindings κ ν) (less : le low high) (known : high.isTop = false) :
    low.isTop = false := by
  cases high with
  | top => cases known
  | known map =>
    cases low with
    | top => exact less.elim
    | known other => rfl

namespace Body

theorem alike_refl (body : Body) : body.ReachedAlike body where
  entry := rfl
  size := rfl
  edges := fun _ _ => .rfl
  layout := fun _ _ => rfl
  operations := fun _ _ _ _ => rfl
  memory := fun pinned others taken otherTaken => by rw [Except.ok.inj (taken.symm.trans otherTaken)]

section Reached

variable (body : Body) (accepted : body.check = .ok ()) (pinned : OrderedSet Var) (facts : BlockFacts ConstFact)
  (answers : Solver.Answers (Constants.analysis pinned body) body Bindings.Sound Bindings.le facts)

include accepted answers

theorem known_onward (source target : Block) (path : List Block) (leads : Path body source path target)
    (inside : body.blocks.contains source = true)
    (known : (Solver.inflow (Constants.analysis pinned body) facts source).isTop = false) :
    (Solver.inflow (Constants.analysis pinned body) facts target).isTop = false := by
  have edges := (well_formed_of_check body accepted).edges
  have laws := Constants.sound_lawful pinned body
  have bounds := Solver.answers_bounds _ body _ _ laws facts answers
  induction leads with
  | here => exact known
  | step source succ target path edge _ ih =>
    have succInside := edges.succInside source succ edge
    have passed := (Constants.is_top_transfer pinned body source _).trans known
    have leaves := Bindings.is_top_of_le _ _ (bounds source inside).2.2 passed
    have enters := (bounds succ succInside).2.1 source ((edges_mem_iff body edges source succ).mp edge)
    exact ih succInside (Bindings.is_top_of_le _ _ enters leaves)

theorem outgoing_top (block : Block) (inside : body.blocks.contains block = true)
    (away : ¬ body.Reaches body.entry block) : Solver.outgoing (Constants.analysis pinned body) facts block = .top := by
  have laws := Constants.sound_lawful pinned body
  -- The solution itself where a block is reached and top elsewhere is not lowered by the equations.
  have brought := constants_carried body body (alike_refl body) accepted accepted pinned pinned rfl facts answers
  have rises := Solver.carried_rises body body (alike_refl body) accepted accepted (Constants.analysis pinned body)
    (Constants.analysis pinned body) rfl _ _ laws laws facts answers _ _ brought
  have higher := answers.above _ brought.carried brought.bounded rises block inside
  rw [fill_unreached_elsewhere body _ _ block away] at higher
  cases out : Solver.outgoing (Constants.analysis pinned body) facts block with
  | top => rfl
  | known map =>
    rw [out] at higher
    exact higher.elim

theorem inflow_top (block : Block) (inside : body.blocks.contains block = true)
    (away : ¬ body.Reaches body.entry block) : Solver.inflow (Constants.analysis pinned body) facts block = .top := by
  have edges := (well_formed_of_check body accepted).edges
  have inner : block ≠ body.entry := fun same => away (same ▸ reaches_self body body.entry)
  rw [(answers.settled block inside).1]
  refine Constants.joined_top pinned body _ block inner fun pred edge => ?_
  exact outgoing_top body accepted pinned facts answers pred (edges.predInside block pred edge)
    (unreached_preds body accepted block pred away edge)

theorem inflow_known (block : Block) (reached : body.Reaches body.entry block) :
    (Solver.inflow (Constants.analysis pinned body) facts block).isTop = false := by
  obtain ⟨path, leads⟩ := reached
  have entry := (well_formed_of_check body accepted).entry
  have laws := Constants.sound_lawful pinned body
  have first := (Solver.answers_bounds _ body _ _ laws facts answers body.entry entry).1
  have starts : Solver.start (Constants.analysis pinned body) body body.entry = .nothing := if_pos rfl
  rw [starts] at first
  exact known_onward body accepted pinned facts answers body.entry block path leads entry
    (Bindings.is_top_of_le _ _ first rfl)

end Reached

-- A block that no path leads to has top at its entry, and the search from the entry does not come to it; and of any
-- other block neither is so.
theorem tests_of_reachability_agree (body : Body) (accepted : body.check = .ok ()) :
    ∃ analysis facts order, body.constantAnalysis = .ok analysis ∧ body.analyze analysis = .ok facts ∧
      body.flowOrder = .ok order ∧ ∀ block, body.blocks.contains block = true →
        ∃ fact, facts.atEntry.get? block = some fact ∧
          (fact.isTop = true ↔ order.isReachable block = false) ∧
          (order.isReachable block = false ↔ ¬ body.Reaches body.entry block) := by
  have wellFormed := well_formed_of_check body accepted
  obtain ⟨pinned, taken, _⟩ := address_taken_total body body.layout wellFormed.laid
  obtain ⟨facts, solved⟩ := constants_solved body accepted pinned
  obtain ⟨order, ordered, describes⟩ := flow_order_total body wellFormed.edges wellFormed.entry
  have answers := Solver.answers_of_analyze _ body _ _ (Constants.sound_lawful pinned body) facts solved.found
  refine ⟨Constants.analysis pinned body, facts, order, ?_, solved.found, ordered, fun block inside => ?_⟩
  · rw [constantAnalysis, taken]
    rfl
  · have searched : order.isReachable block = false ↔ ¬ body.Reaches body.entry block := by
      rw [← describes.reachable block inside, Bool.not_eq_true]
    obtain ⟨fact, found⟩ := (Arena.contains_iff facts.atEntry block).mp
      ((Arena.contains_of_size _ _ answers.fits.entries block).trans inside)
    have here : Solver.inflow (Constants.analysis pinned body) facts block = fact := congrArg (Option.getD · Bindings.top) found
    refine ⟨fact, found, ?_, searched⟩
    rw [searched, ← here]
    constructor
    · intro top reached
      rw [inflow_known body accepted pinned facts answers block reached] at top
      cases top
    · intro away
      rw [inflow_top body accepted pinned facts answers block inside away]
      rfl

-- Two blocks that nothing else leads to go round and into the end of a loop; one of them writes a constant, and then calls.
def stranded : Body where
  name := "stranded"
  entry := .nth 0
  blocks := .ofList [
    { chain := ⟨.nth 0, .nth 0, 1⟩, succs := [.nth 1] },
    { succs := [.nth 1], preds := [.nth 0, .nth 1, .nth 3] },
    { chain := ⟨.nth 1, .nth 3, 3⟩, succs := [.nth 3], preds := [.nth 3] },
    { succs := [.nth 2, .nth 1], preds := [.nth 2] }]
  cells := .ofList [
    { operation := .assign (.nth 0) (.lit 4), block := .nth 0 },
    { operation := .assign (.nth 0) (.lit 5), block := .nth 2, next := .nth 2 },
    { operation := .addrOf (.nth 1) (.nth 0), block := .nth 2, prev := .nth 1, next := .nth 3 },
    { operation := .call (.nth 1) "f", block := .nth 2, prev := .nth 2 }]
  vars := .ofList [some "x", some "p"]

theorem stranded_tests_agree : stranded.check = .ok () ∧ ∃ analysis facts order,
    stranded.constantAnalysis = .ok analysis ∧ stranded.analyze analysis = .ok facts ∧ stranded.flowOrder = .ok order ∧
    (∃ fact, facts.atEntry.get? (.nth 1) = some fact ∧ fact.isTop = false ∧ order.isReachable (.nth 1) = true) ∧
    ∃ fact, facts.atEntry.get? (.nth 3) = some fact ∧ fact.isTop = true ∧ order.isReachable (.nth 3) = false := by
  have accepted : stranded.check = .ok () := by rfl
  obtain ⟨analysis, facts, order, made, solved, ordered, agree⟩ := tests_of_reachability_agree stranded accepted
  have searched : stranded.flowOrder.toOption.map (fun order => (order.isReachable (.nth 1), order.isReachable (.nth 3))) =
      some (true, false) := by decide +kernel
  rw [ordered] at searched
  obtain ⟨loop, cycle⟩ := Prod.mk.inj (Option.some.inj searched)
  obtain ⟨low, lowFound, lowTop, _⟩ := agree (.nth 1) rfl
  obtain ⟨high, highFound, highTop, _⟩ := agree (.nth 3) rfl
  refine ⟨accepted, analysis, facts, order, made, solved, ordered, ⟨low, lowFound, ?_, loop⟩, high, highFound,
    highTop.mpr cycle, cycle⟩
  rw [loop] at lowTop
  exact Bool.eq_false_iff.mpr (mt lowTop.mp Bool.noConfusion)

end Body

end ThreeAddress
