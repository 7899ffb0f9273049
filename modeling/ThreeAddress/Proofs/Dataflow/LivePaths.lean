import ThreeAddress.Proofs.Dataflow.PathFacts

/-!
What liveness means: a variable is live where a block begins just if some path from there reads it before writing it.
This holds for blocks that are not reached as well.
-/

set_option autoImplicit false

namespace ThreeAddress

namespace Body

def ReadAhead (body : Body) (block : Block) (var : Var) : Prop :=
  ∃ path target, Path body block path target ∧ ∃ front entry back, body.codeAlong path = front ++ entry :: back ∧
    var ∈ entry.2.usedVars ∧ ∀ earlier ∈ front, earlier.2.def? ≠ some var

theorem liveness_may (body : Body) (accepted : body.check = .ok ()) (facts : BlockFacts (OrderedSet Var))
    (found : body.liveness = .ok facts) : Solver.May body.livenessAnalysis body (fun entry var => var ∈ entry.2.usedVars)
      (fun entry var => entry.2.def? ≠ some var) body.usedScope facts where
  accepted := accepted
  backward := rfl
  merges := rfl
  init := rfl
  boundary := rfl
  transfer := by
    intro block inside set sound var
    have laid := (well_formed_of_check body accepted).laid
    rw [← code_rev_laid body laid block inside]
    exact Liveness.elementwise.mem_fold (body.codeRev block) set sound var
  laws := liveness_lawful body body.usedScope (mem_used_scope body)
  answers := Solver.answers_of_analyze _ body _ _ (liveness_lawful body body.usedScope (mem_used_scope body)) facts found

theorem mem_live_in (body : Body) (accepted : body.check = .ok ()) (facts : BlockFacts (OrderedSet Var))
    (found : body.liveness = .ok facts) (block : Block) (inside : body.blocks.contains block = true) (var : Var) :
    var ∈ (facts.liveIn block).toList ↔ body.ReadAhead block var := by
  have ahead := (liveness_may body accepted facts found).mem_outgoing block inside var
  simp only [BroughtAhead, brought_reverse] at ahead
  rw [ReadAhead]
  exact ahead

theorem liveness_is_exact (body : Body) (accepted : body.check = .ok ()) : ∃ facts, body.liveness = .ok facts ∧
    ∀ block, body.blocks.contains block = true → ∀ var,
      (var ∈ (facts.liveIn block).toList ↔ body.ReadAhead block var) ∧
        (var ∈ (facts.liveOut block).toList ↔ ∃ succ ∈ body.succs block, var ∈ (facts.liveIn succ).toList) := by
  obtain ⟨facts, solved⟩ := liveness_solved body accepted
  have may := liveness_may body accepted facts solved.found
  exact ⟨facts, solved.found, fun block inside var =>
    ⟨mem_live_in body accepted facts solved.found block inside var, may.mem_inflow block inside var⟩⟩

-- A loop that counts up to what is read first, and a block that is not reached and leads into the loop.
def ticking : Body where
  name := "ticking"
  entry := .nth 0
  blocks := .ofList [
    { chain := ⟨.nth 0, .nth 1, 2⟩, succs := [.nth 1] },
    { chain := ⟨.nth 2, .nth 4, 3⟩, succs := [.nth 2, .nth 1], preds := [.nth 0, .nth 1, .nth 3] },
    { chain := ⟨.nth 5, .nth 5, 1⟩, preds := [.nth 1] },
    { chain := ⟨.nth 6, .nth 6, 1⟩, succs := [.nth 1] }]
  cells := .ofList [
    { operation := .read (.nth 0), block := .nth 0, next := .nth 1 },
    { operation := .assign (.nth 1) (.lit 0), block := .nth 0, prev := .nth 0 },
    { operation := .label, block := .nth 1, next := .nth 3 },
    { operation := .binary .add (.nth 1) (.var (.nth 1)) (.lit 1), block := .nth 1, prev := .nth 2, next := .nth 4 },
    { operation := .branch .lt (.var (.nth 1)) (.var (.nth 0)) (.nth 2), block := .nth 1, prev := .nth 3 },
    { operation := .write (.var (.nth 1)), block := .nth 2 },
    { operation := .assign (.nth 1) (.var (.nth 0)), block := .nth 3 }]
  vars := .ofList [some "n", some "i"]

-- The counter is both read and written by the addition, which counts as a read first.
theorem ticking_liveness_exact : ticking.check = .ok () ∧ ∃ facts, ticking.liveness = .ok facts ∧
    (facts.liveIn (.nth 1)).toList = [.nth 0, .nth 1] ∧ ticking.ReadAhead (.nth 1) (.nth 1) ∧
    (facts.liveOut (.nth 3)).toList = [.nth 0, .nth 1] ∧ (facts.liveIn (.nth 3)).toList = [.nth 0] ∧
    ticking.ReadAhead (.nth 3) (.nth 0) ∧ ¬ ticking.ReadAhead (.nth 3) (.nth 1) ∧ ¬ ticking.ReadAhead (.nth 0) (.nth 0) := by
  have accepted : ticking.check = .ok () := by rfl
  obtain ⟨facts, found, exactly⟩ := liveness_is_exact ticking accepted
  have computed : ticking.liveness.toOption.map (fun facts =>
      ((facts.liveIn (.nth 0)).toList, (facts.liveIn (.nth 1)).toList, (facts.liveOut (.nth 3)).toList, (facts.liveIn (.nth 3)).toList)) =
      some ([], [.nth 0, .nth 1], [.nth 0, .nth 1], [.nth 0]) := by decide +kernel
  rw [found] at computed
  obtain ⟨entry, rest⟩ := Prod.mk.inj (Option.some.inj computed)
  obtain ⟨header, rest⟩ := Prod.mk.inj rest
  obtain ⟨leaving, entering⟩ := Prod.mk.inj rest
  have live (block : Block) (inside : ticking.blocks.contains block = true) (var : Var) := (exactly block inside var).1
  refine ⟨accepted, facts, found, header, (live (.nth 1) rfl (.nth 1)).mp ?_, leaving, entering, (live (.nth 3) rfl (.nth 0)).mp ?_,
    mt (live (.nth 3) rfl (.nth 1)).mpr ?_, mt (live (.nth 0) rfl (.nth 0)).mpr ?_⟩
  · rw [header]
    decide
  · rw [entering]
    decide
  · rw [entering]
    decide
  · rw [entry]
    decide

end Body

end ThreeAddress
