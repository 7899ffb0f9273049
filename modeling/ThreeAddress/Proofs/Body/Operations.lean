import ThreeAddress.Proofs.Body.Construction

/-!
What edits do to the operations of a body. Placing, moving, marking and removing change none; a new instruction brings
one more; and resolving a list of jumps changes where these go.
-/

set_option autoImplicit false

namespace ThreeAddress

namespace Body

theorem arranged_operations (body other : Body) (linked : body.WellLinked) (edit : Edit) (arranges : edit.Arranges)
    (allowed : edit.Allowed body) (done : edit.apply body = .ok other) : other.operation? = body.operation? := by
  rcases arranged_outcome body linked edit arranges allowed with ⟨same, again, _, operations⟩ | full
  · cases done.symm.trans again
    exact operations
  · cases done.symm.trans full

theorem add_inst_outcome (body other : Body) (operation : Operation) (inst : Inst)
    (added : body.addInst operation = .ok (inst, other)) :
    inst = .nth body.cells.size ∧ body.operation? inst = none ∧ ∀ elsewhere, other.operation? elsewhere =
      if elsewhere = inst then some operation else body.operation? elsewhere := by
  obtain ⟨⟨fresh, cells⟩, pushed, made⟩ := (bind_ok_iff _ _ _).mp added
  cases made
  have reads (elsewhere : Inst) := Arena.get_push body.cells cells inst elsewhere _ pushed
  obtain ⟨ref, next, placed⟩ := (bind_ok_iff _ _ _).mp pushed
  cases placed
  rw [Ref.ofIndex] at next
  split at next
  · cases next
    refine ⟨rfl, congrArg (Option.map Cell.operation) Array.getElem?_size, fun elsewhere => ?_⟩
    rw [Body.operation?, reads]
    split <;> rfl
  · cases next

section Retargeting

variable (body : Body)

theorem operation_ok (inst : Inst) (operation : Operation) (known : body.operation? inst = some operation) :
    body.operation inst = .ok operation := by
  obtain ⟨cell, found, same⟩ := Option.map_eq_some_iff.mp known
  rw [Body.operation, Arena.get_of_get _ _ _ found, ← same]
  rfl

theorem patch_all_outcome (linked : body.WellLinked) (label : Inst) (jumps : List Inst) (once : jumps.Nodup)
    (jumping : ∀ jump ∈ jumps, ((body.operation? jump).bind (Operation.retarget? label)).isSome = true) :
    ∃ other, body.patchAll label jumps = .ok other ∧ ∀ inst, other.operation? inst =
      if inst ∈ jumps then (body.operation? inst).bind (Operation.retarget? label) else body.operation? inst := by
  induction jumps generalizing body with
  | nil => exact ⟨body, rfl, fun inst => rfl⟩
  | cons jump rest ih =>
    obtain ⟨fresh, restOnce⟩ := List.nodup_cons.mp once
    obtain ⟨patched, retargets⟩ := Option.isSome_iff_exists.mp (jumping jump List.mem_cons_self)
    obtain ⟨operation, known, retargeted⟩ := Option.bind_eq_some_iff.mp retargets
    obtain ⟨middle, written, _, _, operations, _⟩ :=
      set_operation_laid body body.layout linked.laid jump operation patched known
    have elsewhere (inst : Inst) (apart : inst ≠ jump) : middle.operation? inst = body.operation? inst := by
      rw [operations, Function.update_of_ne apart]
    have here : middle.operation? jump = some patched := by rw [operations, Function.update_self]
    obtain ⟨other, done, reads⟩ := ih middle (set_operation_linked body middle linked jump patched written) restOnce
      fun later member => by
        rw [elsewhere later fun same => fresh (same ▸ member)]
        exact jumping later (List.mem_cons_of_mem _ member)
    refine ⟨other, ?_, fun inst => ?_⟩
    · rw [patchAll, patch, operation_ok body jump operation known]
      simp only [bind, Except.bind, retargeted, written]
      exact done
    · rw [reads]
      by_cases same : inst = jump
      · rw [same, if_neg fresh, if_pos List.mem_cons_self, here, retargets]
      · rw [elsewhere inst same]
        simp only [List.mem_cons, same, false_or]

theorem resolve_outcome (linked : body.WellLinked) (list : PatchList) (label : Inst) (once : list.jumps.Nodup)
    (isLabel : body.operation? label = some .label)
    (jumping : ∀ jump ∈ list.jumps, ((body.operation? jump).bind (Operation.retarget? label)).isSome = true) :
    ∃ other, body.resolve list label = .ok (other, list.size) ∧ other.WellLinked ∧ ∀ inst, other.operation? inst =
      if inst ∈ list.jumps then (body.operation? inst).bind (Operation.retarget? label) else body.operation? inst := by
  obtain ⟨other, patched, reads⟩ := patch_all_outcome body linked label list.jumps once jumping
  have done : body.resolve list label = .ok (other, list.size) := by
    rw [resolve, operation_ok body label .label isLabel]
    simp only [bind, Except.bind, Operation.isLabel, if_true, patched]
    rfl
  exact ⟨other, done, resolve_linked body other linked list label _ done, reads⟩

end Retargeting

end Body

end ThreeAddress
