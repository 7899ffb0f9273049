import ThreeAddress.Optimizer.Pipeline
import ThreeAddress.Proofs.Body.Edits

/-!
What every pass keeps of the structure of a body: frame, labels, the order of all code that does more than
compute, and of each instruction everything but the operands it reads.
-/

set_option autoImplicit false

namespace ThreeAddress

namespace Operation

def isComputation : Operation → Bool
  | assign _ _ | binary _ _ _ _ | unary _ _ _ | addrOf _ _ => true
  | _ => false

def isArithmetic : Operation → Bool
  | binary _ _ _ _ | unary _ _ _ => true
  | _ => false

def callee? : Operation → Option String
  | call _ function => some function
  | _ => none

def storage? : Operation → Option (Var × Nat)
  | declare place size => some (place, size)
  | _ => none

structure Keeps (old new : Operation) : Prop where
  defines : new.def? = old.def?
  jumps : new.jumpTarget? = old.jumpTarget?
  calls : new.callee? = old.callee?
  reserves : new.storage? = old.storage?
  pins : new.pinned? = old.pinned?
  kind : new.ctorIdx = old.ctorIdx ∨ (old.isArithmetic = true ∧ ∃ dst src, new = .assign dst src)

theorem keeps_refl (operation : Operation) : operation.Keeps operation where
  defines := rfl
  jumps := rfl
  calls := rfl
  reserves := rfl
  pins := rfl
  kind := .inl rfl

theorem is_arithmetic_of_ctor_idx (old new : Operation) (same : new.ctorIdx = old.ctorIdx) :
    new.isArithmetic = old.isArithmetic := by
  cases old <;> cases new <;> first | rfl | cases same

theorem is_computation_of_ctor_idx (old new : Operation) (same : new.ctorIdx = old.ctorIdx) :
    new.isComputation = old.isComputation := by
  cases old <;> cases new <;> first | rfl | cases same

theorem is_label_of_ctor_idx (old new : Operation) (same : new.ctorIdx = old.ctorIdx) : new.isLabel = old.isLabel := by
  cases old <;> cases new <;> first | rfl | cases same

theorem keeps_trans (old middle new : Operation) (first : old.Keeps middle) (second : middle.Keeps new) : old.Keeps new where
  defines := second.defines.trans first.defines
  jumps := second.jumps.trans first.jumps
  calls := second.calls.trans first.calls
  reserves := second.reserves.trans first.reserves
  pins := second.pins.trans first.pins
  kind := by
    rcases second.kind with same | ⟨arithmetic, became⟩
    · rcases first.kind with again | ⟨arithmetic, dst, src, became⟩
      · exact .inl (same.trans again)
      · rw [became] at same
        cases new with
        | assign dst src => exact .inr ⟨arithmetic, dst, src, rfl⟩
        | _ => cases same
    · rcases first.kind with same | ⟨_, dst, src, isAssign⟩
      · exact .inr ⟨(is_arithmetic_of_ctor_idx old middle same).symm.trans arithmetic, became⟩
      · rw [isAssign] at arithmetic
        cases arithmetic

theorem keeps_is_computation (old new : Operation) (keeps : old.Keeps new) : new.isComputation = old.isComputation := by
  rcases keeps.kind with same | ⟨arithmetic, dst, src, became⟩
  · exact is_computation_of_ctor_idx old new same
  · rw [became]
    cases old <;> first | rfl | cases arithmetic

theorem keeps_is_label (old new : Operation) (keeps : old.Keeps new) : new.isLabel = old.isLabel := by
  rcases keeps.kind with same | ⟨arithmetic, dst, src, became⟩
  · exact is_label_of_ctor_idx old new same
  · rw [became]
    cases old <;> first | rfl | cases arithmetic

theorem keeps_clobbers_memory (old new : Operation) (keeps : old.Keeps new) : new.clobbersMemory = old.clobbersMemory := by
  rcases keeps.kind with same | ⟨arithmetic, dst, src, became⟩
  · cases old <;> cases new <;> first | rfl | cases same
  · rw [became]
    cases old <;> first | rfl | cases arithmetic

theorem keeps_update_uses {σ : Type} (f : σ → Operand → σ × Operand) (state : σ) (operation : Operation) :
    operation.Keeps (operation.updateUses f state).2 := by
  cases operation <;> exact ⟨rfl, rfl, rfl, rfl, rfl, .inl rfl⟩

theorem keeps_assign (operation : Operation) (dst : Var) (src : Operand) (arithmetic : operation.isArithmetic = true)
    (defines : operation.def? = some dst) : operation.Keeps (.assign dst src) := by
  cases operation <;> first | exact ⟨defines.symm, rfl, rfl, rfl, rfl, .inr ⟨rfl, dst, src, rfl⟩⟩ | cases arithmetic

end Operation

namespace Body

def isLabelAt (body : Body) (inst : Inst) : Bool := (body.operation? inst).any Operation.isLabel

def isFixedAt (body : Body) (inst : Inst) : Bool := (body.operation? inst).any fun operation => !operation.isComputation

def Unmarked (body : Body) : Prop := ∀ block, ∀ inst ∈ body.layout block, body.isMarked inst = false

structure KeepsStructure (body other : Body) : Prop where
  frame : body.SameFrame other
  operations : ∀ inst operation, body.operation? inst = some operation →
    ∃ now, other.operation? inst = some now ∧ operation.Keeps now
  labels : ∀ block, (other.layout block).filter other.isLabelAt = (body.layout block).filter body.isLabelAt
  fixed : ∀ block, body.Reaches body.entry block →
    (other.layout block).filter other.isFixedAt = (body.layout block).filter body.isFixedAt
  placed : ∀ block, ∀ inst ∈ other.layout block, ∃ before, inst ∈ body.layout before

theorem structure_refl (body : Body) : body.KeepsStructure body where
  frame := frame_refl body
  operations := fun _ operation found => ⟨operation, found, Operation.keeps_refl operation⟩
  labels := fun _ => rfl
  fixed := fun _ _ => rfl
  placed := fun block _ member => ⟨block, member⟩

theorem structure_trans (body middle other : Body) (first : body.KeepsStructure middle) (second : middle.KeepsStructure other) :
    body.KeepsStructure other where
  frame := frame_trans body middle other first.frame second.frame
  operations := fun inst operation found => by
    obtain ⟨between, foundBetween, keepsFirst⟩ := first.operations inst operation found
    obtain ⟨now, foundNow, keepsSecond⟩ := second.operations inst between foundBetween
    exact ⟨now, foundNow, Operation.keeps_trans operation between now keepsFirst keepsSecond⟩
  labels := fun block => (second.labels block).trans (first.labels block)
  fixed := fun block reached =>
    (second.fixed block ((frame_reaches body middle first.frame block).mpr reached)).trans (first.fixed block reached)
  placed := fun block inst member => by
    obtain ⟨between, there⟩ := second.placed block inst member
    exact first.placed between inst there

theorem check_of_structure (body other : Body) (layout : Block → List Inst) (accepted : body.check = .ok ())
    (keeps : body.KeepsStructure other) (laid : other.Laid layout) : other.check = .ok () := by
  have wellFormed := well_formed_of_check body accepted
  apply check_of_well_formed other layout
  refine ⟨?_, laid, frame_edges body other keeps.frame wellFormed.edges, fun block inst member target jump => ?_⟩
  · rw [keeps.frame.entry, frame_contains body other keeps.frame]
    exact wellFormed.entry
  · rw [← layout_laid other layout laid] at member
    obtain ⟨before, there⟩ := keeps.placed block inst member
    obtain ⟨operation, found, _⟩ := operation_placed body body.layout wellFormed.laid before inst there
    obtain ⟨now, foundNow, keepsNow⟩ := keeps.operations inst operation found
    have jumps : operation.jumpTarget? = some target := by
      rw [foundNow] at jump
      exact keepsNow.jumps.symm.trans jump
    have label := wellFormed.jumps before inst there target (by rw [found]; exact jumps)
    obtain ⟨kept, foundKept, keepsLabel⟩ := keeps.operations target .label label
    rw [foundKept, (is_label_iff kept).mp (Operation.keeps_is_label _ _ keepsLabel)]

def PassKeeps (body : Body) (result : Except Fault (Tally × Body)) : Prop :=
  ∃ tally other, result = .ok (tally, other) ∧ other.check = .ok () ∧ other.Unmarked ∧ body.KeepsStructure other

end Body

end ThreeAddress
