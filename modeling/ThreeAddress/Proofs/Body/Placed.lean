import Mathlib.Data.List.Nodup
import ThreeAddress.Dataflow.Copies
import ThreeAddress.Proofs.Body.WellFormed
import ThreeAddress.Proofs.Flow.Search
import ThreeAddress.Proofs.OrderedSet.Membership

/-!
The placed instructions of a body whose lists are laid out properly: every instruction is placed at most
once, so the variables in memory and the copies can be read off the lists.
-/

set_option autoImplicit false

namespace ThreeAddress

theorem map_m_ok {α β : Type} (read : α → Except Fault β) (value : α → β) (elements : List α)
    (reads : ∀ element ∈ elements, read element = .ok (value element)) :
    elements.mapM read = .ok (elements.map value) := by
  induction elements with
  | nil => rfl
  | cons element rest ih =>
    rw [List.mapM_cons, reads element List.mem_cons_self, ih fun other member => reads other (List.mem_cons_of_mem _ member)]
    rfl

namespace Body

variable (body : Body) (layout : Block → List Inst) (laid : body.Laid layout)

include laid

theorem placed_inside (block : Block) (inst : Inst) (member : inst ∈ layout block) :
    body.blocks.contains block = true := by
  cases found : body.blocks.get? block with
  | none =>
    rw [laid.outside block found] at member
    cases member
  | some data => exact Arena.contains_of_get _ _ _ found

theorem placed_once (block other : Block) (inst : Inst) (member : inst ∈ layout block) (again : inst ∈ layout other) :
    block = other := by
  obtain ⟨cell, found, parent⟩ := laid.parents block inst member
  obtain ⟨sameCell, foundAgain, otherParent⟩ := laid.parents other inst again
  rw [found] at foundAgain
  cases foundAgain
  exact parent.symm.trans otherParent

theorem nodup_layout (block : Block) : (layout block).Nodup := by
  cases found : body.blocks.get? block with
  | none =>
    rw [laid.outside block found]
    exact List.nodup_nil
  | some data => exact linked_nodup _ _ _ (laid.chains block data found).linked

theorem placed_laid : body.placed = .ok (body.blocks.refs.flatMap layout) := by
  have reads := map_m_ok body.members layout body.blocks.refs fun block member =>
    members_laid body layout laid block ((Arena.mem_refs_iff _ _).mp member)
  rw [placed, reads, List.flatMap]
  rfl

theorem mem_placed_iff (inst : Inst) : inst ∈ body.blocks.refs.flatMap layout ↔ ∃ block, inst ∈ layout block := by
  rw [List.mem_flatMap]
  constructor
  · exact fun ⟨block, _, member⟩ => ⟨block, member⟩
  · exact fun ⟨block, member⟩ => ⟨block, (Arena.mem_refs_iff _ _).mpr (placed_inside body layout laid block inst member), member⟩

theorem nodup_placed : (body.blocks.refs.flatMap layout).Nodup := by
  rw [List.nodup_flatMap]
  refine ⟨fun block _ => nodup_layout body layout laid block, (Arena.refs_nodup body.blocks).imp ?_⟩
  intro block other apart inst member again
  exact apart (placed_once body layout laid block other inst member again)

theorem address_taken_total : ∃ pinned, body.addressTaken = .ok pinned ∧ pinned.Sound ∧
    ∀ var, var ∈ pinned.toList ↔
      ∃ block, ∃ inst ∈ layout block, (body.operation? inst).bind Operation.pinned? = some var := by
  refine ⟨_, by rw [addressTaken, placed_laid body layout laid]; rfl, OrderedSet.sound_of_list _, fun var => ?_⟩
  rw [OrderedSet.mem_of_list, List.mem_filterMap]
  constructor
  · intro ⟨inst, member, pinned⟩
    obtain ⟨block, placed⟩ := (mem_placed_iff body layout laid inst).mp member
    exact ⟨block, inst, placed, pinned⟩
  · intro ⟨block, inst, placed, pinned⟩
    exact ⟨inst, (mem_placed_iff body layout laid inst).mpr ⟨block, placed⟩, pinned⟩

structure CopiesOf (copies : Copies) : Prop where
  pinned : body.addressTaken = .ok copies.pinned
  listed : ∀ copy, copy ∈ copies.list ↔
    (∃ block, copy.inst ∈ layout block) ∧ (body.operation? copy.inst).bind Operation.copy? = some (copy.dst, copy.src)
  once : (copies.list.map Copy.inst).Nodup
  all : copies.all = .ofList (copies.list.map Copy.inst)

theorem pinned_sound (copies : Copies) (copiesOf : CopiesOf body layout copies) : copies.pinned.Sound := by
  obtain ⟨pinned, taken, sound, _⟩ := address_taken_total body layout laid
  cases copiesOf.pinned.symm.trans taken
  exact sound

omit laid

def copyAt? (body : Body) (inst : Inst) : Option Copy :=
  ((body.operation? inst).bind Operation.copy?).map fun (dst, src) => ⟨inst, dst, src⟩

theorem copy_at_eq_some_iff (inst : Inst) (copy : Copy) :
    body.copyAt? inst = some copy ↔
      copy.inst = inst ∧ (body.operation? inst).bind Operation.copy? = some (copy.dst, copy.src) := by
  rw [copyAt?, Option.map_eq_some_iff]
  constructor
  · intro ⟨move, moves, made⟩
    exact ⟨made ▸ rfl, moves.trans (made ▸ rfl)⟩
  · intro ⟨own, moves⟩
    exact ⟨_, moves, by rw [← own]⟩

theorem copy_at_sublist (insts : List Inst) : ((insts.filterMap body.copyAt?).map Copy.inst).Sublist insts := by
  induction insts with
  | nil => exact List.Sublist.slnil
  | cons inst rest ih =>
    cases found : body.copyAt? inst with
    | none =>
      rw [List.filterMap_cons_none found]
      exact ih.cons inst
    | some copy =>
      rw [List.filterMap_cons_some found, List.map_cons, ((copy_at_eq_some_iff body inst copy).mp found).1]
      exact ih.cons_cons inst

include laid

theorem copies_total : ∃ copies, body.copies = .ok copies ∧ CopiesOf body layout copies := by
  obtain ⟨pinned, taken, _⟩ := address_taken_total body layout laid
  let list := (body.blocks.refs.flatMap layout).filterMap body.copyAt?
  have once : (list.map Copy.inst).Nodup := (copy_at_sublist body _).nodup (nodup_placed body layout laid)
  have sound := OrderedSet.sound_of_list (list.map Copy.inst)
  have size : (OrderedSet.ofList (list.map Copy.inst)).size = list.length := by
    rw [← OrderedSet.length_to_list _ sound, ← List.length_map (f := Copy.inst)]
    refine ((List.perm_ext_iff_of_nodup (OrderedSet.nodup_to_list _ sound) once).mpr fun inst => ?_).length_eq
    exact OrderedSet.mem_of_list _ inst
  refine ⟨⟨list, pinned, .ofList (list.map Copy.inst)⟩, ?_, taken, fun copy => ?_, once, rfl⟩
  · have enough : ¬ (OrderedSet.ofList (list.map Copy.inst)).size < list.length := by omega
    simp only [copies, taken, placed_laid body layout laid, bind, Except.bind]
    exact if_neg enough
  · rw [List.mem_filterMap, ← mem_placed_iff body layout laid]
    simp only [copy_at_eq_some_iff]
    constructor
    · intro ⟨inst, member, own, moves⟩
      exact ⟨own ▸ member, own ▸ moves⟩
    · exact fun ⟨member, moves⟩ => ⟨copy.inst, member, rfl, moves⟩

end Body

end ThreeAddress
