import ThreeAddress.Proofs.Body.Checking
import ThreeAddress.Proofs.Body.Edits
import ThreeAddress.Proofs.Body.Parents

/-!
Well-linked bodies keep every structural rule but the one about jumps, and in them no instruction records a block
that does not list it. Placing, detaching and moving one instruction keep a body well linked, and the lists without
that instruction are what they were.
-/

set_option autoImplicit false

namespace ThreeAddress

def Defect.AboutJump : Defect → Prop
  | unresolvedJump _ | jumpToNonLabel _ _ => True
  | invalidEntry | listLength _ _ _ | brokenLink _ _ | wrongParent _ _ _ | edgeMismatch _ _ => False

namespace Body

def parent? (body : Body) (inst : Inst) : Option Block := Cells.parent? body.cells inst

structure WellLinked (body : Body) : Prop where
  entry : body.blocks.contains body.entry = true
  laid : body.Laid body.layout
  edges : body.EdgesAgree
  owned : ∀ inst block, body.parent? inst = some block → block ≠ .invalid → inst ∈ body.layout block

theorem jump_defect_about_jump (body : Body) (inst : Inst) (defect : Defect) (broken : body.jumpDefect? inst = some defect) :
    defect.AboutJump := by
  rw [jumpDefect?] at broken
  split at broken
  · cases broken
  · split at broken
    · cases broken
      trivial
    · split at broken
      · cases broken
      · cases broken
        trivial

section Linked

variable (body : Body) (linked : body.WellLinked)

include linked

theorem mem_layout_iff (block : Block) (inside : body.blocks.contains block = true) (inst : Inst) :
    inst ∈ body.layout block ↔ body.parent? inst = some block := by
  constructor
  · intro member
    exact Option.map_eq_some_iff.mpr (linked.laid.parents block inst member)
  · intro parent
    refine linked.owned inst block parent fun none => ?_
    rw [none] at inside
    cases inside

theorem block_defect_linked (block : Block) (inside : body.blocks.contains block = true) :
    ∃ found, body.blockDefect? block = .ok found ∧ ∀ defect ∈ found, defect.AboutJump := by
  obtain ⟨data, present⟩ := (Arena.contains_iff _ _).mp inside
  have outs : body.succs block = data.succs := by simp [succs, present]
  have ins : body.preds block = data.preds := by simp [preds, present]
  have holds := linked.laid.chains block data present
  have listed : data.chain.defect? body.cells block = none :=
    (Chain.defect_eq_none_iff _ _ _).mpr ⟨body.layout block, holds, fun _ => linked.laid.parents block⟩
  have outClean : data.succs.findSomeM? (body.succDefect? block data.succs) = .ok none := by
    refine (find_some_m_none_iff _ _).mpr fun succ edge => ?_
    rw [← outs] at edge ⊢
    exact (succ_defect_none_iff body block succ _).mpr
      ⟨linked.edges.succInside block succ edge, (linked.edges.counts block succ).symm⟩
  have inClean : data.preds.findSomeM? (body.predDefect? block) = .ok none := by
    refine (find_some_m_none_iff _ _).mpr fun pred edge => ?_
    rw [← ins] at edge
    exact (pred_defect_none_iff body block pred).mpr
      ⟨linked.edges.predInside block pred edge, (edges_mem_iff body linked.edges pred block).mpr edge⟩
  rw [blockDefect?, Arena.get_of_get _ _ _ present]
  simp only [bind, Except.bind, listed, Chain.members_holds _ _ _ holds, outClean, inClean]
  cases search : (body.layout block).findSome? body.jumpDefect? with
  | none => exact ⟨none, rfl, fun _ absent => (Option.not_mem_none _ absent).elim⟩
  | some defect =>
    refine ⟨some defect, rfl, fun found same => ?_⟩
    cases same
    obtain ⟨inst, _, broken⟩ := List.exists_of_findSome?_eq_some search
    exact jump_defect_about_jump body inst defect broken

theorem defect_linked : ∃ found, body.defect? = .ok found ∧ ∀ defect ∈ found, defect.AboutJump := by
  rw [defect?, if_pos linked.entry]
  exact find_some_m_total body.blockDefect? body.blocks.refs Defect.AboutJump fun block member =>
    block_defect_linked body linked block ((Arena.mem_refs_iff _ _).mp member)

end Linked

structure Displaced (body other : Body) (inst : Inst) : Prop where
  frame : body.SameFrame other
  operations : other.operation? = body.operation?
  order : ∀ block, (other.layout block).filter (· != inst) = (body.layout block).filter (· != inst)
  parents : ∀ elsewhere, elsewhere ≠ inst → other.parent? elsewhere = body.parent? elsewhere

theorem displaced_trans (body middle other : Body) (inst : Inst) (first : body.Displaced middle inst)
    (second : middle.Displaced other inst) : body.Displaced other inst where
  frame := frame_trans body middle other first.frame second.frame
  operations := second.operations.trans first.operations
  order := fun block => (second.order block).trans (first.order block)
  parents := fun elsewhere apart => (second.parents elsewhere apart).trans (first.parents elsewhere apart)

theorem linked_frame (body other : Body) (layout : Block → List Inst) (linked : body.WellLinked)
    (frame : body.SameFrame other) (laid : other.Laid layout)
    (owned : ∀ inst block, other.parent? inst = some block → block ≠ .invalid → inst ∈ layout block) :
    other.WellLinked := by
  have same := layout_laid other layout laid
  refine ⟨?_, same ▸ laid, frame_edges body other frame linked.edges, same ▸ owned⟩
  rw [frame.entry, frame_contains body other frame]
  exact linked.entry

theorem filter_absent (insts : List Inst) (inst : Inst) (absent : inst ∉ insts) : insts.filter (· != inst) = insts :=
  List.filter_eq_self.mpr fun _ member => bne_iff_ne.mpr fun same => absent (same ▸ member)

section Placing

variable (body : Body) (linked : body.WellLinked) (block : Block) (inst : Inst)
  (unplaced : ∀ elsewhere, inst ∉ body.layout elsewhere)

structure Placed (other : Body) : Prop where
  linked : other.WellLinked
  displaced : body.Displaced other inst
  here : inst ∈ other.layout block

include linked unplaced

theorem placed_of_laid (other : Body) (insts : List Inst) (frame : body.SameFrame other)
    (operations : other.operation? = body.operation?) (laid : other.Laid (Function.update body.layout block insts))
    (parents : other.parent? = Function.update body.parent? inst (some block)) (here : inst ∈ insts)
    (order : insts.filter (· != inst) = body.layout block) : Placed body block inst other := by
  have same := layout_laid other _ laid
  refine ⟨linked_frame body other _ linked frame laid fun elsewhere owner parent valid => ?_, ⟨frame, operations, ?_, ?_⟩, ?_⟩
  · rw [parents] at parent
    by_cases itself : elsewhere = inst
    · subst itself
      rw [Function.update_self] at parent
      cases parent
      rwa [Function.update_self]
    · rw [Function.update_of_ne itself] at parent
      have old := linked.owned elsewhere owner parent valid
      by_cases grown : owner = block
      · rw [grown, Function.update_self]
        rw [grown, ← order] at old
        exact (List.mem_filter.mp old).1
      · rwa [Function.update_of_ne grown]
  · intro elsewhere
    rw [same, filter_absent _ inst (unplaced elsewhere)]
    by_cases grown : elsewhere = block
    · rw [grown, Function.update_self, order]
    · rw [Function.update_of_ne grown, filter_absent _ inst (unplaced elsewhere)]
  · intro elsewhere apart
    rw [parents, Function.update_of_ne apart]
  · rw [same, Function.update_self]
    exact here

omit linked unplaced

theorem join_parent (edit : Chain → Cells → Except Fault (Chain × Cells))
    (kept : ∀ chain cells longer later, edit chain cells = .ok (longer, later) → Cells.parent? later = Cells.parent? cells)
    (other : Body) (done : (do let longer ← body.editChain block edit; longer.adopt block inst) = .ok other) :
    other.parent? = Function.update body.parent? inst (some block) := by
  obtain ⟨longer, edited, adopted⟩ := (bind_ok_iff _ _ _).mp done
  obtain ⟨data, _, afterGet⟩ := (bind_ok_iff _ _ _).mp edited
  obtain ⟨⟨chain, cells⟩, relinked, made⟩ := (bind_ok_iff _ _ _).mp afterGet
  cases made
  obtain ⟨last, recorded, made⟩ := (bind_ok_iff _ _ _).mp adopted
  cases made
  have sets := modify_sets_parent cells last inst _ block recorded fun _ => rfl
  rw [kept _ _ _ _ relinked] at sets
  exact sets

include linked unplaced

variable (present : body.cells.contains inst = true)

include present

theorem append_linked (inside : body.blocks.contains block = true) :
    ∃ other, body.append block inst = .ok other ∧ Placed body block inst other := by
  obtain ⟨data, found⟩ := (Arena.contains_iff _ _).mp inside
  obtain ⟨cell, known⟩ := (Arena.contains_iff _ _).mp present
  obtain ⟨other, done, frame, laid, operations, _⟩ :=
    append_laid body body.layout linked.laid block data inst cell found unplaced known
  have parents := join_parent body block inst _ (fun chain cells => Chain.append_parents chain cells inst) other done
  refine ⟨other, done, placed_of_laid body linked block inst unplaced other _ frame operations laid parents
    (List.mem_append_right _ (List.mem_singleton.mpr rfl)) ?_⟩
  rw [List.filter_append, filter_absent _ inst (unplaced block)]
  simp

theorem prepend_linked (inside : body.blocks.contains block = true) :
    ∃ other, body.prepend block inst = .ok other ∧ Placed body block inst other := by
  obtain ⟨data, found⟩ := (Arena.contains_iff _ _).mp inside
  obtain ⟨cell, known⟩ := (Arena.contains_iff _ _).mp present
  obtain ⟨chain, cells, relinked, holds, edited⟩ := Chain.prepend_holds data.chain body.cells (body.layout block) inst
    (linked.laid.chains block data found) (unplaced block) cell known
  obtain ⟨other, done, frame, laid, operations, _⟩ := join_laid body body.layout linked.laid block data _ inst cell found
    unplaced known (fun other member => by simpa using member) (·.prepend · inst) chain cells relinked holds edited
  have parents := join_parent body block inst _ (fun chain cells => Chain.prepend_parents chain cells inst) other done
  refine ⟨other, done, placed_of_laid body linked block inst unplaced other _ frame operations laid parents
    List.mem_cons_self ?_⟩
  rw [List.filter_cons_of_neg (by simp), filter_absent _ inst (unplaced block)]

theorem insert_before_linked (member : Inst) (placed : member ∈ body.layout block) :
    ∃ other, body.insertBefore member inst = .ok other ∧ Placed body block inst other := by
  obtain ⟨cell, known⟩ := (Arena.contains_iff _ _).mp present
  obtain ⟨front, back, whole⟩ := List.append_of_mem placed
  obtain ⟨other, done, frame, laid, operations, _⟩ :=
    insert_before_laid body body.layout linked.laid block front back member inst cell whole unplaced known
  have parents : other.parent? = Function.update body.parent? inst (some block) := by
    obtain ⟨old, found, joined⟩ := (bind_ok_iff _ _ _).mp done
    obtain ⟨same, foundSame, parent⟩ := linked.laid.parents block member placed
    obtain rfl : old = same := by
      rw [Arena.get_ok_iff, foundSame] at found
      exact (Option.some.inj found).symm
    rw [parent] at joined
    exact join_parent body block inst _ (fun chain cells => Chain.insert_before_parents chain cells member inst) other joined
  refine ⟨other, done, placed_of_laid body linked block inst unplaced other _ frame operations laid parents
    (List.mem_append_right _ List.mem_cons_self) ?_⟩
  have absent := whole ▸ unplaced block
  simp only [List.mem_append, List.mem_cons, not_or] at absent
  rw [List.filter_append, List.filter_cons_of_neg (by simp), ← List.filter_append, whole]
  exact filter_absent _ inst (by simp [absent])

end Placing

section Moving

variable (body : Body) (linked : body.WellLinked) (source block : Block) (inst : Inst) (member : inst ∈ body.layout source)

include linked member

theorem unlink_linked : ∃ other, body.unlink inst = .ok other ∧ other.WellLinked ∧ body.Displaced other inst ∧
    ∀ elsewhere, inst ∉ other.layout elsewhere := by
  obtain ⟨other, done, frame, laid, operations, _⟩ := unlink_laid body body.layout linked.laid source inst member
  have once := nodup_layout body body.layout linked.laid source
  have parents : other.parent? = Function.update body.parent? inst (some .invalid) := by
    obtain ⟨cell, _, edited⟩ := (bind_ok_iff _ _ _).mp done
    obtain ⟨data, _, afterGet⟩ := (bind_ok_iff _ _ _).mp edited
    obtain ⟨⟨chain, cells⟩, detached, made⟩ := (bind_ok_iff _ _ _).mp afterGet
    cases made
    exact Chain.unlink_parents _ _ inst chain cells detached
  have same := layout_laid other _ laid
  have listed (elsewhere : Block) : other.layout elsewhere = (body.layout elsewhere).filter (· != inst) := by
    rw [same]
    by_cases here : elsewhere = source
    · rw [here, Function.update_self, once.erase_eq_filter]
    · rw [Function.update_of_ne here]
      exact (filter_absent _ inst fun there =>
        here (placed_once body body.layout linked.laid elsewhere source inst there member)).symm
  refine ⟨other, done, linked_frame body other _ linked frame laid fun elsewhere owner parent valid => ?_,
    ⟨frame, operations, fun elsewhere => ?_, fun elsewhere apart => ?_⟩, fun elsewhere still => ?_⟩
  · rw [parents] at parent
    rw [← same, listed]
    by_cases itself : elsewhere = inst
    · rw [itself, Function.update_self] at parent
      exact (valid (Option.some.inj parent).symm).elim
    · rw [Function.update_of_ne itself] at parent
      exact List.mem_filter.mpr ⟨linked.owned elsewhere owner parent valid, bne_iff_ne.mpr itself⟩
  · rw [listed, List.filter_filter]
    simp
  · rw [parents, Function.update_of_ne apart]
  · rw [listed] at still
    simp at still

-- Whatever the block ends with once the instruction is gone, it comes back next to that.
theorem move_before_terminator_linked (inside : body.blocks.contains block = true) :
    ∃ other, body.moveBeforeTerminator inst block = .ok other ∧ other.WellLinked ∧ body.Displaced other inst ∧
      inst ∈ other.layout block := by
  obtain ⟨middle, unlinked, middleLinked, away, unplaced⟩ := unlink_linked body linked source inst member
  have insideMiddle : middle.blocks.contains block = true := (frame_contains body middle away.frame block).trans inside
  have present : middle.cells.contains inst = true := by
    obtain ⟨operation, known, _⟩ := operation_placed body body.layout linked.laid source inst member
    rw [← away.operations] at known
    obtain ⟨cell, found, _⟩ := Option.map_eq_some_iff.mp known
    exact Arena.contains_of_get _ _ _ found
  have closes := terminator_laid middle middle.layout middleLinked.laid block insideMiddle
  obtain ⟨other, joined, placed⟩ : ∃ other, body.moveBeforeTerminator inst block = .ok other ∧ Placed middle block inst other := by
    rw [moveBeforeTerminator, unlinked]
    simp only [bind, Except.bind, closes]
    cases ends : (middle.layout block).getLast?.filter fun last => (middle.operation? last).any Operation.isTerminator with
    | none => exact append_linked middle middleLinked block inst unplaced present insideMiddle
    | some last =>
      have final := List.mem_of_getLast? (Option.filter_eq_some_iff.mp ends).1
      exact insert_before_linked middle middleLinked block inst unplaced present last final
  exact ⟨other, joined, placed.linked, displaced_trans body middle other inst away placed.displaced, placed.here⟩

end Moving

end Body

end ThreeAddress
