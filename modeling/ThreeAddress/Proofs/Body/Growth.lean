import ThreeAddress.Backpatch
import ThreeAddress.Proofs.Body.Linkage

/-!
The other edits of a well-linked body: new blocks, edges, variables and instructions, other operations and marks, the
removal of what is marked, and detached lists, which are edited beside the body and spliced onto a block.
-/

set_option autoImplicit false

namespace ThreeAddress

theorem Arena.push_outcome {entity : Entity} {α : Type} (arena : Arena entity α) (value : α) :
    arena.push value = .error .indexOverflow ∨ ∃ fresh grown, arena.push value = .ok (fresh, grown) ∧
      arena.get? fresh = none ∧ ∀ ref, grown.get? ref = if ref = fresh then some value else arena.get? ref := by
  by_cases room : arena.size < Ref.limit
  · have pushed : arena.push value = .ok (.nth arena.size, ⟨arena.slots.push value⟩) := by
      rw [push, Ref.ofIndex, if_pos room]
      rfl
    exact .inr ⟨_, _, pushed, Array.getElem?_size, fun ref => get_push arena _ _ ref value pushed⟩
  · refine .inl ?_
    rw [push, Ref.ofIndex, if_neg room]
    rfl

namespace Body

section Grown

variable (body other : Body) (linked : body.WellLinked)

include linked

theorem linked_grown (entry : other.entry = body.entry)
    (inside : ∀ block, body.blocks.contains block = true → other.blocks.contains block = true)
    (succs : other.succs = body.succs) (preds : other.preds = body.preds) (laid : other.Laid body.layout)
    (parents : ∀ inst block, other.parent? inst = some block → block ≠ .invalid → body.parent? inst = some block) :
    other.WellLinked := by
  have same := layout_laid other body.layout laid
  refine ⟨entry ▸ inside _ linked.entry, same.symm ▸ laid, ⟨?_, ?_, ?_⟩, ?_⟩
  · rw [succs]
    exact fun block succ edge => inside succ (linked.edges.succInside block succ edge)
  · rw [preds]
    exact fun block pred edge => inside pred (linked.edges.predInside block pred edge)
  · rw [succs, preds]
    exact linked.edges.counts
  · rw [same]
    exact fun inst block parent valid => linked.owned inst block (parents inst block parent valid) valid

theorem laid_elsewhere (blocks : other.blocks = body.blocks)
    (links : ∀ block, ∀ inst ∈ body.layout block, Cells.links? other.cells inst = Cells.links? body.cells inst)
    (parents : ∀ block, ∀ inst ∈ body.layout block, other.parent? inst = body.parent? inst) :
    other.Laid body.layout where
  chains := fun block data found => by
    have holds := linked.laid.chains block data (blocks ▸ found)
    exact ⟨(linked_congr _ _ _ _ _ fun inst member => links block inst member).mpr holds.linked, holds.head, holds.tail,
      holds.size⟩
  parents := fun block inst member => by
    have owned : body.parent? inst = some block := Option.map_eq_some_iff.mpr (linked.laid.parents block inst member)
    exact Option.map_eq_some_iff.mp ((parents block inst member).trans owned)
  outside := fun block missing => linked.laid.outside block (blocks ▸ missing)

omit linked

theorem new_linked (name : String) : (new name).WellLinked := by
  have rules := well_formed_of_check (new name) rfl
  refine ⟨rules.entry, rules.laid, rules.edges, fun inst block parent => ?_⟩
  cases inst <;> cases parent

include linked

theorem add_block_linked : body.addBlock = .error .indexOverflow ∨
    ∃ block other, body.addBlock = .ok (block, other) ∧ other.WellLinked := by
  rcases body.blocks.push_outcome {} with full | ⟨fresh, blocks, pushed, unused, reads⟩
  · exact .inl (by rw [addBlock, full]; rfl)
  have edges {β : Type} (view : BasicBlock → List β) (none : view {} = []) (block : Block) :
      (blocks.get? block).elim [] view = (body.blocks.get? block).elim [] view := by
    rw [reads]
    by_cases new : block = fresh
    · rw [if_pos new, new, unused]
      exact none
    · rw [if_neg new]
  refine .inr ⟨fresh, { body with blocks := blocks }, by rw [addBlock, pushed]; rfl, ?_⟩
  refine linked_grown body _ linked rfl (fun block inside => ?_) (funext (edges BasicBlock.succs rfl))
    (funext (edges BasicBlock.preds rfl)) ⟨fun block data found => ?_, linked.laid.parents, fun block missing => ?_⟩
    fun _ _ parent _ => parent
  · obtain ⟨data, found⟩ := (Arena.contains_iff _ _).mp inside
    refine (Arena.contains_iff _ _).mpr ⟨data, ?_⟩
    rw [reads, if_neg fun new => ?_, found]
    rw [new, unused] at found
    cases found
  · rw [reads] at found
    by_cases new : block = fresh
    · rw [if_pos new] at found
      cases found
      rw [linked.laid.outside block (new ▸ unused)]
      exact ⟨trivial, rfl, rfl, rfl⟩
    · rw [if_neg new] at found
      exact linked.laid.chains block data found
  · rw [reads] at missing
    by_cases new : block = fresh
    · exact linked.laid.outside block (new ▸ unused)
    · rw [if_neg new] at missing
      exact linked.laid.outside block missing

theorem add_var_linked (name : Option String) : body.addVar name = .error .indexOverflow ∨
    ∃ var other, body.addVar name = .ok (var, other) ∧ other.WellLinked := by
  rcases body.vars.push_outcome name with full | ⟨fresh, vars, pushed, _⟩
  · exact .inl (by rw [addVar, full]; rfl)
  refine .inr ⟨fresh, { body with vars := vars }, by rw [addVar, pushed]; rfl, ?_⟩
  exact linked_grown body _ linked rfl (fun _ => id) rfl rfl
    (laid_elsewhere body _ linked rfl (fun _ _ _ => rfl) fun _ _ _ => rfl) fun _ _ parent _ => parent

theorem add_inst_linked (operation : Operation) : body.addInst operation = .error .indexOverflow ∨
    ∃ inst other, body.addInst operation = .ok (inst, other) ∧ other.WellLinked := by
  rcases body.cells.push_outcome { operation := operation } with full | ⟨fresh, cells, pushed, unused, reads⟩
  · exact .inl (by rw [addInst, full]; rfl)
  have old (block : Block) (inst : Inst) (member : inst ∈ body.layout block) : cells.get? inst = body.cells.get? inst := by
    rw [reads, if_neg]
    intro new
    obtain ⟨cell, found, _⟩ := linked.laid.parents block inst member
    rw [new, unused] at found
    cases found
  refine .inr ⟨fresh, { body with cells := cells }, by rw [addInst, pushed]; rfl, ?_⟩
  refine linked_grown body _ linked rfl (fun _ => id) rfl rfl (laid_elsewhere body _ linked rfl
    (fun block inst member => congrArg _ (old block inst member)) fun block inst member => congrArg _ (old block inst member))
    fun inst block parent valid => ?_
  rw [parent?, Cells.parent?, reads] at parent
  by_cases new : inst = fresh
  · rw [if_pos new] at parent
    exact (valid (Option.some.inj parent).symm).elim
  · rwa [if_neg new] at parent

theorem set_operation_linked (inst : Inst) (operation : Operation) (done : body.setOperation inst operation = .ok other) :
    other.WellLinked := by
  obtain ⟨cells, written, made⟩ := (bind_ok_iff _ _ _).mp done
  cases made
  obtain ⟨cell, found, _⟩ := (Arena.modify_ok_iff _ _ _ _).mp written
  have known : body.operation? inst = some cell.operation := by rw [operation?, found]; rfl
  obtain ⟨same, again, frame, laid, _⟩ := set_operation_laid body body.layout linked.laid inst cell.operation operation known
  rw [setOperation, written] at again
  cases again
  refine linked_frame body _ _ linked frame laid fun other block parent => linked.owned other block ?_
  rw [← parent]
  exact (congrFun (modify_keeps_parents body.cells cells inst _ written fun _ => rfl) other).symm

theorem set_mark_linked (inst : Inst) (mark : Bool) (done : body.setMark inst mark = .ok other) : other.WellLinked := by
  obtain ⟨cells, written, made⟩ := (bind_ok_iff _ _ _).mp done
  cases made
  obtain ⟨cell, found, _⟩ := (Arena.modify_ok_iff _ _ _ _).mp written
  obtain ⟨same, again, edited, _⟩ := mark_edited body.cells inst cell found mark
  rw [written] at again
  cases again
  have parents (other : Inst) : Cells.parent? cells other = body.parent? other := edited.parent other id
  exact linked_grown body _ linked rfl (fun _ => id) rfl rfl (laid_elsewhere body _ linked rfl
    (fun _ other _ => edited.links other id) fun _ other _ => parents other)
    fun other block parent _ => (parents other).symm.trans parent

theorem patch_all_linked (label : Inst) (jumps : List Inst) (done : body.patchAll label jumps = .ok other) :
    other.WellLinked := by
  induction jumps generalizing body with
  | nil =>
    cases done
    exact linked
  | cons jump rest ih =>
    obtain ⟨middle, patched, later⟩ := (bind_ok_iff _ _ _).mp done
    obtain ⟨operation, _, retargeted⟩ := (bind_ok_iff _ _ _).mp patched
    refine ih middle ?_ later
    split at retargeted
    · exact set_operation_linked body middle linked jump _ retargeted
    · cases retargeted

theorem resolve_linked (list : PatchList) (label : Inst) (count : Nat)
    (done : body.resolve list label = .ok (other, count)) : other.WellLinked := by
  obtain ⟨operation, _, checked⟩ := (bind_ok_iff _ _ _).mp done
  split at checked
  · obtain ⟨last, patched, made⟩ := (bind_ok_iff _ _ _).mp checked
    cases made
    exact patch_all_linked body other linked label list.jumps patched
  · cases checked

omit linked

theorem reedge_edges (block : Block) (data now : BasicBlock) (found : body.blocks.get? block = some data) {β : Type}
    (view : BasicBlock → List β) :
    (fun elsewhere => ((body.blocks.put block now).get? elsewhere).elim [] view) =
      Function.update (fun elsewhere => (body.blocks.get? elsewhere).elim [] view) block (view now) := by
  funext elsewhere
  rw [Arena.get_put _ _ _ _ (Arena.contains_of_get _ _ _ found)]
  by_cases same : elsewhere = block
  · rw [if_pos same.symm, same, Function.update_self]
    rfl
  · rw [if_neg (Ne.symm same), Function.update_of_ne same]

theorem reedge_laid (layout : Block → List Inst) (laid : body.Laid layout) (block : Block) (data now : BasicBlock)
    (found : body.blocks.get? block = some data) (chain : now.chain = data.chain)
    (made : other = { body with blocks := body.blocks.put block now }) :
    other.Laid layout ∧ (∀ elsewhere, other.blocks.contains elsewhere = body.blocks.contains elsewhere) ∧
      other.succs = Function.update body.succs block now.succs ∧ other.preds = Function.update body.preds block now.preds := by
  have reads (elsewhere : Block) :
      other.blocks.get? elsewhere = if block = elsewhere then some now else body.blocks.get? elsewhere := by
    rw [made]
    exact Arena.get_put _ _ _ _ (Arena.contains_of_get _ _ _ found)
  have cells : other.cells = body.cells := by rw [made]
  have edges {β : Type} (view : BasicBlock → List β) :
      (fun elsewhere => (other.blocks.get? elsewhere).elim [] view) =
        Function.update (fun elsewhere => (body.blocks.get? elsewhere).elim [] view) block (view now) := by
    rw [made]
    exact reedge_edges body block data now found view
  refine ⟨⟨fun elsewhere later present => ?_, cells ▸ laid.parents, fun elsewhere missing => ?_⟩, fun elsewhere => ?_,
    edges BasicBlock.succs, edges BasicBlock.preds⟩
  · rw [reads] at present
    by_cases same : block = elsewhere
    · rw [if_pos same] at present
      cases present
      rw [chain, cells, ← same]
      exact laid.chains block data found
    · rw [if_neg same] at present
      rw [cells]
      exact laid.chains elsewhere later present
  · rw [reads] at missing
    by_cases same : block = elsewhere
    · rw [if_pos same] at missing
      cases missing
    · rw [if_neg same] at missing
      exact laid.outside elsewhere missing
  · rw [Bool.eq_iff_iff, Arena.contains_iff, Arena.contains_iff, reads]
    by_cases same : block = elsewhere
    · rw [if_pos same, ← same, found]
      exact ⟨fun _ => ⟨data, rfl⟩, fun _ => ⟨now, rfl⟩⟩
    · rw [if_neg same]

theorem update_appended {β : Type} (edges : Block → List β) (block : Block) (more : List β) (elsewhere : Block) :
    Function.update edges block (edges block ++ more) elsewhere = edges elsewhere ++ if elsewhere = block then more else [] := by
  by_cases here : elsewhere = block
  · rw [here, Function.update_self, if_pos rfl]
  · rw [Function.update_of_ne here, if_neg here, List.append_nil]

theorem add_succ_outcome (layout : Block → List Inst) (laid : body.Laid layout) (source target : Block)
    (inside : body.blocks.contains source = true) :
    ∃ other, body.addSucc source target = .ok other ∧ other.Laid layout ∧ other.entry = body.entry ∧
      other.cells = body.cells ∧ (∀ block, other.blocks.contains block = body.blocks.contains block) ∧
      other.preds = body.preds ∧ ∀ block, other.succs block = body.succs block ++ if block = source then [target] else [] := by
  obtain ⟨data, found⟩ := (Arena.contains_iff _ _).mp inside
  let now : BasicBlock := { data with succs := data.succs ++ [target] }
  let other : Body := { body with blocks := body.blocks.put source now }
  obtain ⟨otherLaid, present, succs, preds⟩ := reedge_laid body other layout laid source data now found rfl rfl
  have leaves : data.succs = body.succs source := by simp [Body.succs, found]
  have enters : now.preds = body.preds source := by simp [Body.preds, found, now]
  refine ⟨other, ?_, otherLaid, rfl, rfl, present, ?_, fun block => ?_⟩
  · rw [addSucc, (modify_present body.blocks source data _ found).1]
    rfl
  · rw [preds, enters, Function.update_eq_self]
  · rw [succs, ← update_appended, ← leaves]

theorem add_pred_outcome (layout : Block → List Inst) (laid : body.Laid layout) (target source : Block)
    (inside : body.blocks.contains target = true) :
    ∃ other, body.addPred target source = .ok other ∧ other.Laid layout ∧ other.entry = body.entry ∧
      other.cells = body.cells ∧ (∀ block, other.blocks.contains block = body.blocks.contains block) ∧
      other.succs = body.succs ∧ ∀ block, other.preds block = body.preds block ++ if block = target then [source] else [] := by
  obtain ⟨data, found⟩ := (Arena.contains_iff _ _).mp inside
  let now : BasicBlock := { data with preds := data.preds ++ [source] }
  let other : Body := { body with blocks := body.blocks.put target now }
  obtain ⟨otherLaid, present, succs, preds⟩ := reedge_laid body other layout laid target data now found rfl rfl
  have leaves : now.succs = body.succs target := by simp [Body.succs, found, now]
  have enters : data.preds = body.preds target := by simp [Body.preds, found]
  refine ⟨other, ?_, otherLaid, rfl, rfl, present, ?_, fun block => ?_⟩
  · rw [addPred, (modify_present body.blocks target data _ found).1]
    rfl
  · rw [succs, leaves, Function.update_eq_self]
  · rw [preds, ← update_appended, ← enters]

theorem edges_agree_grown (edges : body.EdgesAgree) (source target : Block)
    (sourceInside : body.blocks.contains source = true) (targetInside : body.blocks.contains target = true)
    (inside : ∀ block, other.blocks.contains block = body.blocks.contains block)
    (succs : ∀ block, other.succs block = body.succs block ++ if block = source then [target] else [])
    (preds : ∀ block, other.preds block = body.preds block ++ if block = target then [source] else []) :
    other.EdgesAgree where
  succInside := fun block succ edge => by
    rw [inside]
    rw [succs, List.mem_append] at edge
    rcases edge with old | new
    · exact edges.succInside block succ old
    · split at new
      · exact List.mem_singleton.mp new ▸ targetInside
      · cases new
  predInside := fun block pred edge => by
    rw [inside]
    rw [preds, List.mem_append] at edge
    rcases edge with old | new
    · exact edges.predInside block pred old
    · split at new
      · exact List.mem_singleton.mp new ▸ sourceInside
      · cases new
  counts := fun first second => by
    rw [succs, preds, List.count_append, List.count_append, edges.counts]
    by_cases out : first = source
    · by_cases into : second = target
      · simp [out, into]
      · simp [out, into, Ne.symm into]
    · by_cases into : second = target
      · simp [out, into, Ne.symm out]
      · simp [out, into]

include linked

-- An edge is noted at its two ends one after the other; in between the counts differ by one.
theorem add_edge_linked (source target : Block) (sourceInside : body.blocks.contains source = true)
    (targetInside : body.blocks.contains target = true) :
    ∃ other, body.addEdge source target = .ok other ∧ other.WellLinked := by
  obtain ⟨middle, noted, middleLaid, middleEntry, middleCells, middleInside, samePreds, succs⟩ :=
    add_succ_outcome body body.layout linked.laid source target sourceInside
  obtain ⟨last, answered, lastLaid, lastEntry, lastCells, lastInside, sameSuccs, preds⟩ :=
    add_pred_outcome middle body.layout middleLaid target source ((middleInside target).trans targetInside)
  have inside (block : Block) : last.blocks.contains block = body.blocks.contains block :=
    (lastInside block).trans (middleInside block)
  have entry : last.entry = body.entry := lastEntry.trans middleEntry
  have parents : last.parent? = body.parent? := by
    funext inst
    rw [parent?, parent?, lastCells, middleCells]
  have same := layout_laid last body.layout lastLaid
  refine ⟨last, ?_, ?_, same.symm ▸ lastLaid, ?_, ?_⟩
  · rw [addEdge, noted]
    exact answered
  · rw [entry, inside]
    exact linked.entry
  · exact edges_agree_grown body last linked.edges source target sourceInside targetInside inside
      (fun block => sameSuccs ▸ succs block) fun block => samePreds ▸ preds block
  · rw [same, parents]
    exact linked.owned

theorem remove_marked_from_linked (blocks : List Block) (inside : ∀ block ∈ blocks, body.blocks.contains block = true) :
    ∃ other count, body.removeMarkedFrom blocks = .ok (other, count) ∧ other.WellLinked := by
  induction blocks generalizing body with
  | nil => exact ⟨body, 0, rfl, linked⟩
  | cons block rest ih =>
    obtain ⟨data, found⟩ := (Arena.contains_iff _ _).mp (inside block List.mem_cons_self)
    obtain ⟨chain, cells, removed, swept⟩ := sweep_block_laid body body.layout linked.laid block data found
    let middle : Body := { body with blocks := body.blocks.put block { data with chain := chain }, cells := cells }
    obtain ⟨frame, laid, _⟩ := swept middle rfl
    have parents := Chain.remove_marked_parents data.chain body.cells chain cells _ (body.layout block)
      (linked.laid.chains block data found) removed
    have middleLinked : middle.WellLinked := by
      refine linked_frame body middle _ linked frame laid fun inst owner parent valid => ?_
      have change : Cells.parent? cells inst = some owner := parent
      rw [parents] at change
      split at change
      · exact (valid (Option.some.inj change).symm).elim
      · rename_i stays
        have old := linked.owned inst owner change valid
        by_cases same : owner = block
        · rw [same, Function.update_self]
          rw [same] at old
          refine List.mem_filter.mpr ⟨old, ?_⟩
          have unmarked : ¬ Chain.isMarked body.cells inst = true := fun marked => stays (List.mem_filter.mpr ⟨old, marked⟩)
          simpa [isMarked] using unmarked
        · rwa [Function.update_of_ne same]
    obtain ⟨last, count, done, lastLinked⟩ := ih middle middleLinked fun other member =>
      (frame_contains body middle frame other).trans (inside other (List.mem_cons_of_mem _ member))
    refine ⟨last, ((body.layout block).filter body.isMarked).length + count, ?_, lastLinked⟩
    simp only [removeMarkedFrom, Arena.get, found, bind, Except.bind, removed]
    rw [done]
    rfl

theorem remove_marked_linked : ∃ other count, body.removeMarked = .ok (other, count) ∧ other.WellLinked :=
  remove_marked_from_linked body linked body.blocks.refs fun _ member => (Arena.mem_refs_iff _ _).mp member

omit linked

theorem adopt_all_outcome (block : Block) (insts : List Inst) (present : ∀ inst ∈ insts, body.cells.contains inst = true) :
    ∃ cells, insts.foldlM (fun body inst => body.adopt block inst) body = .ok { body with cells := cells } ∧
      Cells.Edited body.cells cells nowhere (· ∈ insts) nowhere ∧
      ∀ inst, Cells.parent? cells inst = if inst ∈ insts then some block else body.parent? inst := by
  induction insts generalizing body with
  | nil => exact ⟨body.cells, rfl, edited_refl _ _ _ _, fun _ => rfl⟩
  | cons inst rest ih =>
    obtain ⟨cell, found⟩ := (Arena.contains_iff _ _).mp (present inst List.mem_cons_self)
    obtain ⟨first, recorded, firstEdited, here⟩ := adopt_edited body.cells inst cell found block
    have restPresent : ∀ other ∈ rest, first.contains other = true := by
      intro other member
      obtain ⟨old, known⟩ := (Arena.contains_iff _ _).mp (present other (List.mem_cons_of_mem _ member))
      obtain ⟨now, there⟩ := edited_present _ _ _ _ _ firstEdited other old known
      exact Arena.contains_of_get _ _ _ there
    obtain ⟨cells, done, edited, parents⟩ := ih { body with cells := first } restPresent
    refine ⟨cells, ?_, ?_, fun other => ?_⟩
    · rw [List.foldlM_cons, adopt, recorded]
      exact done
    · exact edited_trans _ first _ _ _ _
        (edited_mono _ _ _ _ _ _ _ _ firstEdited (fun _ => id) (fun other same => same ▸ List.mem_cons_self) (fun _ => id))
        (edited_mono _ _ _ _ _ _ _ _ edited (fun _ => id) (fun other member => List.mem_cons_of_mem _ member) (fun _ => id))
    · have sets : Cells.parent? first = Function.update body.parent? inst (some block) :=
        modify_sets_parent body.cells first inst _ block recorded fun _ => rfl
      rw [parents]
      have middle : Body.parent? { body with cells := first } other = Cells.parent? first other := rfl
      rw [middle, sets]
      by_cases same : other = inst
      · simp [same]
      · simp [same]

theorem adopt_concat (block : Block) (list chain : Chain) (old insts : List Inst) (listHolds : list.Holds body.cells old)
    (holds : chain.Holds body.cells insts) (apart : ∀ inst ∈ old, inst ∉ insts) :
    ∃ adopted joined cells, insts.foldlM (fun body inst => body.adopt block inst) body = .ok { body with cells := adopted } ∧
      list.concat adopted chain = .ok (joined, cells) ∧ joined.Holds cells (old ++ insts) ∧
      Cells.Edited body.cells cells (· ∈ old ++ insts) (· ∈ insts) nowhere ∧
      ∀ inst, Cells.parent? cells inst = if inst ∈ insts then some block else body.parent? inst := by
  have present (inst : Inst) (member : inst ∈ insts) : body.cells.contains inst = true := by
    obtain ⟨cell, known⟩ := linked_present body.cells _ _ _ holds.linked inst member
    exact Arena.contains_of_get _ _ _ known
  obtain ⟨adopted, recorded, adoptedEdited, parents⟩ := adopt_all_outcome body block insts present
  have still (chain : Chain) (insts : List Inst) (holds : chain.Holds body.cells insts) : chain.Holds adopted insts :=
    holds_of_edited chain body.cells adopted insts _ _ _ adoptedEdited (fun _ _ no => no) holds
  obtain ⟨joined, cells, spliced, joinedHolds, edited⟩ :=
    Chain.concat_holds list chain adopted old insts (still list old listHolds) (still chain insts holds) apart
  refine ⟨adopted, joined, cells, recorded, spliced, joinedHolds, edited_trans _ adopted _ _ _ _
    (edited_mono _ _ _ _ _ _ _ _ adoptedEdited (fun _ no => no.elim) (fun _ => id) (fun _ => id))
    (edited_mono _ _ _ _ _ _ _ _ edited (fun _ => id) (fun _ no => no.elim) (fun _ => id)), fun inst => ?_⟩
  rw [Chain.concat_parents _ _ _ _ _ spliced]
  exact parents inst

include linked

section Spliced

variable (block : Block) (insts : List Inst) (unplaced : ∀ inst ∈ insts, ∀ elsewhere, inst ∉ body.layout elsewhere)
  (parents : ∀ inst, other.parent? inst = if inst ∈ insts then some block else body.parent? inst)

include unplaced parents

theorem spliced_laid (data : BasicBlock) (joined : Chain) (found : body.blocks.get? block = some data)
    (blocks : other.blocks = body.blocks.put block { data with chain := joined })
    (holds : joined.Holds other.cells (body.layout block ++ insts))
    (edited : Cells.Edited body.cells other.cells (· ∈ body.layout block ++ insts) (· ∈ insts) nowhere) :
    other.Laid (Function.update body.layout block (body.layout block ++ insts)) := by
  refine laid_relist body other body.layout linked.laid block data joined _ found blocks holds ?_ ?_ ?_
  · intro elsewhere apart inst there
    refine edited.links inst fun member => ?_
    rcases List.mem_append.mp member with here | new
    · exact apart (placed_once body body.layout linked.laid elsewhere block inst there here)
    · exact unplaced inst new elsewhere there
  · intro elsewhere _ inst there
    exact edited.parent inst fun new => unplaced inst new elsewhere there
  · intro inst member
    refine (parents inst).trans ?_
    by_cases new : inst ∈ insts
    · rw [if_pos new]
    · rw [if_neg new]
      have old := (List.mem_append.mp member).resolve_right new
      exact Option.map_eq_some_iff.mpr (linked.laid.parents block inst old)

omit unplaced in
theorem spliced_owned (inst : Inst) (owner : Block) (parent : other.parent? inst = some owner) (valid : owner ≠ .invalid) :
    inst ∈ Function.update body.layout block (body.layout block ++ insts) owner := by
  rw [parents] at parent
  by_cases new : inst ∈ insts
  · rw [if_pos new] at parent
    cases parent
    rw [Function.update_self]
    exact List.mem_append_right _ new
  · rw [if_neg new] at parent
    have old := linked.owned inst owner parent valid
    by_cases same : owner = block
    · rw [same, Function.update_self]
      exact List.mem_append_left _ (same ▸ old)
    · rwa [Function.update_of_ne same]

end Spliced

theorem append_chain_linked (block : Block) (chain : Chain) (insts : List Inst) (inside : body.blocks.contains block = true)
    (holds : chain.Holds body.cells insts) (unplaced : ∀ inst ∈ insts, ∀ elsewhere, inst ∉ body.layout elsewhere) :
    ∃ other, body.appendChain block chain = .ok other ∧ other.WellLinked ∧ other.operation? = body.operation? := by
  obtain ⟨data, found⟩ := (Arena.contains_iff _ _).mp inside
  obtain ⟨adopted, joined, cells, recorded, spliced, joinedHolds, edited, parents⟩ :=
    adopt_concat body block data.chain chain (body.layout block) insts (linked.laid.chains block data found) holds
      fun inst placed member => unplaced inst member block placed
  let last : Body := { body with blocks := body.blocks.put block { data with chain := joined }, cells := cells }
  have laid := spliced_laid body last linked block insts unplaced parents data joined found rfl joinedHolds edited
  have frame := relist_frame body last block data joined found rfl edited.size
  refine ⟨last, ?_, linked_frame body last _ linked frame laid (spliced_owned body last linked block insts parents),
    funext edited.operation⟩
  simp only [appendChain, Chain.members_holds chain body.cells insts holds, bind, Except.bind, recorded, editChain,
    Arena.get, found, spliced]
  rfl

theorem detached_linked {ι : Type} [DecidableEq ι] (family : ChainFamily ι) (model : ListFamily ι) (threads : family.Threads model)
    (cells : family.cells = body.cells) (step : ChainStep ι) (allowed : step.Allowed family.cells.contains model.lists)
    (unplaced : ∀ name, ∀ inst ∈ model.lists name, ∀ block, inst ∉ body.layout block)
    (new : ∀ inst ∈ step.placed?, ∀ block, inst ∉ body.layout block) :
    ∃ next answer, step.onChains family = .ok (next, answer) ∧ WellLinked { body with cells := next.cells } ∧
      operation? { body with cells := next.cells } = body.operation? := by
  obtain ⟨next, answer, done, edited, parents⟩ := family.step_spares model threads step allowed
  rw [cells] at edited parents
  have untouched (block : Block) (inst : Inst) (member : inst ∈ body.layout block) : ¬ step.Touches model.lists inst := by
    rintro (placed | ⟨name, listed⟩)
    · exact new inst placed block member
    · exact unplaced name inst listed block member
  refine ⟨next, answer, done, linked_grown body _ linked rfl (fun _ => id) rfl rfl (laid_elsewhere body _ linked rfl
    (fun block inst member => edited.links inst (untouched block inst member))
    fun block inst member => edited.parent inst (untouched block inst member)) fun inst block parent valid => ?_,
    funext edited.operation⟩
  rcases parents inst with same | cleared
  · exact same.symm.trans parent
  · exact (valid (Option.some.inj (parent.symm.trans cleared))).elim

end Grown

end Body

end ThreeAddress
