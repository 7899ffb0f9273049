import Mathlib.Logic.Function.Basic
import ThreeAddress.Body.Edit
import ThreeAddress.Proofs.Body.Placed
import ThreeAddress.Proofs.Chain.Edits
import ThreeAddress.Proofs.Flow.Reachability

/-!
What each edit of a body does to the lists of its blocks. Edits never fail on a body whose lists are laid out,
and they leave edges, variables and the number of instructions alone.
-/

set_option autoImplicit false

namespace ThreeAddress

namespace Body

structure SameFrame (body other : Body) : Prop where
  name : other.name = body.name
  entry : other.entry = body.entry
  vars : other.vars = body.vars
  blocks : other.blocks.size = body.blocks.size
  cells : other.cells.size = body.cells.size
  succs : ∀ block, other.succs block = body.succs block
  preds : ∀ block, other.preds block = body.preds block

def isMarked (body : Body) (inst : Inst) : Bool := Chain.isMarked body.cells inst

theorem frame_refl (body : Body) : body.SameFrame body where
  name := rfl
  entry := rfl
  vars := rfl
  blocks := rfl
  cells := rfl
  succs := fun _ => rfl
  preds := fun _ => rfl

theorem frame_trans (body middle other : Body) (first : body.SameFrame middle) (second : middle.SameFrame other) :
    body.SameFrame other where
  name := second.name.trans first.name
  entry := second.entry.trans first.entry
  vars := second.vars.trans first.vars
  blocks := second.blocks.trans first.blocks
  cells := second.cells.trans first.cells
  succs := fun block => (second.succs block).trans (first.succs block)
  preds := fun block => (second.preds block).trans (first.preds block)

theorem frame_contains (body other : Body) (frame : body.SameFrame other) (block : Block) :
    other.blocks.contains block = body.blocks.contains block := by
  have size : other.blocks.slots.size = body.blocks.slots.size := frame.blocks
  cases block with
  | invalid => rfl
  | nth index => simp only [Arena.contains, size]

theorem frame_path (body other : Body) (frame : body.SameFrame other) (source target : Block) (blocks : List Block)
    (path : Path body source blocks target) : Path other source blocks target := by
  induction path with
  | here block => exact .here block
  | step source succ target blocks edge _ ih => exact .step source succ target blocks (frame.succs source ▸ edge) ih

theorem frame_symm (body other : Body) (frame : body.SameFrame other) : other.SameFrame body where
  name := frame.name.symm
  entry := frame.entry.symm
  vars := frame.vars.symm
  blocks := frame.blocks.symm
  cells := frame.cells.symm
  succs := fun block => (frame.succs block).symm
  preds := fun block => (frame.preds block).symm

theorem frame_reaches (body other : Body) (frame : body.SameFrame other) (block : Block) :
    other.Reaches other.entry block ↔ body.Reaches body.entry block := by
  rw [frame.entry]
  constructor
  · exact fun ⟨blocks, path⟩ => ⟨blocks, frame_path other body (frame_symm body other frame) _ _ _ path⟩
  · exact fun ⟨blocks, path⟩ => ⟨blocks, frame_path body other frame _ _ _ path⟩

theorem frame_edges (body other : Body) (frame : body.SameFrame other) (edges : body.EdgesAgree) : other.EdgesAgree where
  succInside := fun block succ edge => by
    rw [frame.succs] at edge
    rw [frame_contains body other frame]
    exact edges.succInside block succ edge
  predInside := fun block pred edge => by
    rw [frame.preds] at edge
    rw [frame_contains body other frame]
    exact edges.predInside block pred edge
  counts := fun source target => by rw [frame.succs, frame.preds, edges.counts]

theorem is_marked_eq (body other : Body) (inst : Inst)
    (same : (other.cells.get? inst).map Cell.mark = (body.cells.get? inst).map Cell.mark) :
    other.isMarked inst = body.isMarked inst :=
  Chain.is_marked_congr body.cells other.cells inst same

theorem relist_frame (body other : Body) (block : Block) (data : BasicBlock) (chain : Chain)
    (found : body.blocks.get? block = some data)
    (changed : other = { body with blocks := body.blocks.put block { data with chain := chain }, cells := other.cells })
    (cells : other.cells.size = body.cells.size) : body.SameFrame other := by
  have reads := fun elsewhere => Arena.get_put body.blocks block elsewhere { data with chain := chain }
    (Arena.contains_of_get _ _ _ found)
  have blocks : other.blocks = body.blocks.put block { data with chain := chain } := by rw [changed]
  refine ⟨by rw [changed], by rw [changed], by rw [changed], ?_, cells, fun elsewhere => ?_, fun elsewhere => ?_⟩
  · rw [blocks, Arena.size_put]
  · rw [succs, succs, blocks, reads]
    by_cases same : block = elsewhere
    · rw [if_pos same, ← same, found]
      rfl
    · rw [if_neg same]
  · rw [preds, preds, blocks, reads]
    by_cases same : block = elsewhere
    · rw [if_pos same, ← same, found]
      rfl
    · rw [if_neg same]

section Laid

variable (body other : Body) (layout : Block → List Inst) (laid : body.Laid layout)

include laid

theorem operation_placed (block : Block) (inst : Inst) (member : inst ∈ layout block) :
    ∃ operation, body.operation? inst = some operation ∧ body.operation inst = .ok operation := by
  obtain ⟨cell, found, _⟩ := laid.parents block inst member
  refine ⟨cell.operation, by rw [operation?, found]; rfl, ?_⟩
  rw [operation, Arena.get_of_get _ _ _ found]
  rfl

theorem laid_congr (blocks : other.blocks = body.blocks)
    (links : ∀ inst, Cells.links? other.cells inst = Cells.links? body.cells inst)
    (parents : ∀ inst, (other.cells.get? inst).map Cell.block = (body.cells.get? inst).map Cell.block) :
    other.Laid layout where
  chains := fun block data found => by
    have holds := laid.chains block data (blocks ▸ found)
    exact ⟨(linked_congr _ _ _ _ _ fun inst _ => links inst).mpr holds.linked, holds.head, holds.tail, holds.size⟩
  parents := fun block inst member => by
    obtain ⟨cell, found, parent⟩ := laid.parents block inst member
    have same := parents inst
    rw [found] at same
    obtain ⟨now, present, kept⟩ := Option.map_eq_some_iff.mp same
    exact ⟨now, present, kept.trans parent⟩
  outside := fun block missing => laid.outside block (blocks ▸ missing)

-- One list changes; the members of the others keep their links and parents.
theorem laid_relist (block : Block) (data : BasicBlock) (chain : Chain) (insts : List Inst)
    (found : body.blocks.get? block = some data)
    (blocks : other.blocks = body.blocks.put block { data with chain := chain })
    (holds : chain.Holds other.cells insts)
    (links : ∀ elsewhere, elsewhere ≠ block → ∀ inst ∈ layout elsewhere,
      Cells.links? other.cells inst = Cells.links? body.cells inst)
    (parents : ∀ elsewhere, elsewhere ≠ block → ∀ inst ∈ layout elsewhere,
      (other.cells.get? inst).map Cell.block = (body.cells.get? inst).map Cell.block)
    (own : ∀ inst ∈ insts, (other.cells.get? inst).map Cell.block = some block) :
    other.Laid (Function.update layout block insts) := by
  have reads := fun elsewhere => Arena.get_put body.blocks block elsewhere { data with chain := chain }
    (Arena.contains_of_get _ _ _ found)
  refine ⟨fun elsewhere now present => ?_, fun elsewhere inst member => ?_, fun elsewhere missing => ?_⟩
  · rw [blocks, reads] at present
    by_cases same : block = elsewhere
    · rw [if_pos same] at present
      cases present
      rw [← same, Function.update_self]
      exact holds
    · rw [if_neg same] at present
      rw [Function.update_of_ne (Ne.symm same)]
      have old := laid.chains elsewhere now present
      exact ⟨(linked_congr _ _ _ _ _ fun inst member => links elsewhere (Ne.symm same) inst member).mpr old.linked,
        old.head, old.tail, old.size⟩
  · by_cases same : elsewhere = block
    · rw [same, Function.update_self] at member
      rw [same]
      exact Option.map_eq_some_iff.mp (own inst member)
    · rw [Function.update_of_ne same] at member
      obtain ⟨cell, there, parent⟩ := laid.parents elsewhere inst member
      have kept := parents elsewhere same inst member
      rw [there] at kept
      obtain ⟨now, present, keeps⟩ := Option.map_eq_some_iff.mp kept
      exact ⟨now, present, keeps.trans parent⟩
  · rw [blocks, reads] at missing
    by_cases same : block = elsewhere
    · rw [if_pos same] at missing
      cases missing
    · rw [if_neg same] at missing
      rw [Function.update_of_ne (Ne.symm same)]
      exact laid.outside elsewhere missing

theorem set_operation_laid (inst : Inst) (old operation : Operation) (found : body.operation? inst = some old) :
    ∃ other, body.setOperation inst operation = .ok other ∧ body.SameFrame other ∧ other.Laid layout ∧
      other.operation? = Function.update body.operation? inst (some operation) ∧ other.isMarked = body.isMarked := by
  obtain ⟨cell, present, _⟩ := Option.map_eq_some_iff.mp found
  obtain ⟨done, reads⟩ := modify_present body.cells inst cell (fun cell => { cell with operation := operation }) present
  have kept {β : Type} (view : Cell → β) (blind : view { cell with operation := operation } = view cell) (elsewhere : Inst) :
      ((body.cells.put inst { cell with operation := operation }).get? elsewhere).map view =
        (body.cells.get? elsewhere).map view := by
    rw [reads]
    by_cases same : inst = elsewhere
    · rw [if_pos same, ← same, present, Option.map_some, Option.map_some, blind]
    · rw [if_neg same]
  refine ⟨{ body with cells := body.cells.put inst { cell with operation := operation } }, ?_,
    ⟨rfl, rfl, rfl, rfl, Arena.size_put _ _ _, fun _ => rfl, fun _ => rfl⟩, ?_, ?_, ?_⟩
  · rw [setOperation, done]
    rfl
  · exact laid_congr body _ layout laid rfl (kept (fun cell => (cell.prev, cell.next)) rfl) (kept Cell.block rfl)
  · funext elsewhere
    by_cases same : inst = elsewhere
    · rw [← same, Function.update_self, operation?]
      simp only [reads, if_true]
      rfl
    · rw [Function.update_of_ne (Ne.symm same), operation?]
      simp only [reads, if_neg same]
      rfl
  · exact funext fun elsewhere => is_marked_eq body _ elsewhere (kept Cell.mark rfl elsewhere)

theorem set_mark_laid (inst : Inst) (mark : Bool) (block : Block) (member : inst ∈ layout block) :
    ∃ other, body.setMark inst mark = .ok other ∧ body.SameFrame other ∧ other.Laid layout ∧
      other.operation? = body.operation? ∧ other.isMarked = Function.update body.isMarked inst mark := by
  obtain ⟨cell, present, _⟩ := laid.parents block inst member
  obtain ⟨cells, done, edited, here⟩ := mark_edited body.cells inst cell present mark
  refine ⟨{ body with cells := cells }, ?_, ⟨rfl, rfl, rfl, rfl, edited.size, fun _ => rfl, fun _ => rfl⟩, ?_, ?_, ?_⟩
  · rw [setMark, done]
    rfl
  · exact laid_congr body _ layout laid rfl (fun other => edited.links other id) (fun other => edited.parent other id)
  · exact funext edited.operation
  · funext other
    by_cases same : other = inst
    · rw [same, Function.update_self, isMarked, Chain.isMarked, here]
      rfl
    · rw [Function.update_of_ne same]
      exact is_marked_eq body _ other (edited.mark other same)

theorem unlink_laid (block : Block) (inst : Inst) (member : inst ∈ layout block) :
    ∃ other, body.unlink inst = .ok other ∧ body.SameFrame other ∧
      other.Laid (Function.update layout block ((layout block).erase inst)) ∧
      other.operation? = body.operation? ∧ other.isMarked = body.isMarked := by
  obtain ⟨cell, present, parent⟩ := laid.parents block inst member
  obtain ⟨data, found⟩ := (Arena.contains_iff _ _).mp (placed_inside body layout laid block inst member)
  obtain ⟨front, back, whole⟩ := List.append_of_mem member
  have once := nodup_layout body layout laid block
  have holds := laid.chains block data found
  have shorter : (layout block).erase inst = front ++ back := by
    rw [whole] at once ⊢
    have absent : inst ∉ front := fun early => (List.nodup_append.mp once).2.2 inst early inst List.mem_cons_self rfl
    rw [List.erase_append_right _ absent, List.erase_cons_head]
  have fresh : inst ∉ (layout block).erase inst := fun still => (List.Nodup.mem_erase_iff once).mp still |>.1 rfl
  rw [whole] at holds
  obtain ⟨chain, cells, done, nowHolds, edited⟩ := Chain.unlink_holds data.chain body.cells front back inst holds
  rw [← whole] at edited
  have elsewhere (other : Block) (apart : other ≠ block) (inst : Inst) (there : inst ∈ layout other) :
      inst ∉ layout block := fun here => apart (placed_once body layout laid other block inst there here)
  refine ⟨{ body with blocks := body.blocks.put block { data with chain := chain }, cells := cells }, ?_,
    relist_frame body _ block data chain found rfl edited.size, ?_, funext edited.operation, ?_⟩
  · simp only [unlink, editChain, Arena.get, present, parent, found, bind, Except.bind, done]
    rfl
  · rw [shorter] at fresh ⊢
    apply laid_relist body _ layout laid block data chain _ found rfl nowHolds
    · exact fun other apart inst there => edited.links inst (elsewhere other apart inst there)
    · intro other apart later there
      apply edited.parent
      intro same
      exact elsewhere other apart later there (same ▸ member)
    · intro later stays
      have there : later ∈ layout block := List.mem_of_mem_erase (shorter ▸ stays)
      obtain ⟨old, foundOld, own⟩ := laid.parents block later there
      rw [edited.parent later fun same => fresh (same ▸ stays), foundOld]
      exact congrArg some own
  · exact funext fun other => is_marked_eq body _ other (edited.mark other id)

theorem join_laid (block : Block) (data : BasicBlock) (insts : List Inst) (inst : Inst) (cell : Cell)
    (found : body.blocks.get? block = some data) (unplaced : ∀ other, inst ∉ layout other) (present : body.cells.get? inst = some cell)
    (only : ∀ other ∈ insts, other = inst ∨ other ∈ layout block) (edit : Chain → Cells → Except Fault (Chain × Cells))
    (chain : Chain) (cells : Cells) (done : edit data.chain body.cells = .ok (chain, cells)) (holds : chain.Holds cells insts)
    (edited : Cells.Edited body.cells cells (· ∈ insts) nowhere nowhere) :
    ∃ other, (do let longer ← body.editChain block edit; longer.adopt block inst) = .ok other ∧ body.SameFrame other ∧
      other.Laid (Function.update layout block insts) ∧ other.operation? = body.operation? ∧
      other.isMarked = body.isMarked := by
  obtain ⟨now, presentNow⟩ := edited_present _ _ _ _ _ edited inst cell present
  obtain ⟨adopted, recorded, adoptedEdited, here⟩ := adopt_edited cells inst now presentNow block
  have outside (other : Block) (apart : other ≠ block) (later : Inst) (there : later ∈ layout other) : later ∉ insts := by
    intro inInsts
    rcases only later inInsts with same | inBlock
    · exact unplaced other (same ▸ there)
    · exact apart (placed_once body layout laid other block later there inBlock)
  refine ⟨{ body with blocks := body.blocks.put block { data with chain := chain }, cells := adopted }, ?_,
    relist_frame body _ block data chain found rfl (adoptedEdited.size.trans edited.size), ?_, ?_, ?_⟩
  · simp only [editChain, adopt, Arena.get, found, bind, Except.bind, done, pure, Except.pure, recorded]
  · have relinked : chain.Holds adopted insts := ⟨(linked_congr cells adopted _ _ insts fun other _ =>
      adoptedEdited.links other id).mpr holds.linked, holds.head, holds.tail, holds.size⟩
    apply laid_relist body _ layout laid block data chain insts found rfl relinked
    · intro other apart later there
      exact (adoptedEdited.links later id).trans (edited.links later (outside other apart later there))
    · intro other apart later there
      have different : later ≠ inst := fun same => unplaced other (same ▸ there)
      exact (adoptedEdited.parent later different).trans (edited.parent later id)
    · intro later inInsts
      by_cases same : later = inst
      · rw [same, here]
        rfl
      · have inBlock := (only later inInsts).resolve_left same
        obtain ⟨old, foundOld, own⟩ := laid.parents block later inBlock
        rw [adoptedEdited.parent later same, edited.parent later id, foundOld]
        exact congrArg some own
  · exact funext fun other => (adoptedEdited.operation other).trans (edited.operation other)
  · exact funext fun other => is_marked_eq body _ other ((adoptedEdited.mark other id).trans (edited.mark other id))

theorem insert_before_laid (block : Block) (front back : List Inst) (member inst : Inst) (cell : Cell)
    (whole : layout block = front ++ member :: back) (unplaced : ∀ other, inst ∉ layout other)
    (present : body.cells.get? inst = some cell) :
    ∃ other, body.insertBefore member inst = .ok other ∧ body.SameFrame other ∧
      other.Laid (Function.update layout block (front ++ inst :: member :: back)) ∧
      other.operation? = body.operation? ∧ other.isMarked = body.isMarked := by
  have placed : member ∈ layout block := by
    rw [whole]
    exact List.mem_append_right _ List.mem_cons_self
  obtain ⟨old, foundOld, parent⟩ := laid.parents block member placed
  obtain ⟨data, found⟩ := (Arena.contains_iff _ _).mp (placed_inside body layout laid block member placed)
  obtain ⟨chain, cells, done, holds, edited⟩ := Chain.insert_before_holds data.chain body.cells front back member inst
    (whole ▸ laid.chains block data found) (whole ▸ unplaced block) cell present
  have only : ∀ other ∈ front ++ inst :: member :: back, other = inst ∨ other ∈ layout block := by
    intro other inInsts
    simp only [whole, List.mem_append, List.mem_cons] at inInsts ⊢
    tauto
  obtain ⟨other, joined, rest⟩ := join_laid body layout laid block data _ inst cell found unplaced present only
    (·.insertBefore · member inst) chain cells done holds edited
  refine ⟨other, ?_, rest⟩
  rw [insertBefore, Arena.get_of_get _ _ _ foundOld]
  simp only [bind, Except.bind, parent]
  exact joined

theorem append_laid (block : Block) (data : BasicBlock) (inst : Inst) (cell : Cell)
    (found : body.blocks.get? block = some data) (unplaced : ∀ other, inst ∉ layout other)
    (present : body.cells.get? inst = some cell) :
    ∃ other, body.append block inst = .ok other ∧ body.SameFrame other ∧
      other.Laid (Function.update layout block (layout block ++ [inst])) ∧
      other.operation? = body.operation? ∧ other.isMarked = body.isMarked := by
  obtain ⟨chain, cells, done, holds, edited⟩ := Chain.append_holds data.chain body.cells (layout block) inst
    (laid.chains block data found) (unplaced block) cell present
  have only : ∀ other ∈ layout block ++ [inst], other = inst ∨ other ∈ layout block := by
    intro other inInsts
    simp only [List.mem_append, List.mem_singleton] at inInsts
    exact inInsts.symm
  exact join_laid body layout laid block data _ inst cell found unplaced present only (·.append · inst) chain cells done
    holds edited

theorem terminator_laid (block : Block) (inside : body.blocks.contains block = true) :
    body.terminator? block =
      .ok ((layout block).getLast?.filter fun last => (body.operation? last).any Operation.isTerminator) := by
  obtain ⟨data, found⟩ := (Arena.contains_iff _ _).mp inside
  have holds := laid.chains block data found
  rw [terminator?, Arena.get_of_get _ _ _ found]
  simp only [bind, Except.bind]
  rcases List.eq_nil_or_concat (layout block) with none | ⟨early, last, whole⟩
  · rw [holds.tail, none]
    rfl
  · have placed : last ∈ layout block := by simp [whole]
    obtain ⟨operation, known, reads⟩ := operation_placed body layout laid block last placed
    have ends : (layout block).getLastD .invalid = last := by simp [whole]
    have closes : (layout block).getLast? = some last := by simp [whole]
    rw [holds.tail, ends, closes]
    cases last with
    | invalid => simp [operation?, Arena.get?] at known
    | nth index =>
      simp only [reads, Option.filter_some, known, Option.any_some]
      by_cases terminates : operation.isTerminator = true <;> simp [terminates, pure, Except.pure]

omit laid

def beforeTerminator (body : Body) (insts : List Inst) (inst : Inst) : List Inst :=
  match insts.getLast?.filter fun last => (body.operation? last).any Operation.isTerminator with
  | some last => insts.dropLast ++ [inst, last]
  | none => insts ++ [inst]

include laid

theorem before_terminator_laid (block : Block) (inst : Inst) (cell : Cell) (inside : body.blocks.contains block = true)
    (unplaced : ∀ other, inst ∉ layout other) (present : body.cells.get? inst = some cell) :
    ∃ other, (do match ← body.terminator? block with
        | some last => body.insertBefore last inst
        | none => body.append block inst) = .ok other ∧ body.SameFrame other ∧
      other.Laid (Function.update layout block (body.beforeTerminator (layout block) inst)) ∧
      other.operation? = body.operation? ∧ other.isMarked = body.isMarked := by
  rw [terminator_laid body layout laid block inside, beforeTerminator]
  cases ends : (layout block).getLast?.filter fun last => (body.operation? last).any Operation.isTerminator with
  | some last =>
    have final : (layout block).getLast? = some last := (Option.filter_eq_some_iff.mp ends).1
    have whole : layout block = (layout block).dropLast ++ last :: [] := by
      rw [List.dropLast_append_getLast? last final]
    exact insert_before_laid body layout laid block (layout block).dropLast [] last inst cell whole unplaced present
  | none =>
    obtain ⟨data, found⟩ := (Arena.contains_iff _ _).mp inside
    exact append_laid body layout laid block data inst cell found unplaced present

theorem erased_unplaced (source : Block) (inst : Inst) (member : inst ∈ layout source) (other : Block) :
    inst ∉ Function.update layout source ((layout source).erase inst) other := by
  intro there
  by_cases same : other = source
  · rw [same, Function.update_self] at there
    exact ((List.Nodup.mem_erase_iff (nodup_layout body layout laid source)).mp there).1 rfl
  · rw [Function.update_of_ne same] at there
    exact same (placed_once body layout laid other source inst there member)

theorem move_laid (source block : Block) (inst : Inst) (member : inst ∈ layout source) (apart : block ≠ source)
    (inside : body.blocks.contains block = true) :
    ∃ other, body.moveBeforeTerminator inst block = .ok other ∧ body.SameFrame other ∧
      other.Laid (Function.update (Function.update layout source ((layout source).erase inst)) block
        (body.beforeTerminator (layout block) inst)) ∧
      other.operation? = body.operation? ∧ other.isMarked = body.isMarked := by
  obtain ⟨middle, unlinked, frame, middleLaid, operations, marks⟩ := unlink_laid body layout laid source inst member
  have insideMiddle : middle.blocks.contains block = true := (frame_contains body middle frame block).trans inside
  obtain ⟨cell, present, _⟩ := laid.parents source inst member
  obtain ⟨now, presentMiddle⟩ : ∃ now, middle.cells.get? inst = some now := by
    have same := congrFun operations inst
    rw [operation?, operation?, present] at same
    obtain ⟨now, found, _⟩ := Option.map_eq_some_iff.mp same
    exact ⟨now, found⟩
  obtain ⟨other, placed, otherFrame, otherLaid, otherOperations, otherMarks⟩ :=
    before_terminator_laid middle _ middleLaid block inst now insideMiddle
      (erased_unplaced body layout laid source inst member) presentMiddle
  rw [Function.update_of_ne apart, beforeTerminator, operations] at otherLaid
  refine ⟨other, ?_, frame_trans body middle other frame otherFrame, otherLaid, otherOperations.trans operations,
    otherMarks.trans marks⟩
  rw [moveBeforeTerminator, unlinked]
  exact placed

def unmarkedIn (body : Body) (insts : List Inst) : List Inst := insts.filter fun inst => !body.isMarked inst

theorem sweep_block_laid (block : Block) (data : BasicBlock) (found : body.blocks.get? block = some data) :
    ∃ chain cells, data.chain.removeMarked body.cells = .ok (chain, cells, ((layout block).filter body.isMarked).length) ∧
      ∀ middle : Body, middle = { body with blocks := body.blocks.put block { data with chain := chain }, cells := cells } →
        body.SameFrame middle ∧ middle.Laid (Function.update layout block (body.unmarkedIn (layout block))) ∧
        middle.operation? = body.operation? ∧
        ∀ other, ∀ inst ∈ Function.update layout block (body.unmarkedIn (layout block)) other,
          middle.isMarked inst = body.isMarked inst := by
  obtain ⟨chain, cells, removed, holds, edited, _⟩ := Chain.remove_marked_holds data.chain body.cells (layout block)
    (laid.chains block data found)
  refine ⟨chain, cells, removed, fun middle made => ?_⟩
  cases made
  have elsewhere (other : Block) (apart : other ≠ block) (inst : Inst) (there : inst ∈ layout other) :
      inst ∉ layout block := fun here => apart (placed_once body layout laid other block inst there here)
  have stays (inst : Inst) (member : inst ∈ body.unmarkedIn (layout block)) :
      inst ∉ (layout block).filter (Chain.isMarked body.cells) := by
    intro gone
    have marked := (List.mem_filter.mp gone).2
    have unmarked := (List.mem_filter.mp member).2
    rw [isMarked, marked] at unmarked
    cases unmarked
  refine ⟨relist_frame body _ block data chain found rfl edited.size, ?_, funext edited.operation, fun other inst member => ?_⟩
  · apply laid_relist body _ layout laid block data chain _ found rfl holds
    · exact fun other apart inst there => edited.links inst (elsewhere other apart inst there)
    · intro other apart inst there
      exact edited.parent inst fun gone => elsewhere other apart inst there (List.mem_filter.mp gone).1
    · intro inst member
      obtain ⟨old, foundOld, own⟩ := laid.parents block inst (List.mem_filter.mp member).1
      rw [edited.parent inst (stays inst member), foundOld]
      exact congrArg some own
  · apply is_marked_eq body _ inst
    apply edited.mark inst
    by_cases same : other = block
    · rw [same, Function.update_self] at member
      exact stays inst member
    · rw [Function.update_of_ne same] at member
      exact fun gone => elsewhere other same inst member (List.mem_filter.mp gone).1

def unmarkedLayout (body : Body) (layout : Block → List Inst) (blocks : List Block) (block : Block) : List Inst :=
  if block ∈ blocks then body.unmarkedIn (layout block) else layout block

omit laid in
theorem unmarked_layout_subset (block : Block) (rest : List Block) (other : Block) (inst : Inst)
    (member : inst ∈ body.unmarkedLayout layout (block :: rest) other) :
    inst ∈ Function.update layout block (body.unmarkedIn (layout block)) other := by
  rw [unmarkedLayout] at member
  by_cases here : other = block
  · rw [here, if_pos List.mem_cons_self] at member
    rwa [here, Function.update_self]
  · rw [Function.update_of_ne here]
    split at member
    · exact (List.mem_filter.mp member).1
    · exact member

section Sweeping

variable (middle : Body) (block : Block) (rest : List Block) (fresh : block ∉ rest)
  (marks : ∀ other, ∀ inst ∈ Function.update layout block (body.unmarkedIn (layout block)) other,
    middle.isMarked inst = body.isMarked inst)

include fresh marks

omit laid in
theorem unmarked_layout_cons : middle.unmarkedLayout (Function.update layout block (body.unmarkedIn (layout block))) rest =
    body.unmarkedLayout layout (block :: rest) := by
  funext other
  rw [unmarkedLayout, unmarkedLayout]
  by_cases here : other = block
  · rw [here, if_neg fresh, if_pos List.mem_cons_self, Function.update_self]
  · rw [Function.update_of_ne here]
    by_cases later : other ∈ rest
    · rw [if_pos later, if_pos (List.mem_cons_of_mem _ later)]
      refine List.filter_congr fun inst member => ?_
      rw [marks other inst (by rwa [Function.update_of_ne here])]
    · have notAny : other ∉ block :: rest := fun member => (List.mem_cons.mp member).elim here later
      rw [if_neg later, if_neg notAny]

omit laid in
theorem marked_behind : (rest.flatMap (Function.update layout block (body.unmarkedIn (layout block)))).filter middle.isMarked =
    (rest.flatMap layout).filter body.isMarked := by
  have elsewhere (other : Block) (member : other ∈ rest) :
      Function.update layout block (body.unmarkedIn (layout block)) other = layout other := by
    have different : other ≠ block := fun same => fresh (same ▸ member)
    exact Function.update_of_ne different _ _
  rw [List.flatMap_congr elsewhere]
  refine List.filter_congr fun inst member => ?_
  obtain ⟨other, inRest, there⟩ := List.mem_flatMap.mp member
  exact marks other inst (elsewhere other inRest ▸ there)

end Sweeping

theorem remove_marked_from_laid (blocks : List Block) (once : blocks.Nodup)
    (inside : ∀ block ∈ blocks, body.blocks.contains block = true) :
    ∃ other, body.removeMarkedFrom blocks = .ok (other, ((blocks.flatMap layout).filter body.isMarked).length) ∧
      body.SameFrame other ∧ other.Laid (body.unmarkedLayout layout blocks) ∧ other.operation? = body.operation? ∧
      ∀ block, ∀ inst ∈ body.unmarkedLayout layout blocks block, other.isMarked inst = body.isMarked inst := by
  induction blocks generalizing body layout with
  | nil =>
    have same : body.unmarkedLayout layout [] = layout := funext fun block => if_neg List.not_mem_nil
    exact ⟨body, rfl, frame_refl body, same.symm ▸ laid, rfl, fun _ _ _ => rfl⟩
  | cons block rest ih =>
    obtain ⟨fresh, restOnce⟩ := List.nodup_cons.mp once
    obtain ⟨data, found⟩ := (Arena.contains_iff _ _).mp (inside block List.mem_cons_self)
    obtain ⟨chain, cells, removed, swept⟩ := sweep_block_laid body layout laid block data found
    let middle : Body := { body with blocks := body.blocks.put block { data with chain := chain }, cells := cells }
    obtain ⟨frame, middleLaid, operations, marks⟩ := swept middle rfl
    obtain ⟨last, done, lastFrame, lastLaid, lastOperations, lastMarks⟩ := ih middle _ middleLaid restOnce
      fun other member => (frame_contains body middle frame other).trans (inside other (List.mem_cons_of_mem _ member))
    rw [unmarked_layout_cons body layout middle block rest fresh marks] at lastLaid lastMarks
    rw [marked_behind body layout middle block rest fresh marks] at done
    refine ⟨last, ?_, frame_trans body middle last frame lastFrame, lastLaid, lastOperations.trans operations, ?_⟩
    · rw [List.flatMap_cons, List.filter_append, List.length_append]
      simp only [removeMarkedFrom, Arena.get, found, bind, Except.bind, removed]
      rw [done]
      rfl
    · intro other inst member
      rw [lastMarks other inst member]
      exact marks other inst (unmarked_layout_subset body layout block rest other inst member)

theorem remove_marked_laid : ∃ other,
    body.removeMarked = .ok (other, ((body.blocks.refs.flatMap layout).filter body.isMarked).length) ∧ body.SameFrame other ∧
    other.Laid (fun block => (layout block).filter fun inst => !body.isMarked inst) ∧
    other.operation? = body.operation? ∧
    ∀ block, ∀ inst ∈ (layout block).filter (fun inst => !body.isMarked inst), other.isMarked inst = false := by
  have same : body.unmarkedLayout layout body.blocks.refs = fun block => (layout block).filter fun inst => !body.isMarked inst := by
    funext block
    rw [unmarkedLayout]
    by_cases inside : block ∈ body.blocks.refs
    · rw [if_pos inside]
      rfl
    · rw [if_neg inside]
      cases found : body.blocks.get? block with
      | none =>
        rw [laid.outside block found]
        rfl
      | some data => exact (inside ((Arena.mem_refs_iff _ _).mpr (Arena.contains_of_get _ _ _ found))).elim
  obtain ⟨other, done, frame, otherLaid, operations, marks⟩ := remove_marked_from_laid body layout laid body.blocks.refs
    (Arena.refs_nodup body.blocks) fun block member => (Arena.mem_refs_iff _ _).mp member
  rw [same] at otherLaid marks
  refine ⟨other, done, frame, otherLaid, operations, fun block inst member => ?_⟩
  rw [marks block inst member]
  simpa using (List.mem_filter.mp member).2

end Laid

end Body

end ThreeAddress
