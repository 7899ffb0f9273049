import ThreeAddress.Body.Check
import ThreeAddress.Proofs.Chain.Linked

/-!
The structural rules of a body, said without the checker: which list each block holds, that every placed
instruction records its block, that jumps go to labels, and that edges are counted alike at both ends.
The checker accepts exactly the bodies that keep them.
-/

set_option autoImplicit false

namespace ThreeAddress

theorem Arena.contains_of_get {entity : Entity} {α : Type} (arena : Arena entity α) (ref : Ref entity) (value : α)
    (found : arena.get? ref = some value) : arena.contains ref = true :=
  (arena.contains_iff ref).mpr ⟨value, found⟩

theorem Arena.mem_refs_iff {entity : Entity} {α : Type} (arena : Arena entity α) (ref : Ref entity) :
    ref ∈ arena.refs ↔ arena.contains ref = true := by
  cases ref <;> simp [refs, contains, size]

theorem Arena.get_of_get {entity : Entity} {α : Type} (arena : Arena entity α) (ref : Ref entity) (value : α)
    (found : arena.get? ref = some value) : arena.get ref = .ok value := by
  simp [Arena.get, found]

theorem Arena.get_ok_iff {entity : Entity} {α : Type} (arena : Arena entity α) (ref : Ref entity) (value : α) :
    arena.get ref = .ok value ↔ arena.get? ref = some value := by
  rw [Arena.get]
  split <;> simp_all

theorem bind_ok_iff {α β : Type} (first : Except Fault α) (next : α → Except Fault β) (result : β) :
    (first >>= next) = .ok result ↔ ∃ value, first = .ok value ∧ next value = .ok result := by
  cases first with
  | error fault => simp [bind, Except.bind]
  | ok value => simp [bind, Except.bind]

theorem find_some_m_none_iff {α β : Type} (find : α → Except Fault (Option β)) (elements : List α) :
    elements.findSomeM? find = .ok none ↔ ∀ element ∈ elements, find element = .ok none := by
  induction elements with
  | nil => simp [pure, Except.pure]
  | cons element rest ih =>
    rw [List.findSomeM?_cons, List.forall_mem_cons, ← ih]
    cases found : find element with
    | error fault => simp [bind, Except.bind]
    | ok result => cases result <;> simp [bind, Except.bind, pure, Except.pure]

namespace Body

structure Laid (body : Body) (layout : Block → List Inst) : Prop where
  chains : ∀ block data, body.blocks.get? block = some data → data.chain.Holds body.cells (layout block)
  parents : ∀ block, ∀ inst ∈ layout block, ∃ cell, body.cells.get? inst = some cell ∧ cell.block = block
  outside : ∀ block, body.blocks.get? block = none → layout block = []

structure EdgesAgree (body : Body) : Prop where
  succInside : ∀ block, ∀ succ ∈ body.succs block, body.blocks.contains succ = true
  predInside : ∀ block, ∀ pred ∈ body.preds block, body.blocks.contains pred = true
  counts : ∀ source target, (body.succs source).count target = (body.preds target).count source

structure WellFormed (body : Body) (layout : Block → List Inst) : Prop where
  entry : body.blocks.contains body.entry = true
  laid : body.Laid layout
  edges : body.EdgesAgree
  jumps : ∀ block, ∀ inst ∈ layout block, ∀ target,
    (body.operation? inst).bind Operation.jumpTarget? = some target → body.operation? target = some .label

theorem edges_mem_iff (body : Body) (edges : body.EdgesAgree) (source target : Block) :
    target ∈ body.succs source ↔ source ∈ body.preds target := by
  rw [← List.count_pos_iff, ← List.count_pos_iff, edges.counts]

theorem is_label_iff (operation : Operation) : operation.isLabel = true ↔ operation = .label := by
  cases operation <;> simp [Operation.isLabel]

theorem jump_defect_none_iff (body : Body) (inst : Inst) :
    body.jumpDefect? inst = none ↔
      ∀ target, (body.operation? inst).bind Operation.jumpTarget? = some target →
        body.operation? target = some .label := by
  rw [jumpDefect?]
  split
  · rename_i none
    simp [none]
  · rename_i target some
    simp only [some, Option.some.injEq, forall_eq']
    split
    · rename_i missing
      simp [missing]
    · rename_i operation present
      simp [present, is_label_iff]

theorem succ_defect_none_iff (body : Body) (block succ : Block) (succs : List Block) :
    body.succDefect? block succs succ = .ok none ↔
      body.blocks.contains succ = true ∧ (body.preds succ).count block = succs.count succ := by
  rw [succDefect?, bind_ok_iff, Arena.contains_iff, preds]
  constructor
  · rintro ⟨data, found, agrees⟩
    rw [Arena.get_ok_iff] at found
    refine ⟨⟨data, found⟩, ?_⟩
    simp only [found, Option.elim_some]
    split at agrees
    · assumption
    · cases agrees
  · rintro ⟨⟨data, found⟩, agrees⟩
    refine ⟨data, (Arena.get_ok_iff _ _ _).mpr found, ?_⟩
    simp only [found, Option.elim_some] at agrees
    rw [if_pos agrees]
    rfl

theorem pred_defect_none_iff (body : Body) (block pred : Block) :
    body.predDefect? block pred = .ok none ↔ body.blocks.contains pred = true ∧ block ∈ body.succs pred := by
  rw [predDefect?, bind_ok_iff, Arena.contains_iff, succs]
  constructor
  · rintro ⟨data, found, agrees⟩
    rw [Arena.get_ok_iff] at found
    refine ⟨⟨data, found⟩, ?_⟩
    simp only [found, Option.elim_some]
    split at agrees
    · exact List.contains_iff_mem.mp ‹_›
    · cases agrees
  · rintro ⟨⟨data, found⟩, agrees⟩
    refine ⟨data, (Arena.get_ok_iff _ _ _).mpr found, ?_⟩
    simp only [found, Option.elim_some] at agrees
    rw [if_pos (List.contains_iff_mem.mpr agrees)]
    rfl

theorem block_defect_none_iff (body : Body) (block : Block) (data : BasicBlock)
    (found : body.blocks.get? block = some data) :
    body.blockDefect? block = .ok none ↔
      data.chain.defect? body.cells block = none ∧
        (∃ insts, data.chain.members body.cells = .ok insts ∧ ∀ inst ∈ insts, body.jumpDefect? inst = none) ∧
        (∀ succ ∈ data.succs, body.succDefect? block data.succs succ = .ok none) ∧
        ∀ pred ∈ data.preds, body.predDefect? block pred = .ok none := by
  rw [blockDefect?, Arena.get_of_get _ _ _ found, ← find_some_m_none_iff, ← find_some_m_none_iff]
  simp only [bind, Except.bind]
  cases data.chain.defect? body.cells block with
  | some defect => simp [pure, Except.pure]
  | none =>
    cases data.chain.members body.cells with
    | error fault => simp
    | ok insts =>
      simp only [Except.ok.injEq, exists_eq_left', true_and, ← List.findSome?_eq_none_iff]
      cases insts.findSome? body.jumpDefect? with
      | some defect => simp [pure, Except.pure]
      | none =>
        cases data.succs.findSomeM? (body.succDefect? block data.succs) with
        | error fault => simp
        | ok result => cases result <;> simp [pure, Except.pure]

theorem check_ok_iff (body : Body) :
    body.check = .ok () ↔
      body.blocks.contains body.entry = true ∧ ∀ block ∈ body.blocks.refs, body.blockDefect? block = .ok none := by
  rw [← find_some_m_none_iff, check, defect?]
  cases body.blocks.contains body.entry with
  | false => simp [bind, Except.bind, throw, throwThe, MonadExceptOf.throw]
  | true =>
    rw [if_pos rfl]
    cases body.blocks.refs.findSomeM? body.blockDefect? with
    | error fault => simp [bind, Except.bind]
    | ok result => cases result <;> simp [bind, Except.bind, throw, throwThe, MonadExceptOf.throw, pure, Except.pure]

def layout (body : Body) (block : Block) : List Inst :=
  match body.members block with
  | .ok insts => insts
  | .error _ => []

theorem members_laid (body : Body) (layout : Block → List Inst) (laid : body.Laid layout) (block : Block)
    (inside : body.blocks.contains block = true) : body.members block = .ok (layout block) := by
  obtain ⟨data, found⟩ := (Arena.contains_iff _ _).mp inside
  rw [members, Arena.get_of_get _ _ _ found]
  exact Chain.members_holds data.chain body.cells (layout block) (laid.chains block data found)

theorem members_rev_laid (body : Body) (layout : Block → List Inst) (laid : body.Laid layout) (block : Block)
    (inside : body.blocks.contains block = true) : body.membersRev block = .ok (layout block).reverse := by
  obtain ⟨data, found⟩ := (Arena.contains_iff _ _).mp inside
  rw [membersRev, Arena.get_of_get _ _ _ found]
  exact Chain.members_rev_holds data.chain body.cells (layout block) (laid.chains block data found)

theorem layout_laid (body : Body) (layout : Block → List Inst) (laid : body.Laid layout) : body.layout = layout := by
  funext block
  cases inside : body.blocks.contains block with
  | true => rw [Body.layout, members_laid body layout laid block inside]
  | false =>
    have missing : body.blocks.get? block = none := by
      rw [← Option.not_isSome_iff_eq_none, Option.isSome_iff_exists, ← Arena.contains_iff, inside]
      exact Bool.false_ne_true
    rw [Body.layout, members, Arena.get, missing, laid.outside block missing]
    rfl

theorem layout_missing (body : Body) (block : Block) (missing : body.blocks.get? block = none) : body.layout block = [] := by
  rw [layout, members, Arena.get, missing]
  rfl

theorem found_of_placed (body : Body) (block : Block) (inst : Inst) (member : inst ∈ body.layout block) :
    ∃ data, body.blocks.get? block = some data := by
  cases found : body.blocks.get? block with
  | none =>
    rw [layout_missing body block found] at member
    cases member
  | some data => exact ⟨data, rfl⟩

section Checked

variable (body : Body) (clean : ∀ block ∈ body.blocks.refs, body.blockDefect? block = .ok none)

include clean

theorem clean_block (block : Block) (data : BasicBlock) (found : body.blocks.get? block = some data) :
    data.chain.defect? body.cells block = none ∧
      (∃ insts, data.chain.members body.cells = .ok insts ∧ ∀ inst ∈ insts, body.jumpDefect? inst = none) ∧
      (∀ succ ∈ data.succs, body.succDefect? block data.succs succ = .ok none) ∧
      ∀ pred ∈ data.preds, body.predDefect? block pred = .ok none :=
  (block_defect_none_iff body block data found).mp
    (clean block ((Arena.mem_refs_iff _ _).mpr (Arena.contains_of_get _ _ _ found)))

theorem clean_held (block : Block) (data : BasicBlock) (found : body.blocks.get? block = some data) :
    data.chain.Holds body.cells (body.layout block) ∧
      ∀ inst ∈ body.layout block, ∃ cell, body.cells.get? inst = some cell ∧ cell.block = block := by
  obtain ⟨insts, holds, parents⟩ := (Chain.defect_eq_none_iff _ _ _).mp (clean_block body clean block data found).1
  have valid : block.isValid = true := by
    cases block with
    | nth index => rfl
    | invalid => simp [Arena.get?] at found
  have here : body.layout block = insts := by
    rw [layout, members, Arena.get_of_get _ _ _ found]
    simp only [bind, Except.bind, Chain.members_holds _ _ _ holds]
  rw [here]
  exact ⟨holds, parents valid⟩

theorem clean_laid : body.Laid body.layout where
  chains := fun block data found => (clean_held body clean block data found).1
  parents := by
    intro block inst member
    obtain ⟨data, found⟩ := found_of_placed body block inst member
    exact (clean_held body clean block data found).2 inst member
  outside := layout_missing body

theorem clean_succ (source target : Block) (edge : target ∈ body.succs source) :
    body.blocks.contains target = true ∧ (body.preds target).count source = (body.succs source).count target := by
  cases found : body.blocks.get? source with
  | none => simp [succs, found] at edge
  | some data =>
    have same : body.succs source = data.succs := by simp [succs, found]
    rw [same] at edge ⊢
    exact (succ_defect_none_iff body source target data.succs).mp
      ((clean_block body clean source data found).2.2.1 target edge)

theorem clean_pred (source target : Block) (edge : source ∈ body.preds target) :
    body.blocks.contains source = true ∧ target ∈ body.succs source := by
  cases found : body.blocks.get? target with
  | none => simp [preds, found] at edge
  | some data =>
    have same : body.preds target = data.preds := by simp [preds, found]
    rw [same] at edge
    exact (pred_defect_none_iff body target source).mp ((clean_block body clean target data found).2.2.2 source edge)

theorem clean_edges : body.EdgesAgree where
  succInside := fun block succ edge => (clean_succ body clean block succ edge).1
  predInside := fun block pred edge => (clean_pred body clean pred block edge).1
  counts := by
    intro source target
    by_cases edge : target ∈ body.succs source
    · exact (clean_succ body clean source target edge).2.symm
    · have none : source ∉ body.preds target := fun back => edge (clean_pred body clean source target back).2
      rw [List.count_eq_zero.mpr edge, List.count_eq_zero.mpr none]

end Checked

theorem well_formed_of_check (body : Body) (accepted : body.check = .ok ()) : body.WellFormed body.layout := by
  obtain ⟨entry, clean⟩ := (check_ok_iff body).mp accepted
  refine ⟨entry, clean_laid body clean, clean_edges body clean, fun block inst member => ?_⟩
  obtain ⟨data, found⟩ := found_of_placed body block inst member
  obtain ⟨_, ⟨insts, read, jumps⟩, _⟩ := clean_block body clean block data found
  have here := (Chain.members_holds _ _ _ (clean_held body clean block data found).1).symm.trans read
  exact (jump_defect_none_iff body inst).mp (jumps inst (Except.ok.inj here ▸ member))

theorem check_of_well_formed (body : Body) (layout : Block → List Inst) (wellFormed : body.WellFormed layout) :
    body.check = .ok () := by
  refine (check_ok_iff body).mpr ⟨wellFormed.entry, fun block member => ?_⟩
  obtain ⟨data, found⟩ := (Arena.contains_iff _ _).mp ((Arena.mem_refs_iff _ _).mp member)
  have holds := wellFormed.laid.chains block data found
  have outs : body.succs block = data.succs := by simp [succs, found]
  have ins : body.preds block = data.preds := by simp [preds, found]
  refine (block_defect_none_iff body block data found).mpr ⟨?_, ⟨layout block, ?_, fun inst placed => ?_⟩, ?_, ?_⟩
  · exact (Chain.defect_eq_none_iff _ _ _).mpr ⟨layout block, holds, fun _ => wellFormed.laid.parents block⟩
  · exact Chain.members_holds _ _ _ holds
  · exact (jump_defect_none_iff body inst).mpr (wellFormed.jumps block inst placed)
  · intro succ edge
    rw [← outs] at edge ⊢
    exact (succ_defect_none_iff body block succ _).mpr
      ⟨wellFormed.edges.succInside block succ edge, (wellFormed.edges.counts block succ).symm⟩
  · intro pred edge
    rw [← ins] at edge
    exact (pred_defect_none_iff body block pred).mpr
      ⟨wellFormed.edges.predInside block pred edge, (edges_mem_iff body wellFormed.edges pred block).mpr edge⟩

end Body

end ThreeAddress
