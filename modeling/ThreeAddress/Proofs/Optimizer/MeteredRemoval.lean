import ThreeAddress.Proofs.Optimizer.DeadCode
import ThreeAddress.Proofs.Optimizer.MeteredRewrites

/-!
Dead code elimination, paid edit by edit: a mark is what is paid for, and each mark is one instruction fewer once the
marked ones are removed.
-/

set_option autoImplicit false

namespace ThreeAddress

namespace Body

def MarkedOnce (layout : Block → List Inst) (body other : Body) : Prop :=
  body.Laid layout ∧ ∃ block, ∃ inst ∈ layout block, body.isMarked inst = false ∧ Marked layout body other [inst]

section Marking

variable (layout : Block → List Inst) (block : Block)

theorem clean_after (body other : Body) (gone insts : List Inst) (marked : Marked layout body other gone)
    (clean : ∀ inst ∈ insts, body.isMarked inst = false) (apart : ∀ inst ∈ insts, inst ∉ gone) :
    ∀ inst ∈ insts, other.isMarked inst = false := by
  intro inst member
  have unmarked : ¬ other.isMarked inst = true := by
    rw [marked.marks, clean inst member]
    simp [apart inst member]
  simpa using unmarked

theorem mark_unreachable_metered (insts : List Inst) (once : insts.Nodup) (placed : ∀ inst ∈ insts, inst ∈ layout block)
    (body : Body) (laid : body.Laid layout) (clean : ∀ inst ∈ insts, body.isMarked inst = false) :
    MeteredFrom (MarkedOnce layout) (fun fuel left other => body.markUnreachable fuel insts = .ok (left, other)) body := by
  induction insts generalizing body with
  | nil => exact metered_idle _ _ _ fun fuel => rfl
  | cons inst rest ih =>
    obtain ⟨fresh, restOnce⟩ := List.nodup_cons.mp once
    obtain ⟨member, restPlaced⟩ := List.forall_mem_cons.mp placed
    obtain ⟨unmarked, restClean⟩ := List.forall_mem_cons.mp clean
    obtain ⟨operation, _, reads⟩ := operation_placed body layout laid block inst member
    by_cases label : operation.isLabel = true
    · refine metered_view _ _ _ _ body id (ih restOnce restPlaced body laid restClean) (fun _ _ => id)
        fun fuel left other done => ?_
      simp only [markUnreachable, reads, bind, Except.bind, label, if_true]
      exact done
    · obtain ⟨middle, set, marked⟩ := set_mark_marked layout body laid block inst member
      have still := clean_after layout body middle [inst] rest marked restClean fun other inRest same =>
        fresh (List.mem_singleton.mp same ▸ inRest)
      refine metered_pay _ _ body middle ⟨laid, block, inst, member, unmarked, marked⟩ _ _ (fun fuel left other granted done => ?_)
        (fun fuel left other denied done => ?_) (ih restOnce restPlaced middle marked.laid still)
        (ih restOnce restPlaced body laid restClean)
      · simp only [markUnreachable, reads, bind, Except.bind, label, granted, if_true, set]
        exact done
      · simp only [markUnreachable, reads, bind, Except.bind, label, denied]
        exact done

theorem mark_dead_metered (pinned : OrderedSet Var) (insts : List Inst) (once : insts.Nodup)
    (placed : ∀ inst ∈ insts, inst ∈ layout block) (live : OrderedSet Var) (body : Body) (laid : body.Laid layout)
    (clean : ∀ inst ∈ insts, body.isMarked inst = false) :
    MeteredFrom (MarkedOnce layout) (fun fuel left other => body.markDead pinned live fuel insts = .ok (left, other)) body := by
  induction insts generalizing body live with
  | nil => exact metered_idle _ _ _ fun fuel => rfl
  | cons inst rest ih =>
    obtain ⟨fresh, restOnce⟩ := List.nodup_cons.mp once
    obtain ⟨member, restPlaced⟩ := List.forall_mem_cons.mp placed
    obtain ⟨unmarked, restClean⟩ := List.forall_mem_cons.mp clean
    obtain ⟨operation, _, reads⟩ := operation_placed body layout laid block inst member
    by_cases dead : isDead pinned live operation = true
    · obtain ⟨middle, set, marked⟩ := set_mark_marked layout body laid block inst member
      have still := clean_after layout body middle [inst] rest marked restClean fun other inRest same =>
        fresh (List.mem_singleton.mp same ▸ inRest)
      refine metered_pay _ _ body middle ⟨laid, block, inst, member, unmarked, marked⟩ _ _ (fun fuel left other granted done => ?_)
        (fun fuel left other denied done => ?_) (ih restOnce restPlaced live middle marked.laid still)
        (ih restOnce restPlaced (Liveness.step inst operation live) body laid restClean)
      · simp only [markDead, reads, bind, Except.bind, dead, granted, if_true, set]
        exact done
      · simp only [markDead, reads, bind, Except.bind, dead, denied, if_true]
        exact done
    · refine metered_view _ _ _ _ body id (ih restOnce restPlaced (Liveness.step inst operation live) body laid restClean)
        (fun _ _ => id) fun fuel left other done => ?_
      simp only [markDead, reads, bind, Except.bind, dead]
      exact done

variable (pinned : OrderedSet Var) (order : FlowOrder) (facts : BlockFacts (OrderedSet Var))

theorem mark_block_metered (body : Body) (laid : body.Laid layout) (clean : ∀ inst ∈ layout block, body.isMarked inst = false) :
    MeteredFrom (MarkedOnce layout)
      (fun fuel left other => markBlock block pinned order facts fuel (layout block).reverse body = .ok (left, other)) body := by
  have once := List.nodup_reverse.mpr (nodup_layout body layout laid block)
  have placed : ∀ inst ∈ (layout block).reverse, inst ∈ layout block := fun inst => List.mem_reverse.mp
  have cleanBack : ∀ inst ∈ (layout block).reverse, body.isMarked inst = false := fun inst member => clean inst (placed inst member)
  by_cases reachable : order.isReachable block = true
  · simp only [markBlock, reachable, if_true]
    exact mark_dead_metered layout block pinned _ once placed _ body laid cleanBack
  · simp only [markBlock, reachable]
    exact mark_unreachable_metered layout block _ once placed body laid cleanBack

theorem mark_blocks_metered (blocks : List Block) (once : blocks.Nodup) (body : Body) (laid : body.Laid layout)
    (inside : ∀ block ∈ blocks, body.blocks.contains block = true)
    (clean : ∀ block ∈ blocks, ∀ inst ∈ layout block, body.isMarked inst = false) :
    MeteredFrom (MarkedOnce layout)
      (fun fuel left other => body.markBlocks pinned order facts fuel blocks = .ok (left, other)) body := by
  induction blocks generalizing body with
  | nil => exact metered_idle _ _ _ fun fuel => rfl
  | cons block rest ih =>
    obtain ⟨fresh, restOnce⟩ := List.nodup_cons.mp once
    obtain ⟨here, restInside⟩ := List.forall_mem_cons.mp inside
    obtain ⟨blockClean, restClean⟩ := List.forall_mem_cons.mp clean
    refine metered_and_then _ _ _ _ body id
      (fun between fuel left other => between.markBlocks pinned order facts fuel rest = .ok (left, other))
      (mark_block_metered layout block pinned order facts body laid blockClean) (fun _ _ => id)
      (fun fuel middle between done => ?_) fun fuel middle left between other done later => ?_
    · obtain ⟨same, again, marked⟩ := mark_block_marked layout body laid block pinned order facts fuel
      obtain rfl : between = same := congrArg Prod.snd (Except.ok.inj (done.symm.trans again))
      refine ih restOnce between marked.laid (fun other member => ?_) fun other member => ?_
      · rw [frame_contains body between marked.frame]
        exact restInside other member
      · refine clean_after layout body between _ (layout other) marked (restClean other member) fun inst there gone => ?_
        obtain ⟨operation, found⟩ := swept_mem pinned order facts block fuel _ inst gone
        have listed : inst ∈ layout block := ((mem_code_of_iff _ _ _ _).mp found).1
        exact fresh (placed_once body layout laid other block inst there listed ▸ member)
    · rw [mark_blocks_cons layout body laid block pinned order facts here, done]
      exact later

end Marking

section Removal

variable (layout : Block → List Inst) (body : Body) (laid : body.Laid layout)

include laid

theorem remove_marked_from_clean (blocks : List Block) (inside : ∀ block ∈ blocks, body.blocks.contains block = true)
    (clean : ∀ block, ∀ inst ∈ layout block, body.isMarked inst = false) : body.removeMarkedFrom blocks = .ok (body, 0) := by
  induction blocks with
  | nil => rfl
  | cons block rest ih =>
    obtain ⟨here, restInside⟩ := List.forall_mem_cons.mp inside
    obtain ⟨data, found⟩ := (Arena.contains_iff _ _).mp here
    have members := Chain.members_holds data.chain body.cells _ (laid.chains block data found)
    have none : (layout block).filter (Chain.isMarked body.cells) = [] :=
      List.filter_eq_nil_iff.mpr fun inst member => by
        have unmarked : Chain.isMarked body.cells inst = false := clean block inst member
        simp [unmarked]
    have removed : data.chain.removeMarked body.cells = .ok (data.chain, body.cells, 0) := by
      simp only [Chain.removeMarked, members, bind, Except.bind, none]
      rfl
    have held : body.blocks.put block { data with chain := data.chain } = body.blocks :=
      Arena.put_held body.blocks block data found
    simp only [removeMarkedFrom, Arena.get, found, bind, Except.bind, removed, held]
    rw [ih restInside]
    rfl

end Removal

def cleared (body : Body) : Nat × Body :=
  match body.removeMarked with
  | .ok (other, count) => (count, other)
  | .error _ => (0, body)

theorem cleared_clean (body : Body) (layout : Block → List Inst) (laid : body.Laid layout)
    (clean : ∀ block, ∀ inst ∈ layout block, body.isMarked inst = false) : body.cleared = (0, body) := by
  have removed : body.removeMarked = .ok (body, 0) := remove_marked_from_clean layout body laid body.blocks.refs
    (fun block member => (Arena.mem_refs_iff _ _).mp member) clean
  rw [cleared, removed]

theorem remove_marked_cleared (body : Body) (layout : Block → List Inst) (laid : body.Laid layout) :
    ∃ other, body.removeMarked = .ok (other, ((body.blocks.refs.flatMap layout).filter body.isMarked).length) ∧
      body.cleared = (((body.blocks.refs.flatMap layout).filter body.isMarked).length, other) ∧ body.SameFrame other ∧
      other.Laid (fun block => (layout block).filter fun inst => !body.isMarked inst) ∧ other.operation? = body.operation? := by
  obtain ⟨other, removed, frame, otherLaid, operations, _⟩ := remove_marked_laid body layout laid
  exact ⟨other, removed, by rw [cleared, removed], frame, otherLaid, operations⟩

theorem length_filter_one_more (all : List Inst) (once : all.Nodup) (inst : Inst) (member : inst ∈ all) (few more : Inst → Bool)
    (without : few inst = false) (within : more inst = true) (same : ∀ other, other ≠ inst → more other = few other) :
    (all.filter more).length = (all.filter few).length + 1 := by
  obtain ⟨front, back, rfl⟩ := List.append_of_mem member
  have absent := (List.nodup_cons.mp (once.perm List.perm_middle)).1
  have keep (part : List Inst) (inside : part ⊆ front ++ back) : part.filter more = part.filter few :=
    List.filter_congr fun other there => same other fun collision => absent (collision ▸ inside there)
  rw [List.filter_append, List.filter_append, List.filter_cons_of_pos within, List.filter_cons_of_neg (by simp [without]),
    keep front (List.subset_append_left _ _), keep back (List.subset_append_right _ _), List.length_append,
    List.length_append, List.length_cons]
  rfl

theorem cleared_apart (layout : Block → List Inst) (body other : Body) (once : MarkedOnce layout body other) :
    Counted OneEditApart body.cleared other.cleared := by
  obtain ⟨laid, block, inst, member, unmarked, marked⟩ := once
  obtain ⟨_, _, fewer, frame, firstLaid, firstOperations⟩ := remove_marked_cleared body layout laid
  obtain ⟨_, _, more, otherFrame, secondLaid, secondOperations⟩ := remove_marked_cleared other layout marked.laid
  have marks (elsewhere : Inst) (apart : elsewhere ≠ inst) : other.isMarked elsewhere = body.isMarked elsewhere := by
    rw [Bool.eq_iff_iff, marked.marks]
    simp [apart]
  have here : other.isMarked inst = true := (marked.marks inst).mpr (.inr (List.mem_singleton.mpr rfl))
  have refs : other.blocks.refs = body.blocks.refs := by
    rw [Arena.refs, Arena.refs, marked.frame.blocks]
  have placed : inst ∈ body.blocks.refs.flatMap layout := (mem_placed_iff body layout laid inst).mpr ⟨block, member⟩
  have counts := length_filter_one_more _ (nodup_placed body layout laid) inst placed body.isMarked other.isMarked unmarked
    here marks
  rw [fewer, more, refs]
  refine ⟨counts, inst, ?_⟩
  have first := layout_laid _ _ firstLaid
  have second := layout_laid _ _ secondLaid
  have operations := secondOperations.trans (marked.operations.trans firstOperations.symm)
  refine ⟨frame_trans _ body _ (frame_symm _ _ frame) (frame_trans body other _ marked.frame otherFrame),
    fun elsewhere _ => congrFun operations elsewhere, fun place => ?_, .inr (.inl ⟨operations, ⟨block, ?_⟩, fun place still => ?_⟩)⟩
  · rw [first, second, List.filter_filter, List.filter_filter]
    refine List.filter_congr fun elsewhere _ => ?_
    by_cases same : elsewhere = inst
    · simp [same]
    · rw [marks elsewhere same]
  · rw [first]
    exact List.mem_filter.mpr ⟨member, by simp [unmarked]⟩
  · rw [second] at still
    have kept := (List.mem_filter.mp still).2
    simp [here] at kept

theorem remove_dead_code_metered (body : Body) (accepted : body.check = .ok ()) (unmarked : body.Unmarked) :
    body.MeteredPass body.removeDeadCode := by
  have wellFormed := well_formed_of_check body accepted
  have laid := wellFormed.laid
  obtain ⟨order, ordered, _⟩ := flow_order_total body wellFormed.edges wellFormed.entry
  obtain ⟨facts, solved⟩ := liveness_solved body accepted
  obtain ⟨pinned, taken, _⟩ := address_taken_total body body.layout laid
  have inside : ∀ block ∈ body.blocks.refs, body.blocks.contains block = true := fun block => (Arena.mem_refs_iff _ _).mp
  have marking := mark_blocks_metered body.layout pinned order facts body.blocks.refs (Arena.refs_nodup body.blocks) body laid
    inside fun block _ => unmarked block
  rw [MeteredPass, ← cleared_clean body body.layout laid unmarked]
  refine metered_view _ _ _ _ body cleared marking (fun a b => cleared_apart body.layout a b) fun fuel left other done => ?_
  obtain ⟨_, same, _, marked, otherMarked, _⟩ := mark_blocks_marked body.layout body laid pinned order facts body.blocks.refs
    inside (Arena.refs_nodup body.blocks) fuel
  obtain rfl : other = same := congrArg Prod.snd (Except.ok.inj (done.symm.trans marked))
  obtain ⟨_, removed, seen, _⟩ := remove_marked_cleared other body.layout otherMarked.laid
  rw [removeDeadCode, ordered, seen]
  simp only [bind, Except.bind, liveness, solved.found, taken, done, removed]
  rfl

end Body

end ThreeAddress
