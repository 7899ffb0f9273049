import ThreeAddress.Proofs.Body.Growth

/-!
Histories of edits. A body is made by edits from an empty one; each edit names what it works on, and may do so as long
as that is there: what is placed is on no list yet, what is detached or moved is on one, and a list that is spliced is
detached. All bodies made in this way are well linked.
-/

set_option autoImplicit false

namespace ThreeAddress

namespace Body

-- Edits of detached lists see the cells of the body and chains that no block holds.
inductive Edit where
  | addBlock
  | addEdge (source target : Block)
  | addVar (name : Option String)
  | addInst (operation : Operation)
  | setOperation (inst : Inst) (operation : Operation)
  | setMark (inst : Inst) (mark : Bool)
  | append (block : Block) (inst : Inst)
  | prepend (block : Block) (inst : Inst)
  | appendChain (block : Block) (chain : Chain)
  | insertBefore (member inst : Inst)
  | unlink (inst : Inst)
  | moveBeforeTerminator (inst : Inst) (block : Block)
  | removeMarked
  | resolve (list : PatchList) (label : Inst)
  | onDetached (chains : Fin 2 → Chain) (step : ChainStep (Fin 2))

def IsPlaced (body : Body) (inst : Inst) : Prop := ∃ block ∈ body.blocks.refs, inst ∈ body.layout block

instance (body : Body) (inst : Inst) : Decidable (body.IsPlaced inst) :=
  inferInstanceAs (Decidable (∃ block ∈ body.blocks.refs, inst ∈ body.layout block))

def listed (body : Body) (chain : Chain) : List Inst :=
  match chain.members body.cells with
  | .ok insts => insts
  | .error _ => []

structure Detached (body : Body) (chain : Chain) : Prop where
  sound : chain.defect? body.cells .invalid = none
  unplaced : ∀ inst ∈ body.listed chain, ¬ body.IsPlaced inst

instance (body : Body) (chain : Chain) : Decidable (body.Detached chain) :=
  decidable_of_iff (chain.defect? body.cells .invalid = none ∧ ∀ inst ∈ body.listed chain, ¬ body.IsPlaced inst)
    ⟨fun ⟨sound, unplaced⟩ => ⟨sound, unplaced⟩, fun detached => ⟨detached.sound, detached.unplaced⟩⟩

namespace Edit

def apply (body : Body) : Edit → Except Fault Body
  | addBlock => Prod.snd <$> body.addBlock
  | addEdge source target => body.addEdge source target
  | addVar name => Prod.snd <$> body.addVar name
  | addInst operation => Prod.snd <$> body.addInst operation
  | setOperation inst operation => body.setOperation inst operation
  | setMark inst mark => body.setMark inst mark
  | append block inst => body.append block inst
  | prepend block inst => body.prepend block inst
  | appendChain block chain => body.appendChain block chain
  | insertBefore member inst => body.insertBefore member inst
  | unlink inst => body.unlink inst
  | moveBeforeTerminator inst block => body.moveBeforeTerminator inst block
  | removeMarked => Prod.fst <$> body.removeMarked
  | resolve list label => Prod.fst <$> body.resolve list label
  | onDetached chains step => (fun after => { body with cells := after.1.cells }) <$> step.onChains ⟨chains, body.cells⟩

def Allowed (body : Body) : Edit → Prop
  | addBlock | addVar _ | addInst _ | removeMarked | resolve _ _ => True
  | addEdge source target => body.blocks.contains source = true ∧ body.blocks.contains target = true
  | setOperation inst _ | setMark inst _ => body.cells.contains inst = true
  | append block inst | prepend block inst =>
      body.blocks.contains block = true ∧ body.cells.contains inst = true ∧ ¬ body.IsPlaced inst
  | appendChain block chain => body.blocks.contains block = true ∧ body.Detached chain
  | insertBefore member inst => body.IsPlaced member ∧ body.cells.contains inst = true ∧ ¬ body.IsPlaced inst
  | unlink inst => body.IsPlaced inst
  | moveBeforeTerminator inst block => body.IsPlaced inst ∧ body.blocks.contains block = true
  | onDetached chains step =>
      (∀ name, body.Detached (chains name)) ∧ (∀ inst ∈ body.listed (chains 0), inst ∉ body.listed (chains 1)) ∧
        step.Allowed body.cells.contains (fun name => body.listed (chains name)) ∧
        ∀ inst ∈ step.placed?, ¬ body.IsPlaced inst

def run : Body → List Edit → Except Fault Body
  | body, [] => .ok body
  | body, edit :: rest => do
      let next ← edit.apply body
      run next rest

def AllAllowed : Body → List Edit → Prop
  | _, [] => True
  | body, edit :: rest => edit.Allowed body ∧
      match edit.apply body with
      | .ok next => AllAllowed next rest
      | .error _ => True

instance decidableAllowed (body : Body) (edit : Edit) : Decidable (edit.Allowed body) :=
  match edit with
  | addBlock | addVar _ | addInst _ | removeMarked | resolve _ _ => inferInstanceAs (Decidable True)
  | addEdge source target =>
      inferInstanceAs (Decidable (body.blocks.contains source = true ∧ body.blocks.contains target = true))
  | setOperation inst _ | setMark inst _ => inferInstanceAs (Decidable (body.cells.contains inst = true))
  | append block inst | prepend block inst => inferInstanceAs (Decidable
      (body.blocks.contains block = true ∧ body.cells.contains inst = true ∧ ¬ body.IsPlaced inst))
  | appendChain block chain => inferInstanceAs (Decidable (body.blocks.contains block = true ∧ body.Detached chain))
  | insertBefore member inst => inferInstanceAs (Decidable
      (body.IsPlaced member ∧ body.cells.contains inst = true ∧ ¬ body.IsPlaced inst))
  | unlink inst => inferInstanceAs (Decidable (body.IsPlaced inst))
  | moveBeforeTerminator inst block =>
      inferInstanceAs (Decidable (body.IsPlaced inst ∧ body.blocks.contains block = true))
  | onDetached chains step => inferInstanceAs (Decidable
      ((∀ name, body.Detached (chains name)) ∧ (∀ inst ∈ body.listed (chains 0), inst ∉ body.listed (chains 1)) ∧
        step.Allowed body.cells.contains (fun name => body.listed (chains name)) ∧
        ∀ inst ∈ step.placed?, ¬ body.IsPlaced inst))

instance decidableAllAllowed : (body : Body) → (edits : List Edit) → Decidable (AllAllowed body edits)
  | _, [] => inferInstanceAs (Decidable True)
  | body, edit :: rest =>
      have : Decidable (match edit.apply body with
          | .ok next => AllAllowed next rest
          | .error _ => True) :=
        match edit.apply body with
        | .ok next => decidableAllAllowed next rest
        | .error _ => inferInstanceAs (Decidable True)
      inferInstanceAs (Decidable (edit.Allowed body ∧ match edit.apply body with
        | .ok next => AllAllowed next rest
        | .error _ => True))

def Arranges : Edit → Prop
  | .addInst _ | .setOperation _ _ | .resolve _ _ => False
  | .addBlock | .addEdge _ _ | .addVar _ | .setMark _ _ | .append _ _ | .prepend _ _ | .appendChain _ _ | .insertBefore _ _
  | .unlink _ | .moveBeforeTerminator _ _ | .removeMarked | .onDetached _ _ => True

instance (edit : Edit) : Decidable edit.Arranges :=
  match edit with
  | .addInst _ | .setOperation _ _ | .resolve _ _ => inferInstanceAs (Decidable False)
  | .addBlock | .addEdge _ _ | .addVar _ | .setMark _ _ | .append _ _ | .prepend _ _ | .appendChain _ _ | .insertBefore _ _
  | .unlink _ | .moveBeforeTerminator _ _ | .removeMarked | .onDetached _ _ => inferInstanceAs (Decidable True)

end Edit

section Step

variable (body : Body) (linked : body.WellLinked)

include linked

theorem is_placed_iff (inst : Inst) : body.IsPlaced inst ↔ ∃ block, inst ∈ body.layout block := by
  constructor
  · exact fun ⟨block, _, member⟩ => ⟨block, member⟩
  · exact fun ⟨block, member⟩ => ⟨block, (Arena.mem_refs_iff _ _).mpr (placed_inside body _ linked.laid block inst member), member⟩

theorem unplaced_everywhere (inst : Inst) (unplaced : ¬ body.IsPlaced inst) (block : Block) : inst ∉ body.layout block :=
  fun member => unplaced ((is_placed_iff body linked inst).mpr ⟨block, member⟩)

omit linked in
theorem detached_holds (chain : Chain) (detached : body.Detached chain) : chain.Holds body.cells (body.listed chain) := by
  obtain ⟨insts, holds, _⟩ := (Chain.defect_eq_none_iff _ _ _).mp detached.sound
  have same : body.listed chain = insts := by
    rw [listed, Chain.members_holds chain body.cells insts holds]
  rw [same]
  exact holds

-- An edit keeps a body well linked if it makes such a body. It may fail for want of indices, or if it resolves jumps
-- to no label or resolves what is no jump.
def Edit.Keeps (edit : Edit) : Prop :=
  (∃ other, edit.apply body = .ok other ∧ other.WellLinked) ∨ edit.apply body = .error .indexOverflow ∨
    ∃ list label fault, edit = .resolve list label ∧ edit.apply body = .error fault

def Edit.Rearranges (edit : Edit) : Prop :=
  ∃ other, edit.apply body = .ok other ∧ other.WellLinked ∧ other.operation? = body.operation?

theorem add_block_outcome : Edit.addBlock.Rearranges body ∨ Edit.addBlock.apply body = .error .indexOverflow := by
  rcases add_block_linked body linked with full | ⟨block, other, done, otherLinked⟩
  · exact .inr (by rw [Edit.apply, full]; rfl)
  · obtain ⟨pushed, _, made⟩ := (bind_ok_iff _ _ _).mp done
    refine .inl ⟨other, by rw [Edit.apply, done]; rfl, otherLinked, ?_⟩
    cases made
    rfl

theorem add_var_outcome (name : Option String) :
    (Edit.addVar name).Rearranges body ∨ (Edit.addVar name).apply body = .error .indexOverflow := by
  rcases add_var_linked body linked name with full | ⟨var, other, done, otherLinked⟩
  · exact .inr (by rw [Edit.apply, full]; rfl)
  · obtain ⟨pushed, _, made⟩ := (bind_ok_iff _ _ _).mp done
    refine .inl ⟨other, by rw [Edit.apply, done]; rfl, otherLinked, ?_⟩
    cases made
    rfl

theorem add_edge_rearranges (source target : Block) (allowed : (Edit.addEdge source target).Allowed body) :
    (Edit.addEdge source target).Rearranges body := by
  obtain ⟨other, done, otherLinked⟩ := add_edge_linked body linked source target allowed.1 allowed.2
  refine ⟨other, done, otherLinked, ?_⟩
  obtain ⟨middle, noted, answered⟩ := (bind_ok_iff _ _ _).mp done
  obtain ⟨blocks, _, made⟩ := (bind_ok_iff _ _ _).mp noted
  cases made
  obtain ⟨blocks, _, made⟩ := (bind_ok_iff _ _ _).mp answered
  cases made
  rfl

theorem set_mark_rearranges (inst : Inst) (mark : Bool) (allowed : (Edit.setMark inst mark).Allowed body) :
    (Edit.setMark inst mark).Rearranges body := by
  obtain ⟨cell, found⟩ := (Arena.contains_iff _ _).mp allowed
  obtain ⟨cells, written, edited, _⟩ := mark_edited body.cells inst cell found mark
  have done : body.setMark inst mark = .ok { body with cells := cells } := by
    rw [setMark, written]
    rfl
  exact ⟨_, done, set_mark_linked body _ linked inst mark done, funext edited.operation⟩

theorem append_rearranges (block : Block) (inst : Inst) (allowed : (Edit.append block inst).Allowed body) :
    (Edit.append block inst).Rearranges body := by
  obtain ⟨inside, present, unplaced⟩ := allowed
  obtain ⟨other, done, placed⟩ :=
    append_linked body linked block inst (unplaced_everywhere body linked inst unplaced) present inside
  exact ⟨other, done, placed.linked, placed.displaced.operations⟩

theorem prepend_rearranges (block : Block) (inst : Inst) (allowed : (Edit.prepend block inst).Allowed body) :
    (Edit.prepend block inst).Rearranges body := by
  obtain ⟨inside, present, unplaced⟩ := allowed
  obtain ⟨other, done, placed⟩ :=
    prepend_linked body linked block inst (unplaced_everywhere body linked inst unplaced) present inside
  exact ⟨other, done, placed.linked, placed.displaced.operations⟩

theorem append_chain_rearranges (block : Block) (chain : Chain) (allowed : (Edit.appendChain block chain).Allowed body) :
    (Edit.appendChain block chain).Rearranges body := by
  obtain ⟨inside, detached⟩ := allowed
  exact append_chain_linked body linked block chain (body.listed chain) inside (detached_holds body chain detached)
    fun inst member => unplaced_everywhere body linked inst (detached.unplaced inst member)

theorem insert_before_rearranges (member inst : Inst) (allowed : (Edit.insertBefore member inst).Allowed body) :
    (Edit.insertBefore member inst).Rearranges body := by
  obtain ⟨⟨block, _, memberPlaced⟩, present, unplaced⟩ := allowed
  obtain ⟨other, done, placed⟩ := insert_before_linked body linked block inst
    (unplaced_everywhere body linked inst unplaced) present member memberPlaced
  exact ⟨other, done, placed.linked, placed.displaced.operations⟩

theorem unlink_rearranges (inst : Inst) (allowed : (Edit.unlink inst).Allowed body) : (Edit.unlink inst).Rearranges body := by
  obtain ⟨source, _, member⟩ := allowed
  obtain ⟨other, done, otherLinked, displaced, _⟩ := unlink_linked body linked source inst member
  exact ⟨other, done, otherLinked, displaced.operations⟩

theorem move_before_terminator_rearranges (inst : Inst) (block : Block)
    (allowed : (Edit.moveBeforeTerminator inst block).Allowed body) : (Edit.moveBeforeTerminator inst block).Rearranges body := by
  obtain ⟨⟨source, _, member⟩, inside⟩ := allowed
  obtain ⟨other, done, otherLinked, displaced, _⟩ :=
    move_before_terminator_linked body linked source block inst member inside
  exact ⟨other, done, otherLinked, displaced.operations⟩

theorem remove_marked_rearranges : Edit.removeMarked.Rearranges body := by
  obtain ⟨other, count, done, otherLinked⟩ := remove_marked_linked body linked
  obtain ⟨same, swept, _, _, operations, _⟩ := remove_marked_laid body body.layout linked.laid
  cases done.symm.trans swept
  exact ⟨other, by rw [Edit.apply, done]; rfl, otherLinked, operations⟩

theorem on_detached_rearranges (chains : Fin 2 → Chain) (step : ChainStep (Fin 2))
    (allowed : (Edit.onDetached chains step).Allowed body) : (Edit.onDetached chains step).Rearranges body := by
  obtain ⟨detached, apart, stepAllowed, new⟩ := allowed
  have threads : ChainFamily.Threads ⟨chains, body.cells⟩
      ⟨fun name => body.listed (chains name), Chain.isMarked body.cells⟩ := by
    refine ⟨fun name => detached_holds body _ (detached name), fun name other different inst here there => ?_, fun _ => rfl⟩
    match name, other with
    | 0, 0 | 1, 1 => exact different rfl
    | 0, 1 => exact apart inst here there
    | 1, 0 => exact apart inst there here
  obtain ⟨next, answer, done, nextLinked, operations⟩ := detached_linked body linked ⟨chains, body.cells⟩ _ threads rfl step stepAllowed
    (fun name inst member => unplaced_everywhere body linked inst ((detached name).unplaced inst member))
    fun inst placed => unplaced_everywhere body linked inst (new inst placed)
  exact ⟨_, by rw [Edit.apply, done]; rfl, nextLinked, operations⟩

theorem arranged_outcome (edit : Edit) (arranges : edit.Arranges) (allowed : edit.Allowed body) :
    edit.Rearranges body ∨ edit.apply body = .error .indexOverflow := by
  cases edit with
  | addInst operation | setOperation inst operation | resolve list label => exact arranges.elim
  | addBlock => exact add_block_outcome body linked
  | addVar name => exact add_var_outcome body linked name
  | addEdge source target => exact .inl (add_edge_rearranges body linked source target allowed)
  | setMark inst mark => exact .inl (set_mark_rearranges body linked inst mark allowed)
  | append block inst => exact .inl (append_rearranges body linked block inst allowed)
  | prepend block inst => exact .inl (prepend_rearranges body linked block inst allowed)
  | appendChain block chain => exact .inl (append_chain_rearranges body linked block chain allowed)
  | insertBefore member inst => exact .inl (insert_before_rearranges body linked member inst allowed)
  | unlink inst => exact .inl (unlink_rearranges body linked inst allowed)
  | moveBeforeTerminator inst block => exact .inl (move_before_terminator_rearranges body linked inst block allowed)
  | removeMarked => exact .inl (remove_marked_rearranges body linked)
  | onDetached chains step => exact .inl (on_detached_rearranges body linked chains step allowed)

theorem add_inst_kept (operation : Operation) : (Edit.addInst operation).Keeps body := by
  rcases add_inst_linked body linked operation with full | ⟨inst, other, done, otherLinked⟩
  · exact .inr (.inl (by rw [Edit.apply, full]; rfl))
  · exact .inl ⟨other, by rw [Edit.apply, done]; rfl, otherLinked⟩

theorem set_operation_kept (inst : Inst) (operation : Operation) (allowed : (Edit.setOperation inst operation).Allowed body) :
    (Edit.setOperation inst operation).Keeps body := by
  obtain ⟨cell, found⟩ := (Arena.contains_iff _ _).mp allowed
  obtain ⟨other, done⟩ : ∃ other, body.setOperation inst operation = .ok other :=
    ⟨_, by rw [setOperation, (modify_present body.cells inst cell _ found).1]; rfl⟩
  exact .inl ⟨other, done, set_operation_linked body other linked inst operation done⟩

theorem resolve_kept (list : PatchList) (label : Inst) : (Edit.resolve list label).Keeps body := by
  cases resolved : body.resolve list label with
  | error fault => exact .inr (.inr ⟨list, label, fault, rfl, by rw [Edit.apply, resolved]; rfl⟩)
  | ok result =>
    exact .inl ⟨result.1, by rw [Edit.apply, resolved]; rfl, resolve_linked body result.1 linked list label result.2 resolved⟩

theorem edit_kept (edit : Edit) (allowed : edit.Allowed body) : edit.Keeps body := by
  by_cases arranges : edit.Arranges
  · rcases arranged_outcome body linked edit arranges allowed with ⟨other, done, otherLinked, _⟩ | full
    · exact .inl ⟨other, done, otherLinked⟩
    · exact .inr (.inl full)
  · cases edit with
    | addInst operation => exact add_inst_kept body linked operation
    | setOperation inst operation => exact set_operation_kept body linked inst operation allowed
    | resolve list label => exact resolve_kept body linked list label
    | addBlock | addVar _ | addEdge _ _ | setMark _ _ | append _ _ | prepend _ _ | appendChain _ _ | insertBefore _ _ | unlink _
    | moveBeforeTerminator _ _ | removeMarked | onDetached _ _ => exact (arranges trivial).elim

theorem run_linked (edits : List Edit) (allowed : Edit.AllAllowed body edits) (last : Body)
    (ran : Edit.run body edits = .ok last) : last.WellLinked := by
  induction edits generalizing body with
  | nil =>
    cases ran
    exact linked
  | cons edit rest ih =>
    obtain ⟨next, applied, later⟩ := (bind_ok_iff _ _ _).mp ran
    obtain ⟨first, others⟩ := allowed
    rw [applied] at others
    rcases edit_kept body linked edit first with ⟨other, done, otherLinked⟩ | full | ⟨_, _, fault, _, failed⟩
    · cases applied.symm.trans done
      exact ih _ otherLinked others later
    · cases applied.symm.trans full
    · cases applied.symm.trans failed

end Step

-- The only defects left are of jumps. What a block lists is what records it, and an instruction that is moved leaves
-- the parents and the order of all others alone.
theorem edits_keep_linked (name : String) (edits : List Edit) (allowed : Edit.AllAllowed (new name) edits) (body : Body)
    (ran : Edit.run (new name) edits = .ok body) :
    (∃ found, body.defect? = .ok found ∧ ∀ defect ∈ found, defect.AboutJump) ∧
      (∀ block, body.blocks.contains block = true → ∃ insts, body.members block = .ok insts ∧
        ∀ inst, inst ∈ insts ↔ body.parent? inst = some block) ∧
      (∀ inst block, body.IsPlaced inst → body.blocks.contains block = true →
        ∃ other, body.moveBeforeTerminator inst block = .ok other ∧ other.WellLinked ∧ inst ∈ other.layout block ∧
          body.Displaced other inst) ∧
      ∀ edit : Edit, edit.Allowed body → (∃ other, edit.apply body = .ok other) ∨ edit.apply body = .error .indexOverflow ∨
        ∃ list label, edit = .resolve list label := by
  have linked := run_linked (new name) (new_linked name) edits allowed body ran
  refine ⟨defect_linked body linked, fun block inside => ?_, fun inst block placed inside => ?_, fun edit allowedNow => ?_⟩
  · exact ⟨body.layout block, members_laid body body.layout linked.laid block inside, mem_layout_iff body linked block inside⟩
  · obtain ⟨source, _, member⟩ := placed
    obtain ⟨other, moved, otherLinked, displaced, here⟩ :=
      move_before_terminator_linked body linked source block inst member inside
    exact ⟨other, moved, otherLinked, here, displaced⟩
  · rcases edit_kept body linked edit allowedNow with ⟨other, done, _⟩ | full | ⟨list, label, _, same, _⟩
    · exact .inl ⟨other, done⟩
    · exact .inr (.inl full)
    · exact .inr (.inr ⟨list, label, same⟩)

-- A detached list of two instructions is spliced onto the second block; one of them moves into the first, in front of
-- the branch, and the other is marked and removed.
def sketch : List Edit :=
  [.addBlock, .addEdge (.nth 0) (.nth 1), .addEdge (.nth 0) (.nth 1), .addVar none, .addInst .label,
    .addInst (.branch .eq (.var (.nth 0)) (.lit 0) .invalid), .addInst (.read (.nth 0)), .addInst (.write (.lit 1)),
    .addInst .label, .onDetached (fun _ => .empty) (.append 0 (.nth 2)),
    .onDetached (Function.update (fun _ => .empty) 0 ⟨.nth 2, .nth 2, 1⟩) (.append 0 (.nth 3)), .appendChain (.nth 1) ⟨.nth 2, .nth 3, 2⟩,
    .append (.nth 0) (.nth 1), .insertBefore (.nth 1) (.nth 0), .prepend (.nth 1) (.nth 4),
    .moveBeforeTerminator (.nth 2) (.nth 0), .moveBeforeTerminator (.nth 0) (.nth 0), .setMark (.nth 3) true, .removeMarked]

theorem sketch_keeps_linked : Edit.AllAllowed (new "sketch") sketch ∧
    ∃ body, Edit.run (new "sketch") sketch = .ok body ∧ body.layout (.nth 0) = [.nth 2, .nth 0, .nth 1] ∧
      body.defect? = .ok (some (.unresolvedJump (.nth 1))) ∧ (Defect.unresolvedJump (.nth 1)).AboutJump ∧
      ∃ insts, body.members (.nth 1) = .ok insts ∧ ∀ inst, inst ∈ insts ↔ body.parent? inst = some (.nth 1) := by
  have allowed : Edit.AllAllowed (new "sketch") sketch := by decide
  obtain ⟨body, ran, lists, broken, inside⟩ : ∃ body, Edit.run (new "sketch") sketch = .ok body ∧
      body.layout (.nth 0) = [.nth 2, .nth 0, .nth 1] ∧ body.defect? = .ok (some (.unresolvedJump (.nth 1))) ∧
      body.blocks.contains (.nth 1) = true :=
    ⟨_, rfl, rfl, rfl, rfl⟩
  obtain ⟨⟨found, checked, jumps⟩, parents, _⟩ := edits_keep_linked "sketch" sketch allowed body ran
  cases checked.symm.trans broken
  exact ⟨allowed, body, ran, lists, broken, jumps _ rfl, parents (.nth 1) inside⟩

end Body

end ThreeAddress
