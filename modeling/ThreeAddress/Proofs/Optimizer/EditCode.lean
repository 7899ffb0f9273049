import ThreeAddress.Proofs.Body.Parents
import ThreeAddress.Proofs.Optimizer.Structure

/-!
Editing code one instruction after the other, said about the code itself: each block that has a state to start
with is edited by itself, and all that passes from one block to the next is the tally.
-/

set_option autoImplicit false

namespace ThreeAddress

namespace Body

variable {σ : Type}

def codeOf (body : Body) (insts : List Inst) : List (Inst × Operation) :=
  insts.filterMap fun inst => (body.operation? inst).map (inst, ·)

def editedCode (step : Step σ) : σ → Tally → List (Inst × Operation) → Tally × List (Inst × Operation)
  | _, tally, [] => (tally, [])
  | state, tally, (inst, operation) :: rest =>
      let (after, paid, edited) := step state tally inst operation
      let (last, more) := editedCode step after paid rest
      (last, (inst, edited) :: more)

theorem code_of_cons (body : Body) (inst : Inst) (operation : Operation) (rest : List Inst)
    (found : body.operation? inst = some operation) : body.codeOf (inst :: rest) = (inst, operation) :: body.codeOf rest := by
  rw [codeOf, codeOf, List.filterMap_cons_some]
  rw [found]
  rfl

theorem code_of_congr (body other : Body) (insts : List Inst)
    (same : ∀ inst ∈ insts, other.operation? inst = body.operation? inst) : other.codeOf insts = body.codeOf insts := by
  apply List.filterMap_congr
  exact fun inst member => congrArg (Option.map (inst, ·)) (same inst member)

theorem mem_code_of_iff (body : Body) (insts : List Inst) (inst : Inst) (operation : Operation) :
    (inst, operation) ∈ body.codeOf insts ↔ inst ∈ insts ∧ body.operation? inst = some operation := by
  rw [codeOf, List.mem_filterMap]
  constructor
  · intro ⟨other, member, made⟩
    obtain ⟨same, found, pair⟩ := Option.map_eq_some_iff.mp made
    cases pair
    exact ⟨member, found⟩
  · exact fun ⟨member, found⟩ => ⟨inst, member, by rw [found]; rfl⟩

theorem code_of_filter (body : Body) (insts : List Inst) (keep : Inst → Bool) :
    body.codeOf (insts.filter keep) = (body.codeOf insts).filter fun entry => keep entry.1 := by
  rw [codeOf, codeOf, List.filterMap_filter, List.filter_filterMap]
  apply List.filterMap_congr
  intro inst _
  cases body.operation? inst with
  | none => by_cases kept : keep inst = true <;> simp [kept]
  | some operation => by_cases kept : keep inst = true <;> simp [Option.filter, kept]

theorem code_of_sublist (body : Body) (insts : List Inst) : ((body.codeOf insts).map Prod.fst).Sublist insts := by
  induction insts with
  | nil => exact List.Sublist.slnil
  | cons inst rest ih =>
    cases found : body.operation? inst with
    | none =>
      have skips : body.codeOf (inst :: rest) = body.codeOf rest := by
        rw [codeOf, List.filterMap_cons_none (by rw [found]; rfl)]
        rfl
      rw [skips]
      exact ih.cons inst
    | some operation =>
      rw [code_of_cons body inst operation rest found]
      exact ih.cons_cons inst

theorem code_laid (body : Body) (layout : Block → List Inst) (laid : body.Laid layout) (block : Block) :
    body.code block = body.codeOf (layout block) := by
  rw [← layout_laid body layout laid, code, Body.layout]
  cases body.members block <;> rfl

theorem code_rev_laid (body : Body) (laid : body.Laid body.layout) (block : Block) (inside : body.blocks.contains block = true) :
    body.codeRev block = (body.code block).reverse := by
  rw [codeRev, members_rev_laid body body.layout laid block inside, code_laid body body.layout laid]
  exact List.filterMap_reverse

structure OperationsOnly (body other : Body) : Prop where
  name : other.name = body.name
  entry : other.entry = body.entry
  blocks : other.blocks = body.blocks
  vars : other.vars = body.vars
  size : other.cells.size = body.cells.size
  cells : ∀ inst cell, body.cells.get? inst = some cell → ∃ now, other.cells.get? inst = some { cell with operation := now }

theorem operations_only_refl (body : Body) : body.OperationsOnly body where
  name := rfl
  entry := rfl
  blocks := rfl
  vars := rfl
  size := rfl
  cells := fun _ cell found => ⟨cell.operation, found⟩

theorem operations_only_trans (body middle other : Body) (first : body.OperationsOnly middle) (second : middle.OperationsOnly other) :
    body.OperationsOnly other where
  name := second.name.trans first.name
  entry := second.entry.trans first.entry
  blocks := second.blocks.trans first.blocks
  vars := second.vars.trans first.vars
  size := second.size.trans first.size
  cells := by
    intro inst cell found
    obtain ⟨between, there⟩ := first.cells inst cell found
    exact second.cells inst { cell with operation := between } there

theorem set_operation_only (body other : Body) (inst : Inst) (operation : Operation)
    (done : body.setOperation inst operation = .ok other) : body.OperationsOnly other := by
  obtain ⟨cells, written, made⟩ := (bind_ok_iff _ _ _).mp done
  cases made
  obtain ⟨cell, found, rfl⟩ := (Arena.modify_ok_iff _ _ _ _).mp written
  obtain ⟨_, reads⟩ := modify_present body.cells inst cell (fun cell => { cell with operation := operation }) found
  refine ⟨rfl, rfl, rfl, rfl, Arena.size_put _ _ _, fun other before present => ?_⟩
  rw [reads]
  by_cases same : inst = other
  · rw [if_pos same]
    rw [← same, found] at present
    exact ⟨operation, Option.some.inj present ▸ rfl⟩
  · rw [if_neg same]
    exact ⟨before.operation, present⟩

section Written

variable (step : Step σ)

theorem edit_insts_only (body other : Body) (state : σ) (tally left : Tally) (insts : List Inst)
    (done : body.editInsts step state tally insts = .ok (left, other)) : body.OperationsOnly other := by
  induction insts generalizing body state tally with
  | nil =>
    cases done
    exact operations_only_refl other
  | cons inst rest ih =>
    obtain ⟨operation, _, goesOn⟩ := (bind_ok_iff _ _ _).mp done
    obtain ⟨middle, written, later⟩ := (bind_ok_iff _ _ _).mp goesOn
    exact operations_only_trans body middle other (set_operation_only body middle inst _ written) (ih middle _ _ later)

theorem edit_blocks_only (start : Block → Option σ) (body other : Body) (tally left : Tally) (blocks : List Block)
    (done : body.editBlocks step start tally blocks = .ok (left, other)) : body.OperationsOnly other := by
  induction blocks generalizing body tally with
  | nil =>
    cases done
    exact operations_only_refl other
  | cons block rest ih =>
    rw [editBlocks] at done
    split at done
    · exact ih body tally done
    · obtain ⟨insts, _, edits⟩ := (bind_ok_iff _ _ _).mp done
      obtain ⟨⟨paid, middle⟩, edited, later⟩ := (bind_ok_iff _ _ _).mp edits
      exact operations_only_trans body middle other (edit_insts_only step body middle _ _ _ insts edited) (ih middle paid later)

end Written

section Walk

variable (step : Step σ)

theorem edit_insts_laid (body : Body) (layout : Block → List Inst) (laid : body.Laid layout) (block : Block)
    (insts : List Inst) (once : insts.Nodup) (placed : ∀ inst ∈ insts, inst ∈ layout block) (state : σ) (tally : Tally) :
    ∃ other, body.editInsts step state tally insts = .ok ((editedCode step state tally (body.codeOf insts)).1, other) ∧
      body.SameFrame other ∧ other.Laid layout ∧ other.isMarked = body.isMarked ∧
      (∀ inst, inst ∉ insts → other.operation? inst = body.operation? inst) ∧
      other.codeOf insts = (editedCode step state tally (body.codeOf insts)).2 := by
  induction insts generalizing body state tally with
  | nil => exact ⟨body, rfl, frame_refl body, laid, rfl, fun _ _ => rfl, rfl⟩
  | cons inst rest ih =>
    obtain ⟨fresh, restOnce⟩ := List.nodup_cons.mp once
    obtain ⟨operation, found, reads⟩ := operation_placed body layout laid block inst (placed inst List.mem_cons_self)
    let stepped := step state tally inst operation
    obtain ⟨middle, written, frame, middleLaid, operations, marks⟩ :=
      set_operation_laid body layout laid inst operation stepped.2.2 found
    obtain ⟨other, done, otherFrame, otherLaid, otherMarks, otherOperations, code⟩ := ih middle middleLaid restOnce
      (fun other member => placed other (List.mem_cons_of_mem _ member)) stepped.1 stepped.2.1
    have untouched : middle.codeOf rest = body.codeOf rest := by
      apply code_of_congr
      intro later member
      have different : later ≠ inst := fun same => fresh (same ▸ member)
      rw [operations, Function.update_of_ne different]
    have here : other.operation? inst = some stepped.2.2 := by
      rw [otherOperations inst fresh, operations, Function.update_self]
    rw [untouched] at done code
    rw [code_of_cons body inst operation rest found]
    refine ⟨other, ?_, frame_trans body middle other frame otherFrame, otherLaid, otherMarks.trans marks, ?_, ?_⟩
    · simp only [editInsts, reads, bind, Except.bind]
      rw [show body.setOperation inst (step state tally inst operation).2.2 = .ok middle from written]
      exact done
    · intro later outside
      have different : later ≠ inst := fun same => outside (same ▸ List.mem_cons_self)
      rw [otherOperations later fun member => outside (List.mem_cons_of_mem _ member), operations,
        Function.update_of_ne different]
    · rw [code_of_cons other inst stepped.2.2 rest here, code]
      rfl

def EditedFrom (start : Block → Option σ) (block : Block) (before after : List (Inst × Operation)) : Prop :=
  match start block with
  | none => after = before
  | some state => ∃ tally, after = (editedCode step state tally before).2

def EditedUnder (known : Tally → Prop) (start : Block → Option σ) (block : Block) (before after : List (Inst × Operation)) :
    Prop :=
  match start block with
  | none => after = before
  | some state => ∃ tally, known tally ∧ after = (editedCode step state tally before).2

theorem edited_from_of_under (known : Tally → Prop) (start : Block → Option σ) (block : Block)
    (before after : List (Inst × Operation)) (edited : EditedUnder step known start block before after) :
    EditedFrom step start block before after := by
  rw [EditedUnder] at edited
  rw [EditedFrom]
  cases begins : start block with
  | none => rwa [begins] at edited
  | some state =>
    rw [begins] at edited
    obtain ⟨tally, _, after⟩ := edited
    exact ⟨tally, after⟩

variable (known : Tally → Prop)
  (pays : ∀ state tally inst operation, known tally → known (step state tally inst operation).2.1)

include pays

theorem edited_code_tally (state : σ) (tally : Tally) (first : known tally) (code : List (Inst × Operation)) :
    known (editedCode step state tally code).1 := by
  induction code generalizing state tally with
  | nil => exact first
  | cons entry rest ih => exact ih _ _ (pays state tally entry.1 entry.2 first)

theorem edit_block_laid (start : Block → Option σ) (body : Body) (layout : Block → List Inst) (laid : body.Laid layout)
    (block : Block) (inside : body.blocks.contains block = true) (rest : List Block) (tally : Tally) (first : known tally) :
    ∃ paid middle, known paid ∧
      body.editBlocks step start tally (block :: rest) = middle.editBlocks step start paid rest ∧
      body.SameFrame middle ∧ middle.Laid layout ∧ middle.isMarked = body.isMarked ∧
      (∀ inst, inst ∉ layout block → middle.operation? inst = body.operation? inst) ∧
      EditedUnder step known start block (body.codeOf (layout block)) (middle.codeOf (layout block)) := by
  cases begins : start block with
  | none =>
    refine ⟨tally, body, first, ?_, frame_refl body, laid, rfl, fun _ _ => rfl, ?_⟩
    · simp only [editBlocks, begins]
    · simp only [EditedUnder, begins]
  | some state =>
    obtain ⟨middle, done, frame, middleLaid, marks, operations, code⟩ := edit_insts_laid step body layout laid block
      (layout block) (nodup_layout body layout laid block) (fun _ => id) state tally
    refine ⟨(editedCode step state tally (body.codeOf (layout block))).1, middle,
      edited_code_tally step known pays state tally first _, ?_, frame, middleLaid, marks, operations, ?_⟩
    · simp only [editBlocks, begins, members_laid body layout laid block inside, bind, Except.bind, done]
    · simp only [EditedUnder, begins]
      exact ⟨tally, first, code⟩

theorem edit_blocks_laid (start : Block → Option σ) (body : Body) (layout : Block → List Inst) (laid : body.Laid layout)
    (blocks : List Block) (once : blocks.Nodup) (inside : ∀ block ∈ blocks, body.blocks.contains block = true) (tally : Tally)
    (first : known tally) :
    ∃ left other, body.editBlocks step start tally blocks = .ok (left, other) ∧ body.SameFrame other ∧ other.Laid layout ∧
      other.isMarked = body.isMarked ∧
      (∀ inst, (∀ block ∈ blocks, inst ∉ layout block) → other.operation? inst = body.operation? inst) ∧
      ∀ block ∈ blocks, EditedUnder step known start block (body.codeOf (layout block)) (other.codeOf (layout block)) := by
  induction blocks generalizing body tally with
  | nil => exact ⟨tally, body, rfl, frame_refl body, laid, rfl, fun _ _ => rfl, fun _ member => (List.not_mem_nil member).elim⟩
  | cons block rest ih =>
    obtain ⟨fresh, restOnce⟩ := List.nodup_cons.mp once
    obtain ⟨paid, middle, stillKnown, begun, frame, middleLaid, marks, operations, edited⟩ :=
      edit_block_laid step known pays start body layout laid block (inside block List.mem_cons_self) rest tally first
    obtain ⟨left, other, done, otherFrame, otherLaid, otherMarks, otherOperations, code⟩ := ih middle middleLaid restOnce
      (fun other member => (frame_contains body middle frame other).trans (inside other (List.mem_cons_of_mem _ member))) paid
      stillKnown
    have apart (other : Block) (member : other ∈ rest) (inst : Inst) (there : inst ∈ layout other) : inst ∉ layout block :=
      fun here => fresh (placed_once body layout laid other block inst there here ▸ member)
    refine ⟨left, other, begun.trans done, frame_trans body middle other frame otherFrame, otherLaid, otherMarks.trans marks,
      fun inst outside => ?_, fun later member => ?_⟩
    · rw [otherOperations inst fun later member => outside later (List.mem_cons_of_mem _ member)]
      exact operations inst (outside block List.mem_cons_self)
    · rcases List.mem_cons.mp member with same | inRest
      · rw [same, code_of_congr middle other _ fun inst here =>
          otherOperations inst fun later inRest there => apart later inRest inst there here]
        exact edited
      · rw [← code_of_congr body middle _ fun inst there => operations inst (apart later inRest inst there)]
        exact code later inRest

structure CodeEdited (start : Block → Option σ) (body other : Body) : Prop where
  rest : body.OperationsOnly other
  frame : body.SameFrame other
  laid : other.Laid body.layout
  marks : other.isMarked = body.isMarked
  unplaced : ∀ inst, (∀ block, inst ∉ body.layout block) → other.operation? inst = body.operation? inst
  code : ∀ block, body.blocks.contains block = true → EditedFrom step start block (body.code block) (other.code block)

theorem edit_code_edits_under (start : Block → Option σ) (body : Body) (accepted : body.check = .ok ()) (fuel : Fuel)
    (first : known ⟨fuel, 0⟩) :
    ∃ left other, body.editCode fuel step start = .ok (left, other) ∧ CodeEdited step start body other ∧
      ∀ block, body.blocks.contains block = true →
        EditedUnder step known start block (body.code block) (other.code block) := by
  have laid := (well_formed_of_check body accepted).laid
  obtain ⟨left, other, done, frame, otherLaid, marks, operations, code⟩ := edit_blocks_laid step known pays start body
    body.layout laid body.blocks.refs (Arena.refs_nodup body.blocks) (fun block member => (Arena.mem_refs_iff _ _).mp member)
    ⟨fuel, 0⟩ first
  have rest := edit_blocks_only step start body other _ left body.blocks.refs done
  have under (block : Block) (inside : body.blocks.contains block = true) :
      EditedUnder step known start block (body.code block) (other.code block) := by
    rw [code_laid body body.layout laid, code_laid other body.layout otherLaid]
    exact code block ((Arena.mem_refs_iff _ _).mpr inside)
  exact ⟨left, other, done, ⟨rest, frame, otherLaid, marks, fun inst outside => operations inst fun block _ => outside block,
    fun block inside => edited_from_of_under step known start block _ _ (under block inside)⟩, under⟩

omit pays in
theorem edit_code_edits (start : Block → Option σ) (body : Body) (accepted : body.check = .ok ()) (fuel : Fuel) :
    ∃ left other, body.editCode fuel step start = .ok (left, other) ∧ CodeEdited step start body other := by
  obtain ⟨left, other, done, edited, _⟩ :=
    edit_code_edits_under step (fun _ => True) (fun _ _ _ _ _ => trivial) start body accepted fuel trivial
  exact ⟨left, other, done, edited⟩

end Walk

theorem edited_code_related (step : Step σ) (related : Inst → Operation → Operation → Prop)
    (each : ∀ state tally inst operation, related inst operation (step state tally inst operation).2.2)
    (state : σ) (tally : Tally) (code : List (Inst × Operation)) (inst : Inst) (operation : Operation)
    (member : (inst, operation) ∈ code) :
    ∃ now, (inst, now) ∈ (editedCode step state tally code).2 ∧ related inst operation now := by
  induction code generalizing state tally with
  | nil => cases member
  | cons first rest ih =>
    rcases List.mem_cons.mp member with same | later
    · cases same
      exact ⟨_, List.mem_cons_self, each state tally inst operation⟩
    · obtain ⟨now, there, holds⟩ := ih (step state tally first.1 first.2).1 (step state tally first.1 first.2).2.1 later
      exact ⟨now, List.mem_cons_of_mem _ there, holds⟩

theorem operation_edited (step : Step σ) (start : Block → Option σ) (body other : Body) (accepted : body.check = .ok ())
    (edited : CodeEdited step start body other) (related : Inst → Operation → Operation → Prop)
    (each : ∀ state tally inst operation, related inst operation (step state tally inst operation).2.2)
    (inst : Inst) (operation : Operation) (found : body.operation? inst = some operation) :
    ∃ now, other.operation? inst = some now ∧
      (now = operation ∨ related inst operation now ∧ ∃ block, inst ∈ body.layout block ∧ (start block).isSome = true) := by
  have laid := (well_formed_of_check body accepted).laid
  by_cases placed : ∃ block, inst ∈ body.layout block
  · obtain ⟨block, member⟩ := placed
    have code := edited.code block (placed_inside body body.layout laid block inst member)
    rw [code_laid body body.layout laid, code_laid other body.layout edited.laid, EditedFrom] at code
    have before : (inst, operation) ∈ body.codeOf (body.layout block) := (mem_code_of_iff _ _ _ _).mpr ⟨member, found⟩
    split at code
    · rw [← code] at before
      exact ⟨operation, ((mem_code_of_iff _ _ _ _).mp before).2, .inl rfl⟩
    · rename_i state begins
      obtain ⟨tally, after⟩ := code
      obtain ⟨now, there, holds⟩ := edited_code_related step related each state tally _ inst operation before
      rw [← after] at there
      exact ⟨now, ((mem_code_of_iff _ _ _ _).mp there).2, .inr ⟨holds, block, member, Option.isSome_of_eq_some begins⟩⟩
  · have outside (block : Block) : inst ∉ body.layout block := fun member => placed ⟨block, member⟩
    exact ⟨operation, (edited.unplaced inst outside).trans found, .inl rfl⟩

theorem edited_structure (step : Step σ) (start : Block → Option σ) (body other : Body) (accepted : body.check = .ok ())
    (edited : CodeEdited step start body other)
    (keeps : ∀ state tally inst (operation : Operation), operation.Keeps (step state tally inst operation).2.2) :
    other.check = .ok () ∧ body.KeepsStructure other := by
  have laid := (well_formed_of_check body accepted).laid
  have operations (inst : Inst) (operation : Operation) (found : body.operation? inst = some operation) :
      ∃ now, other.operation? inst = some now ∧ operation.Keeps now := by
    obtain ⟨now, foundNow, change⟩ := operation_edited step start body other accepted edited (fun _ => Operation.Keeps) keeps
      inst operation found
    rcases change with same | ⟨kept, _⟩
    · exact ⟨now, foundNow, same ▸ Operation.keeps_refl operation⟩
    · exact ⟨now, foundNow, kept⟩
  have layout : other.layout = body.layout := layout_laid other body.layout edited.laid
  have same (view : Operation → Bool) (blind : ∀ old new, old.Keeps new → view new = view old) (block : Block) :
      (other.layout block).filter (fun inst => (other.operation? inst).any view) =
        (body.layout block).filter fun inst => (body.operation? inst).any view := by
    rw [layout]
    apply List.filter_congr
    intro inst member
    obtain ⟨operation, found, _⟩ := operation_placed body body.layout laid block inst member
    obtain ⟨now, foundNow, kept⟩ := operations inst operation found
    rw [found, foundNow]
    exact blind operation now kept
  have structureKept : body.KeepsStructure other := by
    refine ⟨edited.frame, operations, same Operation.isLabel Operation.keeps_is_label, fun block _ => ?_, ?_⟩
    · apply same
      intro old new kept
      rw [Operation.keeps_is_computation old new kept]
    · exact fun block inst member => ⟨block, layout ▸ member⟩
  exact ⟨check_of_structure body other body.layout accepted structureKept edited.laid, structureKept⟩

theorem address_taken_edited (step : Step σ) (start : Block → Option σ) (body other : Body) (accepted : body.check = .ok ())
    (edited : CodeEdited step start body other)
    (keeps : ∀ state tally inst (operation : Operation), operation.Keeps (step state tally inst operation).2.2) :
    other.addressTaken = body.addressTaken := by
  have laid := (well_formed_of_check body accepted).laid
  have kept := (edited_structure step start body other accepted edited keeps).2
  have pinned (inst : Inst) (member : inst ∈ body.blocks.refs.flatMap body.layout) :
      (other.operation? inst).bind Operation.pinned? = (body.operation? inst).bind Operation.pinned? := by
    obtain ⟨block, placed⟩ := (mem_placed_iff body body.layout laid inst).mp member
    obtain ⟨operation, found, _⟩ := operation_placed body body.layout laid block inst placed
    obtain ⟨now, foundNow, keepsNow⟩ := kept.operations inst operation found
    rw [found, foundNow]
    exact keepsNow.pins
  rw [addressTaken, addressTaken, placed_laid body body.layout laid, placed_laid other body.layout edited.laid,
    edited.rest.blocks]
  exact congrArg (fun vars => Except.ok (OrderedSet.ofList vars)) (List.filterMap_congr pinned)

theorem edited_keeps (step : Step σ) (start : Block → Option σ) (body other : Body) (accepted : body.check = .ok ())
    (unmarked : body.Unmarked) (edited : CodeEdited step start body other)
    (keeps : ∀ state tally inst (operation : Operation), operation.Keeps (step state tally inst operation).2.2) :
    other.check = .ok () ∧ other.Unmarked ∧ body.KeepsStructure other := by
  obtain ⟨otherAccepted, kept⟩ := edited_structure step start body other accepted edited keeps
  refine ⟨otherAccepted, fun block inst member => ?_, kept⟩
  rw [edited.marks]
  exact unmarked block inst (layout_laid other body.layout edited.laid ▸ member)

end Body

end ThreeAddress
