import Mathlib.Logic.Function.Basic
import ThreeAddress.Proofs.Body.WellFormed
import ThreeAddress.Proofs.Chain.Families

/-!
What the edits of chains do to the parents that instructions record. Linking never touches a parent; detaching
clears the parent of what is detached and touches no other.
-/

set_option autoImplicit false

namespace ThreeAddress

def Cells.parent? (cells : Cells) (inst : Inst) : Option Block := (cells.get? inst).map Cell.block

theorem Arena.modify_ok_iff {entity : Entity} {α : Type} (arena other : Arena entity α) (ref : Ref entity) (f : α → α) :
    arena.modify ref f = .ok other ↔ ∃ value, arena.get? ref = some value ∧ arena.put ref (f value) = other := by
  simp only [modify, bind_ok_iff, get_ok_iff, pure, Except.pure, Except.ok.injEq]

theorem modify_parent (cells other : Cells) (inst : Inst) (f : Cell → Cell) (block : Block → Block)
    (done : cells.modify inst f = .ok other) (parent : ∀ cell, (f cell).block = block cell.block) :
    Cells.parent? other = Function.update (Cells.parent? cells) inst ((Cells.parent? cells inst).map block) := by
  obtain ⟨cell, found, rfl⟩ := (Arena.modify_ok_iff _ _ _ _).mp done
  funext elsewhere
  rw [Cells.parent?, Arena.get_put _ _ _ _ (Arena.contains_of_get _ _ _ found)]
  by_cases same : elsewhere = inst
  · rw [if_pos same.symm, same, Function.update_self, Cells.parent?, found]
    exact congrArg some (parent cell)
  · rw [if_neg (Ne.symm same), Function.update_of_ne same]
    rfl

theorem modify_keeps_parents (cells other : Cells) (inst : Inst) (f : Cell → Cell)
    (done : cells.modify inst f = .ok other) (parent : ∀ cell, (f cell).block = cell.block) :
    Cells.parent? other = Cells.parent? cells := by
  rw [modify_parent cells other inst f id done parent, Option.map_id, id, Function.update_eq_self]

theorem modify_sets_parent (cells other : Cells) (inst : Inst) (f : Cell → Cell) (block : Block)
    (done : cells.modify inst f = .ok other) (parent : ∀ cell, (f cell).block = block) :
    Cells.parent? other = Function.update (Cells.parent? cells) inst (some block) := by
  obtain ⟨cell, found, _⟩ := (Arena.modify_ok_iff _ _ _ _).mp done
  rw [modify_parent cells other inst f (fun _ => block) done parent, Cells.parent?, found]
  rfl

namespace Chain

variable (chain : Chain) (cells : Cells)

theorem append_parents (inst : Inst) (longer : Chain) (other : Cells)
    (done : chain.append cells inst = .ok (longer, other)) : Cells.parent? other = Cells.parent? cells := by
  obtain ⟨first, linkedIn, afterLink⟩ := (bind_ok_iff _ _ _).mp done
  have kept := modify_keeps_parents cells first inst _ linkedIn fun _ => rfl
  cases ends : chain.tail with
  | invalid =>
    rw [ends] at afterLink
    cases afterLink
    exact kept
  | nth index =>
    rw [ends] at afterLink
    obtain ⟨second, ledOn, counted⟩ := (bind_ok_iff _ _ _).mp afterLink
    cases counted
    exact (modify_keeps_parents first other _ _ ledOn fun _ => rfl).trans kept

theorem prepend_parents (inst : Inst) (longer : Chain) (other : Cells)
    (done : chain.prepend cells inst = .ok (longer, other)) : Cells.parent? other = Cells.parent? cells := by
  obtain ⟨first, linkedIn, afterLink⟩ := (bind_ok_iff _ _ _).mp done
  have kept := modify_keeps_parents cells first inst _ linkedIn fun _ => rfl
  cases start : chain.head with
  | invalid =>
    rw [start] at afterLink
    cases afterLink
    exact kept
  | nth index =>
    rw [start] at afterLink
    obtain ⟨second, ledBack, counted⟩ := (bind_ok_iff _ _ _).mp afterLink
    cases counted
    exact (modify_keeps_parents first other _ _ ledBack fun _ => rfl).trans kept

theorem insert_before_parents (member inst : Inst) (longer : Chain) (other : Cells)
    (done : chain.insertBefore cells member inst = .ok (longer, other)) :
    Cells.parent? other = Cells.parent? cells := by
  obtain ⟨old, _, afterGet⟩ := (bind_ok_iff _ _ _).mp done
  obtain ⟨first, linkedIn, afterLink⟩ := (bind_ok_iff _ _ _).mp afterGet
  obtain ⟨second, ledBack, afterBack⟩ := (bind_ok_iff _ _ _).mp afterLink
  have kept := (modify_keeps_parents first second member _ ledBack fun _ => rfl).trans
    (modify_keeps_parents cells first inst _ linkedIn fun _ => rfl)
  cases start : old.prev with
  | invalid =>
    rw [start] at afterBack
    cases afterBack
    exact kept
  | nth index =>
    rw [start] at afterBack
    obtain ⟨third, ledOn, counted⟩ := (bind_ok_iff _ _ _).mp afterBack
    cases counted
    exact (modify_keeps_parents second other _ _ ledOn fun _ => rfl).trans kept

theorem concat_parents (back joined : Chain) (other : Cells) (done : chain.concat cells back = .ok (joined, other)) :
    Cells.parent? other = Cells.parent? cells := by
  rw [concat] at done
  split at done
  · cases done
    rfl
  · cases ends : chain.tail with
    | invalid =>
      rw [ends] at done
      cases done
      rfl
    | nth index =>
      rw [ends] at done
      obtain ⟨first, ledOn, afterLink⟩ := (bind_ok_iff _ _ _).mp done
      obtain ⟨second, ledBack, counted⟩ := (bind_ok_iff _ _ _).mp afterLink
      cases counted
      exact (modify_keeps_parents first other _ _ ledBack fun _ => rfl).trans
        (modify_keeps_parents cells first _ _ ledOn fun _ => rfl)

theorem split_off_parents (start : Inst) (front suffix : Chain) (other : Cells)
    (done : chain.splitOff cells start = .ok (front, suffix, other)) : Cells.parent? other = Cells.parent? cells := by
  obtain ⟨count, _, afterCount⟩ := (bind_ok_iff _ _ _).mp done
  obtain ⟨old, _, afterGet⟩ := (bind_ok_iff _ _ _).mp afterCount
  cases before : old.prev with
  | invalid =>
    rw [before] at afterGet
    obtain ⟨_, uncut, counted⟩ := (bind_ok_iff _ _ _).mp afterGet
    cases uncut
    by_cases short : chain.size < count
    · simp [short, throw, throwThe, MonadExceptOf.throw] at counted
    · simp only [if_neg short] at counted
      cases counted
      rfl
  | nth index =>
    rw [before] at afterGet
    obtain ⟨first, ended, afterEnd⟩ := (bind_ok_iff _ _ _).mp afterGet
    obtain ⟨second, begun, counted⟩ := (bind_ok_iff _ _ _).mp afterEnd
    have kept := (modify_keeps_parents first second _ _ begun fun _ => rfl).trans
      (modify_keeps_parents cells first _ _ ended fun _ => rfl)
    by_cases short : chain.size < count
    · simp [short, throw, throwThe, MonadExceptOf.throw] at counted
    · simp only [if_neg short] at counted
      cases counted
      exact kept

theorem close_forward_parents (prev next : Inst) (closed : Chain) (other : Cells)
    (done : chain.closeForward cells prev next = .ok (closed, other)) : Cells.parent? other = Cells.parent? cells := by
  cases prev with
  | invalid =>
    cases done
    rfl
  | nth index =>
    obtain ⟨changed, modified, rest⟩ := (bind_ok_iff _ _ _).mp done
    cases rest
    exact modify_keeps_parents cells other _ _ modified fun _ => rfl

theorem close_backward_parents (prev next : Inst) (closed : Chain) (other : Cells)
    (done : chain.closeBackward cells prev next = .ok (closed, other)) : Cells.parent? other = Cells.parent? cells := by
  cases next with
  | invalid =>
    cases done
    rfl
  | nth index =>
    obtain ⟨changed, modified, rest⟩ := (bind_ok_iff _ _ _).mp done
    cases rest
    exact modify_keeps_parents cells other _ _ modified fun _ => rfl

theorem unlink_parents (inst : Inst) (shorter : Chain) (other : Cells)
    (done : chain.unlink cells inst = .ok (shorter, other)) :
    Cells.parent? other = Function.update (Cells.parent? cells) inst (some .invalid) := by
  obtain ⟨gone, _, afterGet⟩ := (bind_ok_iff _ _ _).mp done
  obtain ⟨⟨first, firstCells⟩, closedFront, afterFront⟩ := (bind_ok_iff _ _ _).mp afterGet
  obtain ⟨⟨second, secondCells⟩, closedBack, afterBack⟩ := (bind_ok_iff _ _ _).mp afterFront
  obtain ⟨third, detached, counted⟩ := (bind_ok_iff _ _ _).mp afterBack
  have last : third = other := by
    cases size : second.size with
    | zero => simp [size, throw, throwThe, MonadExceptOf.throw] at counted
    | succ count =>
      simp only [size, pure, Except.pure, Except.ok.injEq, Prod.mk.injEq] at counted
      exact counted.2
  rw [← last, modify_sets_parent secondCells third inst _ .invalid detached fun _ => rfl,
    close_backward_parents first firstCells _ _ _ _ closedBack, close_forward_parents chain cells _ _ _ _ closedFront]

theorem unlink_all_parents (gone : List Inst) (shorter : Chain) (other : Cells)
    (done : chain.unlinkAll cells gone = .ok (shorter, other)) (inst : Inst) :
    Cells.parent? other inst = if inst ∈ gone then some .invalid else Cells.parent? cells inst := by
  induction gone generalizing chain cells with
  | nil =>
    cases done
    rfl
  | cons head rest ih =>
    obtain ⟨⟨first, firstCells⟩, unlinked, afterUnlink⟩ := (bind_ok_iff _ _ _).mp done
    obtain ⟨second, cleared, later⟩ := (bind_ok_iff _ _ _).mp afterUnlink
    rw [ih first second later, modify_keeps_parents firstCells second head _ cleared fun _ => rfl,
      unlink_parents chain cells head first firstCells unlinked]
    by_cases here : inst = head
    · simp [here]
    · simp [here]

theorem remove_marked_parents (shorter : Chain) (other : Cells) (count : Nat) (insts : List Inst)
    (holds : chain.Holds cells insts) (done : chain.removeMarked cells = .ok (shorter, other, count)) (inst : Inst) :
    Cells.parent? other inst =
      if inst ∈ insts.filter (isMarked cells) then some .invalid else Cells.parent? cells inst := by
  obtain ⟨members, read, afterRead⟩ := (bind_ok_iff _ _ _).mp done
  obtain rfl : insts = members := Except.ok.inj ((members_holds chain cells insts holds).symm.trans read)
  obtain ⟨result, unlinked, counted⟩ := (bind_ok_iff _ _ _).mp afterRead
  cases counted
  exact unlink_all_parents chain cells _ result.1 result.2 unlinked inst

end Chain

namespace ChainStep

variable {ι : Type}

def placed? : ChainStep ι → Option Inst
  | append _ inst | prepend _ inst | insertBefore _ _ inst => some inst
  | unlink _ _ | concat _ _ | splitOff _ _ _ | removeMarked _ => none

def Touches (step : ChainStep ι) (lists : ι → List Inst) (inst : Inst) : Prop :=
  inst ∈ step.placed? ∨ ∃ name, inst ∈ lists name

-- The step leaves every cell alone that is neither on a list of the family nor placed there, and gives no instruction a
-- parent.
def Spares [DecidableEq ι] (step : ChainStep ι) (family : ChainFamily ι) (model : ListFamily ι) : Prop :=
  ∃ next answer, step.onChains family = .ok (next, answer) ∧
    Cells.Edited family.cells next.cells (step.Touches model.lists) (step.Touches model.lists) (step.Touches model.lists) ∧
    ∀ inst, Cells.parent? next.cells inst = Cells.parent? family.cells inst ∨
      Cells.parent? next.cells inst = some .invalid

end ChainStep

namespace ChainFamily

variable {ι : Type} [DecidableEq ι] (family : ChainFamily ι) (model : ListFamily ι)

theorem spares_of_edited (step : ChainStep ι) (next : ChainFamily ι) (answer : Option Nat)
    (done : step.onChains family = .ok (next, answer)) (insts : List Inst) (detached cleared : Inst → Prop)
    (edited : Cells.Edited family.cells next.cells (· ∈ insts) detached cleared)
    (inside : ∀ inst ∈ insts, step.Touches model.lists inst) (detaches : ∀ inst, detached inst → inst ∈ insts)
    (clears : ∀ inst, cleared inst → inst ∈ insts)
    (parents : ∀ inst, Cells.parent? next.cells inst = Cells.parent? family.cells inst ∨
      Cells.parent? next.cells inst = some .invalid) : step.Spares family model :=
  ⟨next, answer, done, edited_mono _ _ _ _ _ _ _ _ edited inside (fun inst gone => inside inst (detaches inst gone))
    (fun inst gone => inside inst (clears inst gone)), parents⟩

theorem spares_of_relinked (step : ChainStep ι) (next : ChainFamily ι) (answer : Option Nat)
    (done : step.onChains family = .ok (next, answer)) (insts : List Inst)
    (edited : Cells.Edited family.cells next.cells (· ∈ insts) nowhere nowhere)
    (inside : ∀ inst ∈ insts, step.Touches model.lists inst)
    (parents : Cells.parent? next.cells = Cells.parent? family.cells) : step.Spares family model :=
  family.spares_of_edited model step next answer done insts nowhere nowhere edited inside (fun _ none => none.elim)
    (fun _ none => none.elim) fun inst => .inl (congrFun parents inst)

variable (threads : family.Threads model)

include threads

theorem append_spares (name : ι) (inst : Inst) (present : family.cells.contains inst = true)
    (loose : ∀ other, inst ∉ model.lists other) : (ChainStep.append name inst).Spares family model := by
  obtain ⟨cell, found⟩ := (family.cells.contains_iff inst).mp present
  obtain ⟨chain, cells, done, _, edited⟩ := Chain.append_holds _ family.cells _ inst (threads.holds name) (loose name) cell found
  refine family.spares_of_relinked model _ ⟨Function.update family.chains name chain, cells⟩ none
    (by rw [ChainStep.onChains, done]; rfl) _ edited (fun other member => ?_) (Chain.append_parents _ _ _ _ _ done)
  rcases List.mem_append.mp member with old | new
  · exact .inr ⟨name, old⟩
  · exact .inl (congrArg some (List.mem_singleton.mp new)).symm

theorem prepend_spares (name : ι) (inst : Inst) (present : family.cells.contains inst = true)
    (loose : ∀ other, inst ∉ model.lists other) : (ChainStep.prepend name inst).Spares family model := by
  obtain ⟨cell, found⟩ := (family.cells.contains_iff inst).mp present
  obtain ⟨chain, cells, done, _, edited⟩ := Chain.prepend_holds _ family.cells _ inst (threads.holds name) (loose name) cell found
  refine family.spares_of_relinked model _ ⟨Function.update family.chains name chain, cells⟩ none
    (by rw [ChainStep.onChains, done]; rfl) _ edited (fun other member => ?_) (Chain.prepend_parents _ _ _ _ _ done)
  rcases List.mem_cons.mp member with new | old
  · exact .inl (congrArg some new).symm
  · exact .inr ⟨name, old⟩

theorem insert_before_spares (name : ι) (member inst : Inst) (onList : member ∈ model.lists name)
    (present : family.cells.contains inst = true) (loose : ∀ other, inst ∉ model.lists other) :
    (ChainStep.insertBefore name member inst).Spares family model := by
  obtain ⟨cell, found⟩ := (family.cells.contains_iff inst).mp present
  obtain ⟨front, back, list, _, _, holds⟩ := family.member_divides model threads name member onList
  obtain ⟨chain, cells, done, _, edited⟩ :=
    Chain.insert_before_holds _ family.cells front back member inst holds (list ▸ loose name) cell found
  refine family.spares_of_relinked model _ ⟨Function.update family.chains name chain, cells⟩ none
    (by rw [ChainStep.onChains, done]; rfl) _ edited (fun other inside => ?_) (Chain.insert_before_parents _ _ _ _ _ _ done)
  by_cases same : other = inst
  · exact .inl (congrArg some same).symm
  · exact .inr ⟨name, by rw [list]; simpa [same] using inside⟩

theorem unlink_spares (name : ι) (inst : Inst) (onList : inst ∈ model.lists name) :
    (ChainStep.unlink name inst).Spares family model := by
  obtain ⟨front, back, list, _, _, holds⟩ := family.member_divides model threads name inst onList
  obtain ⟨chain, cells, done, _, edited⟩ := Chain.unlink_holds _ family.cells front back inst holds
  refine family.spares_of_edited model _ ⟨Function.update family.chains name chain, cells⟩ none
    (by rw [ChainStep.onChains, done]; rfl) _ _ _ edited (fun other member => .inr ⟨name, list ▸ member⟩)
    (fun other same => same ▸ List.mem_append_right _ List.mem_cons_self) (fun _ none => none.elim) fun other => ?_
  dsimp only
  rw [Chain.unlink_parents _ _ _ _ _ done]
  by_cases same : other = inst
  · exact .inr (by rw [same, Function.update_self])
  · exact .inl (Function.update_of_ne same _ _)

theorem concat_spares (name back : ι) (two : name ≠ back) : (ChainStep.concat name back).Spares family model := by
  obtain ⟨chain, cells, done, _, edited⟩ := Chain.concat_holds _ _ family.cells _ _ (threads.holds name)
    (threads.holds back) (threads.apart name back two)
  refine family.spares_of_relinked model _
    ⟨Function.update (Function.update family.chains back .empty) name chain, cells⟩ none
    (by rw [ChainStep.onChains, done]; rfl) _ edited (fun other member => ?_) (Chain.concat_parents _ _ _ _ _ done)
  rcases List.mem_append.mp member with first | second
  · exact .inr ⟨name, first⟩
  · exact .inr ⟨back, second⟩

theorem split_off_spares (name : ι) (start : Inst) (into : ι) (onList : start ∈ model.lists name) :
    (ChainStep.splitOff name start into).Spares family model := by
  obtain ⟨front, back, list, _, _, holds⟩ := family.member_divides model threads name start onList
  obtain ⟨before, suffix, cells, done, _, _, edited⟩ := Chain.split_off_holds _ family.cells front back start holds
  exact family.spares_of_relinked model _
    ⟨Function.update (Function.update family.chains name before) into suffix, cells⟩ none
    (by rw [ChainStep.onChains, done]; rfl) _ edited (fun other member => .inr ⟨name, list ▸ member⟩)
    (Chain.split_off_parents _ _ _ _ _ _ done)

theorem remove_marked_spares (name : ι) : (ChainStep.removeMarked name).Spares family model := by
  obtain ⟨chain, cells, done, _, edited, _⟩ := Chain.remove_marked_holds _ family.cells _ (threads.holds name)
  refine family.spares_of_edited model _ ⟨Function.update family.chains name chain, cells⟩ (some _)
    (by rw [ChainStep.onChains, done]; rfl) _ _ _ edited (fun other member => .inr ⟨name, member⟩)
    (fun other gone => (List.mem_filter.mp gone).1) (fun other gone => (List.mem_filter.mp gone).1) fun other => ?_
  dsimp only
  rw [Chain.remove_marked_parents _ _ _ _ _ _ (threads.holds name) done]
  split
  · exact .inr rfl
  · exact .inl rfl

theorem step_spares (step : ChainStep ι) (allowed : step.Allowed family.cells.contains model.lists) :
    step.Spares family model := by
  cases step with
  | append name inst => exact family.append_spares model threads name inst allowed.1 allowed.2
  | prepend name inst => exact family.prepend_spares model threads name inst allowed.1 allowed.2
  | insertBefore name member inst =>
    exact family.insert_before_spares model threads name member inst allowed.1 allowed.2.1 allowed.2.2
  | unlink name inst => exact family.unlink_spares model threads name inst allowed
  | concat name back => exact family.concat_spares model threads name back allowed
  | splitOff name start into => exact family.split_off_spares model threads name start into allowed
  | removeMarked name => exact family.remove_marked_spares model threads name

end ChainFamily

end ThreeAddress
