import Mathlib.Data.List.Induction
import ThreeAddress.Chain

/-!
When a chain is a list. A run of instructions is linked between two ends if every member's links name its
neighbours; a chain holds a list if the list is linked, and head, tail and size are those of the list.
Following the links forward and checking them accepts exactly such chains.
-/

set_option autoImplicit false

namespace ThreeAddress

def Cells.links? (cells : Cells) (inst : Inst) : Option (Inst × Inst) :=
  (cells.get? inst).map fun cell => (cell.prev, cell.next)

def Linked (cells : Cells) : Inst → List Inst → Inst → Prop
  | _, [], _ => True
  | before, inst :: rest, after =>
      Cells.links? cells inst = some (before, rest.headD after) ∧ Linked cells inst rest after

structure Chain.Holds (chain : Chain) (cells : Cells) (insts : List Inst) : Prop where
  linked : Linked cells .invalid insts .invalid
  head : chain.head = insts.headD .invalid
  tail : chain.tail = insts.getLastD .invalid
  size : chain.size = insts.length

theorem links_some_iff (cells : Cells) (inst before after : Inst) :
    Cells.links? cells inst = some (before, after) ↔
      ∃ cell, cells.get? inst = some cell ∧ cell.prev = before ∧ cell.next = after := by
  simp only [Cells.links?, Option.map_eq_some_iff, Prod.mk.injEq]

theorem linked_append (cells : Cells) (before after : Inst) (front back : List Inst) :
    Linked cells before (front ++ back) after ↔
      Linked cells before front (back.headD after) ∧ Linked cells (front.getLastD before) back after := by
  induction front generalizing before with
  | nil => simp [Linked]
  | cons inst rest ih =>
    simp only [List.cons_append, Linked, ih, List.getLastD_cons, and_assoc]
    cases rest <;> rfl

theorem linked_congr (cells other : Cells) (before after : Inst) (insts : List Inst)
    (same : ∀ inst ∈ insts, Cells.links? other inst = Cells.links? cells inst) :
    Linked other before insts after ↔ Linked cells before insts after := by
  induction insts generalizing before with
  | nil => rfl
  | cons inst rest ih =>
    simp only [Linked, same inst List.mem_cons_self, ih inst fun later member => same later (List.mem_cons_of_mem _ member)]

theorem linked_present (cells : Cells) (before after : Inst) (insts : List Inst)
    (linked : Linked cells before insts after) (inst : Inst) (member : inst ∈ insts) :
    ∃ cell, cells.get? inst = some cell := by
  induction insts generalizing before with
  | nil => simp at member
  | cons head rest ih =>
    rcases List.mem_cons.mp member with here | later
    · obtain ⟨cell, found, _⟩ := (links_some_iff cells head before _).mp linked.1
      exact ⟨cell, here ▸ found⟩
    · exact ih head linked.2 later

theorem linked_valid (cells : Cells) (before after : Inst) (insts : List Inst)
    (linked : Linked cells before insts after) : Ref.invalid ∉ insts := fun member => by
  obtain ⟨cell, found⟩ := linked_present cells before after insts linked .invalid member
  simp [Arena.get?] at found

theorem linked_fresh (cells : Cells) (after inst : Inst) (size : Nat) (front back : List Inst)
    (bound : front.length ≤ size) (linked : Linked cells .invalid (front ++ inst :: back) after) : inst ∉ front := by
  -- A second occurrence would have to be entered from the same member as the first, and so on back to the
  -- start, where nothing comes before the first occurrence.
  induction size generalizing front inst back with
  | zero => simp [List.length_eq_zero_iff.mp (Nat.le_zero.mp bound)]
  | succ size ih =>
    intro member
    obtain ⟨early, middle, rfl⟩ := List.append_of_mem member
    obtain ⟨frontLinked, here⟩ := (linked_append cells .invalid after _ _).mp linked
    have first := ((linked_append cells .invalid _ early _).mp frontLinked).2.1
    have second := here.1
    have same : early.getLastD .invalid = (early ++ inst :: middle).getLastD .invalid :=
      congrArg Prod.fst (Option.some.inj (first.symm.trans second))
    have last : (early ++ inst :: middle).getLastD .invalid = (inst :: middle).getLast (List.cons_ne_nil _ _) := by
      rw [List.getLastD_eq_getLast?, List.getLast?_append, List.getLast?_eq_some_getLast (List.cons_ne_nil _ _)]
      rfl
    have valid := linked_valid cells .invalid _ _ frontLinked
    rcases List.eq_nil_or_concat early with none | ⟨earlier, previous, rfl⟩
    · subst none
      rw [last] at same
      have lastMember := List.getLast_mem (List.cons_ne_nil inst middle)
      rw [← same] at lastMember
      exact valid lastMember
    · have entered : previous = (inst :: middle).getLast (List.cons_ne_nil _ _) := by
        rw [last] at same
        simpa using same
      have around : earlier.concat previous ++ inst :: middle =
          (earlier.concat previous ++ (inst :: middle).dropLast) ++ [previous] := by
        rw [List.append_assoc, entered, List.dropLast_concat_getLast]
      rw [around, List.append_assoc, List.singleton_append] at linked
      refine ih previous (earlier.concat previous ++ (inst :: middle).dropLast) _ ?_ linked ?_
      · simp at bound ⊢
        omega
      · simp

theorem linked_nodup (cells : Cells) (after : Inst) (insts : List Inst)
    (linked : Linked cells .invalid insts after) : insts.Nodup := by
  have fresh (front back : List Inst) (whole : insts = front ++ back) : front.Nodup := by
    induction front using List.reverseRecOn generalizing back with
    | nil => exact List.nodup_nil
    | append_singleton front inst ih =>
      rw [List.append_assoc, List.singleton_append] at whole
      have new := linked_fresh cells after inst front.length front back (Nat.le_refl _) (whole ▸ linked)
      refine List.nodup_append.mpr ⟨ih _ whole, List.pairwise_singleton _ inst, fun a member b here same => new ?_⟩
      exact List.mem_singleton.mp here ▸ same ▸ member
  exact fresh insts [] (List.append_nil insts).symm

theorem linked_length (cells : Cells) (after : Inst) (insts : List Inst)
    (linked : Linked cells .invalid insts after) : insts.length ≤ cells.size := by
  have inside : insts ⊆ cells.refs := by
    intro inst member
    obtain ⟨cell, found⟩ := linked_present cells .invalid after insts linked inst member
    cases inst with
    | invalid => simp [Arena.get?] at found
    | nth index =>
      obtain ⟨bound, _⟩ := Array.getElem?_eq_some_iff.mp found
      exact List.mem_map.mpr ⟨index, List.mem_range.mpr bound, rfl⟩
  have bound := List.Nodup.length_le_of_subset (linked_nodup cells after insts linked) inside
  simpa [Arena.refs] using bound

namespace Chain

theorem forward_linked (cells : Cells) (before after start : Inst) (insts : List Inst)
    (linked : Linked cells before insts after) : forward cells insts.length (insts.headD start) = .ok insts := by
  induction insts generalizing before with
  | nil => rfl
  | cons inst rest ih =>
    obtain ⟨cell, found, _, next⟩ := (links_some_iff cells inst before _).mp linked.1
    cases rest with
    | nil => simp [forward, Arena.get, found, bind, Except.bind, pure, Except.pure]
    | cons other others =>
      have later := ih inst linked.2
      simp only [List.headD_cons, List.length_cons] at later next ⊢
      simp only [forward, Arena.get, found, bind, Except.bind, pure, Except.pure, next] at later ⊢
      simp only [later]

theorem backward_linked (cells : Cells) (before after start : Inst) (insts : List Inst)
    (linked : Linked cells before insts after) :
    backward cells insts.length (insts.getLastD start) = .ok insts.reverse := by
  induction insts using List.reverseRecOn generalizing after with
  | nil => rfl
  | append_singleton front inst ih =>
    obtain ⟨frontLinked, here, _⟩ := (linked_append cells before after front [inst]).mp linked
    obtain ⟨cell, found, prev, _⟩ := (links_some_iff cells inst _ _).mp here
    rcases List.eq_nil_or_concat front with none | ⟨early, last, rfl⟩
    · simp [none, backward, Arena.get, found, bind, Except.bind, pure, Except.pure]
    · have earlier := ih inst frontLinked
      simp only [List.concat_eq_append, List.getLastD_concat] at earlier prev
      simp only [List.concat_eq_append, List.getLastD_concat]
      rw [List.length_append, List.length_singleton, List.reverse_append, List.reverse_singleton, List.singleton_append, backward]
      simp only [Arena.get, found, bind, Except.bind, pure, Except.pure, prev, earlier]

theorem follow_sound (cells : Cells) (block : Block) (steps count : Nat) (before inst last : Inst) (total : Nat)
    (followed : follow cells block steps count before inst = .ok (last, total)) :
    ∃ insts, inst = insts.headD .invalid ∧ Linked cells before insts .invalid ∧ last = insts.getLastD before ∧
      total = count + insts.length ∧
      (block.isValid = true → ∀ member ∈ insts, ∃ cell, cells.get? member = some cell ∧ cell.block = block) := by
  induction steps generalizing count before inst with
  | zero =>
    cases inst with
    | nth index => simp [follow] at followed
    | invalid =>
      obtain ⟨rfl, rfl⟩ : before = last ∧ count = total := by simpa [follow] using followed
      exact ⟨[], rfl, trivial, rfl, rfl, fun _ _ member => absurd member List.not_mem_nil⟩
  | succ steps ih =>
    cases inst with
    | invalid =>
      obtain ⟨rfl, rfl⟩ : before = last ∧ count = total := by simpa [follow] using followed
      exact ⟨[], rfl, trivial, rfl, rfl, fun _ _ member => absurd member List.not_mem_nil⟩
    | nth index =>
      rw [follow] at followed
      split at followed
      · cases followed
      · rename_i cell found
        split at followed
        · cases followed
        · split at followed
          · cases followed
          · rename_i backLink parent
            obtain ⟨rest, next, linked, ends, counted, parents⟩ := ih _ _ _ followed
            refine ⟨.nth index :: rest, rfl, ⟨?_, linked⟩, ?_, ?_, ?_⟩
            · exact (links_some_iff cells _ _ _).mpr ⟨cell, found, not_not.mp backLink, next⟩
            · rw [ends, List.getLastD_cons]
            · rw [counted, List.length_cons]
              omega
            · intro valid member inside
              rcases List.mem_cons.mp inside with here | later
              · exact ⟨cell, here ▸ found, not_not.mp fun other => parent ⟨valid, other⟩⟩
              · exact parents valid member later
      · simp

theorem follow_complete (cells : Cells) (block : Block) (steps count : Nat) (before : Inst) (insts : List Inst)
    (linked : Linked cells before insts .invalid) (bound : insts.length ≤ steps)
    (parents : block.isValid = true → ∀ member ∈ insts, ∃ cell, cells.get? member = some cell ∧ cell.block = block) :
    follow cells block steps count before (insts.headD .invalid) =
      .ok (insts.getLastD before, count + insts.length) := by
  induction insts generalizing steps count before with
  | nil => cases steps <;> rfl
  | cons inst rest ih =>
    obtain ⟨cell, found, prev, next⟩ := (links_some_iff cells inst before _).mp linked.1
    cases steps with
    | zero => simp at bound
    | succ steps =>
      cases inst with
      | invalid => simp [Arena.get?] at found
      | nth index =>
        have owned : ¬ (block.isValid = true ∧ cell.block ≠ block) := by
          rintro ⟨valid, other⟩
          obtain ⟨same, foundSame, parent⟩ := parents valid _ List.mem_cons_self
          exact other (Option.some.inj (found.symm.trans foundSame) ▸ parent)
        have later := ih steps (count + 1) (.nth index) linked.2 (by simpa using bound)
          fun valid member inside => parents valid member (List.mem_cons_of_mem _ inside)
        rw [List.headD_cons, follow.eq_3 _ _ _ _ _ _ (by simp)]
        simp only [found, prev, ne_eq, not_true_eq_false, if_false, if_neg owned, next, later]
        rw [List.getLastD_cons, List.length_cons, Nat.add_assoc, Nat.add_comm 1]

theorem defect_eq_none_iff (chain : Chain) (cells : Cells) (block : Block) :
    chain.defect? cells block = none ↔
      ∃ insts, chain.Holds cells insts ∧
        (block.isValid = true → ∀ inst ∈ insts, ∃ cell, cells.get? inst = some cell ∧ cell.block = block) := by
  constructor
  · intro accepted
    rw [defect?] at accepted
    split at accepted
    · cases accepted
    · rename_i last count followed
      split at accepted
      · cases accepted
      · split at accepted
        · cases accepted
        · rename_i ends counted
          obtain ⟨insts, head, linked, lastEq, countEq, parents⟩ := follow_sound _ _ _ _ _ _ _ _ followed
          refine ⟨insts, ⟨linked, head, ?_, ?_⟩, parents⟩
          · rw [← lastEq, not_not.mp ends]
          · rw [← not_not.mp counted, countEq, Nat.zero_add]
  · rintro ⟨insts, holds, parents⟩
    have bound := linked_length cells .invalid insts holds.linked
    have followed := follow_complete cells block (cells.size + 1) 0 .invalid insts holds.linked (by omega) parents
    rw [defect?, holds.head, followed]
    simp [holds.tail, holds.size]

theorem members_holds (chain : Chain) (cells : Cells) (insts : List Inst) (holds : chain.Holds cells insts) :
    chain.members cells = .ok insts := by
  rw [members, holds.size, holds.head]
  exact forward_linked cells .invalid .invalid .invalid insts holds.linked

theorem members_rev_holds (chain : Chain) (cells : Cells) (insts : List Inst) (holds : chain.Holds cells insts) :
    chain.membersRev cells = .ok insts.reverse := by
  rw [membersRev, holds.size, holds.tail]
  exact backward_linked cells .invalid .invalid .invalid insts holds.linked

end Chain

end ThreeAddress
