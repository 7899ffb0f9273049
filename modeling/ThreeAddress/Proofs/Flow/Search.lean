import Mathlib.Data.List.Nodup
import Mathlib.Logic.Relation
import ThreeAddress.Flow.Postorder
import ThreeAddress.Proofs.Body.WellFormed

/-!
The depth-first search enters what the entry leads to, each block once, and the steps that it allows itself
are just enough.
-/

set_option autoImplicit false

attribute [local instance] ThreeAddress.plainZero

namespace ThreeAddress

theorem Arena.refs_nodup {entity : Entity} {α : Type} (arena : Arena entity α) : arena.refs.Nodup :=
  List.Nodup.map (fun _ _ same => Ref.nth.inj same) List.nodup_range

theorem sum_map_update {α : Type} (elements : List α) (element : α) (before after : α → Nat)
    (nodup : elements.Nodup) (member : element ∈ elements)
    (others : ∀ other ∈ elements, other ≠ element → before other = after other) :
    (elements.map before).sum + after element = (elements.map after).sum + before element := by
  induction elements with
  | nil => cases member
  | cons head rest ih =>
    obtain ⟨fresh, restNodup⟩ := List.nodup_cons.mp nodup
    simp only [List.map_cons, List.sum_cons]
    cases List.mem_cons.mp member with
    | inl here =>
      subst here
      have same : rest.map before = rest.map after := by
        refine List.map_congr_left fun other inside => others other (List.mem_cons_of_mem _ inside) ?_
        intro collision
        exact fresh (collision ▸ inside)
      rw [same]
      omega
    | inr inside =>
      have apart : head ≠ element := fun collision => fresh (collision ▸ inside)
      have unchanged := others head List.mem_cons_self apart
      have below := ih restNodup inside fun other listed => others other (List.mem_cons_of_mem _ listed)
      omega

namespace Postorder

variable (graph : Arena .block (List Block)) (entry : Block)

def Edge (source target : Block) : Prop := ∃ succs, graph.get? source = some succs ∧ target ∈ succs

def Closed : Prop := ∀ source target, Edge graph source target → graph.contains target = true

def Entered (stack : List Frame) (left : List Block) (block : Block) : Prop :=
  block ∈ left ∨ ∃ frame ∈ stack, frame.block = block

-- A block that was left has only entered blocks after it; one on the stack may still have some to try.
structure Search (stack : List Frame) (seen : SideTable .block Bool) (left : List Block) : Prop where
  marked : ∀ block, graph.contains block = true → (seen.read block = true ↔ Entered stack left block)
  inside : ∀ block, Entered stack left block → graph.contains block = true
  reached : ∀ block, Entered stack left block → Relation.ReflTransGen (Edge graph) entry block
  finished : ∀ block ∈ left, ∀ succ, Edge graph block succ → Entered stack left succ
  pending : ∀ frame ∈ stack, ∀ succ, Edge graph frame.block succ → succ ∈ frame.untried ∨ Entered stack left succ
  untried : ∀ frame ∈ stack, ∀ succ ∈ frame.untried, Edge graph frame.block succ
  started : Entered stack left entry
  once : (left ++ stack.map Frame.block).Nodup

variable {graph entry}

theorem search_leave (block : Block) (stack : List Frame) (seen : SideTable .block Bool) (left : List Block)
    (search : Search graph entry (⟨block, []⟩ :: stack) seen left) : Search graph entry stack seen (block :: left) := by
  have same (other : Block) : Entered stack (block :: left) other ↔ Entered (⟨block, []⟩ :: stack) left other := by
    simp only [Entered, List.mem_cons, exists_eq_or_imp]
    grind
  constructor
  · intro other inside
    rw [same]
    exact search.marked other inside
  · exact fun other entered => search.inside other ((same other).mp entered)
  · exact fun other entered => search.reached other ((same other).mp entered)
  · intro other member succ edge
    rw [same]
    cases List.mem_cons.mp member with
    | inl here =>
      rw [here] at edge
      exact (search.pending ⟨block, []⟩ List.mem_cons_self succ edge).resolve_left List.not_mem_nil
    | inr before => exact search.finished other before succ edge
  · intro frame member succ edge
    rw [same]
    exact search.pending frame (List.mem_cons_of_mem _ member) succ edge
  · exact fun frame member => search.untried frame (List.mem_cons_of_mem _ member)
  · exact (same entry).mpr search.started
  · exact search.once.perm List.perm_middle

theorem frame_before (block succ : Block) (rest : List Block) (stack : List Frame) (frame : Frame)
    (member : frame ∈ (⟨block, rest⟩ : Frame) :: stack) :
    ∃ before ∈ (⟨block, succ :: rest⟩ : Frame) :: stack, before.block = frame.block ∧
      (∀ next ∈ frame.untried, next ∈ before.untried) ∧ ∀ next ∈ before.untried, next = succ ∨ next ∈ frame.untried := by
  cases List.mem_cons.mp member with
  | inl here =>
    rw [here]
    exact ⟨_, List.mem_cons_self, rfl, fun next => List.mem_cons_of_mem succ, fun next => List.mem_cons.mp⟩
  | inr below => exact ⟨frame, List.mem_cons_of_mem _ below, rfl, fun _ => id, fun _ => .inr⟩

theorem search_skip (block succ : Block) (rest : List Block) (stack : List Frame) (seen : SideTable .block Bool)
    (left : List Block) (search : Search graph entry (⟨block, succ :: rest⟩ :: stack) seen left)
    (known : Entered (⟨block, succ :: rest⟩ :: stack) left succ) :
    Search graph entry (⟨block, rest⟩ :: stack) seen left := by
  have same (other : Block) :
      Entered (⟨block, rest⟩ :: stack) left other ↔ Entered (⟨block, succ :: rest⟩ :: stack) left other := by
    simp only [Entered, List.mem_cons, exists_eq_or_imp]
  constructor
  · intro other inside
    rw [same]
    exact search.marked other inside
  · exact fun other entered => search.inside other ((same other).mp entered)
  · exact fun other entered => search.reached other ((same other).mp entered)
  · exact fun other member next edge => (same next).mpr (search.finished other member next edge)
  · intro frame member next edge
    obtain ⟨before, listed, owner, _, tried⟩ := frame_before block succ rest stack frame member
    rw [same]
    cases search.pending before listed next (owner ▸ edge) with
    | inl waiting => exact (tried next waiting).symm.imp id fun (here : next = succ) => here ▸ known
    | inr entered => exact .inr entered
  · intro frame member next waiting
    obtain ⟨before, listed, owner, kept, _⟩ := frame_before block succ rest stack frame member
    exact owner ▸ search.untried before listed next (kept next waiting)
  · exact (same entry).mpr search.started
  · exact search.once

-- Only a reference that names no block shares its place in the table with another.
theorem read_write_valid (seen : SideTable .block Bool) (succ other : Block) (value : Bool)
    (inside : graph.contains succ = true) (otherInside : graph.contains other = true) :
    (seen.write succ value).read other = if other = succ then value else seen.read other := by
  rw [SideTable.read_write]
  cases succ with
  | invalid => cases inside
  | nth place =>
    cases other with
    | invalid => cases otherInside
    | nth index =>
      by_cases same : place = index
      · simp [Ref.index, same]
      · simp [Ref.index, same, Ne.symm same]

theorem entered_push (block succ : Block) (rest succs : List Block) (stack : List Frame) (left : List Block) (other : Block) :
    Entered (⟨succ, succs⟩ :: ⟨block, rest⟩ :: stack) left other ↔
      other = succ ∨ Entered (⟨block, succ :: rest⟩ :: stack) left other := by
  simp only [Entered, List.mem_cons, exists_eq_or_imp]
  grind

theorem once_enter (succ : Block) (stack : List Frame) (left : List Block) (once : (left ++ stack.map Frame.block).Nodup)
    (fresh : ¬ Entered stack left succ) : (left ++ succ :: stack.map Frame.block).Nodup := by
  have apart : succ ∉ left ++ stack.map Frame.block := fun member => by
    rcases List.mem_append.mp member with before | onStack
    · exact fresh (.inl before)
    · obtain ⟨frame, listed, same⟩ := List.mem_map.mp onStack
      exact fresh (.inr ⟨frame, listed, same⟩)
  exact (List.nodup_cons.mpr ⟨apart, once⟩).perm List.perm_middle.symm

theorem search_enter (block succ : Block) (rest succs : List Block) (stack : List Frame)
    (seen : SideTable .block Bool) (left : List Block)
    (search : Search graph entry (⟨block, succ :: rest⟩ :: stack) seen left)
    (fresh : ¬ Entered (⟨block, succ :: rest⟩ :: stack) left succ) (found : graph.get? succ = some succs) :
    Search graph entry (⟨succ, succs⟩ :: ⟨block, rest⟩ :: stack) (seen.write succ true) left := by
  have inside : graph.contains succ = true := Arena.contains_of_get _ _ _ found
  have grows := entered_push block succ rest succs stack left
  constructor
  · intro other otherInside
    rw [grows, read_write_valid seen succ other true inside otherInside]
    by_cases same : other = succ
    · simp [same]
    · rw [if_neg same, search.marked other otherInside, or_iff_right same]
  · intro other entered
    exact ((grows other).mp entered).elim (fun same => same ▸ inside) (search.inside other)
  · have top := search.untried ⟨block, succ :: rest⟩ List.mem_cons_self succ List.mem_cons_self
    have blockReached := search.reached block (.inr ⟨_, List.mem_cons_self, rfl⟩)
    intro other entered
    exact ((grows other).mp entered).elim (fun same => same ▸ blockReached.tail top) (search.reached other)
  · exact fun other member next edge => (grows next).mpr (.inr (search.finished other member next edge))
  · rintro frame member next ⟨listed, read, inList⟩
    rw [grows]
    rcases List.mem_cons.mp member with rfl | below
    · exact .inl (Option.some.inj (read.symm.trans found) ▸ inList)
    · obtain ⟨before, beforeListed, owner, _, tried⟩ := frame_before block succ rest stack frame below
      rcases search.pending before beforeListed next ⟨listed, owner ▸ read, inList⟩ with waiting | entered
      · exact (tried next waiting).symm.imp id .inl
      · exact .inr (.inr entered)
  · intro frame member next waiting
    rcases List.mem_cons.mp member with rfl | below
    · exact ⟨succs, found, waiting⟩
    · obtain ⟨before, beforeListed, owner, kept, _⟩ := frame_before block succ rest stack frame below
      exact owner ▸ search.untried before beforeListed next (kept next waiting)
  · exact (grows entry).mpr (.inr search.started)
  · exact once_enter succ (⟨block, succ :: rest⟩ :: stack) left search.once fresh

def unexplored (graph : Arena .block (List Block)) (seen : SideTable .block Bool) (block : Block) : Nat :=
  if seen.read block then 0 else ((graph.get? block).getD []).length + 1

def pendingSteps (stack : List Frame) : Nat := (stack.map fun frame => frame.untried.length + 1).sum

def remaining (graph : Arena .block (List Block)) (stack : List Frame) (seen : SideTable .block Bool) : Nat :=
  pendingSteps stack + (graph.refs.map (unexplored graph seen)).sum

theorem remaining_enter (succ : Block) (succs : List Block) (stack : List Frame) (seen : SideTable .block Bool)
    (unseen : seen.read succ = false) (found : graph.get? succ = some succs) :
    remaining graph (⟨succ, succs⟩ :: stack) (seen.write succ true) = remaining graph stack seen := by
  have inside : graph.contains succ = true := Arena.contains_of_get _ _ _ found
  have falls := sum_map_update graph.refs succ (unexplored graph seen) (unexplored graph (seen.write succ true))
    (Arena.refs_nodup graph) ((Arena.mem_refs_iff _ _).mpr inside) fun other member apart => by
      have otherInside := (Arena.mem_refs_iff _ _).mp member
      simp only [unexplored, read_write_valid seen succ other true inside otherInside, if_neg apart]
  have before : unexplored graph seen succ = succs.length + 1 := by simp [unexplored, unseen, found]
  have after : unexplored graph (seen.write succ true) succ = 0 := by
    simp [unexplored, read_write_valid seen succ succ true inside inside]
  rw [before, after] at falls
  simp only [remaining, pendingSteps, List.map_cons, List.sum_cons]
  omega

theorem visit_total (closed : Closed graph) (steps : Nat) (stack : List Frame) (seen : SideTable .block Bool)
    (left : List Block) (search : Search graph entry stack seen left) (enough : remaining graph stack seen ≤ steps) :
    ∃ order finalSeen, visit graph steps stack seen left = .ok order ∧
      Search graph entry [] finalSeen order.reverse := by
  fun_induction visit graph steps stack seen left with
  | case1 steps seen left => exact ⟨left.reverse, seen, rfl, by rwa [List.reverse_reverse]⟩
  | case2 frame stack seen left => simp [remaining, pendingSteps] at enough
  | case3 steps block stack seen left ih =>
    apply ih (search_leave block stack seen left search)
    simp only [remaining, pendingSteps, List.map_cons, List.sum_cons, List.length_nil] at enough ⊢
    omega
  | case4 steps block succ rest stack seen left known ih =>
    have edge := search.untried ⟨block, succ :: rest⟩ List.mem_cons_self succ List.mem_cons_self
    have entered := (search.marked succ (closed block succ edge)).mp known
    apply ih (search_skip block succ rest stack seen left search entered)
    simp only [remaining, pendingSteps, List.map_cons, List.sum_cons, List.length_cons] at enough ⊢
    omega
  | case5 steps block succ rest stack seen left unknown ih =>
    have edge := search.untried ⟨block, succ :: rest⟩ List.mem_cons_self succ List.mem_cons_self
    have inside := closed block succ edge
    obtain ⟨succs, found⟩ := (Arena.contains_iff _ _).mp inside
    have fresh := mt (search.marked succ inside).mpr unknown
    have falls := remaining_enter succ succs (⟨block, rest⟩ :: stack) seen (Bool.eq_false_iff.mpr unknown) found
    have below : remaining graph (⟨succ, succs⟩ :: ⟨block, rest⟩ :: stack) (seen.write succ true) ≤ steps := by
      rw [falls]
      simp only [remaining, pendingSteps, List.map_cons, List.sum_cons, List.length_cons] at enough ⊢
      omega
    simp only [Arena.get_of_get _ _ _ found, bind, Except.bind]
    exact ih succs (search_enter block succ rest succs stack seen left search fresh found) below

theorem search_start (succs : List Block) (found : graph.get? entry = some succs) :
    Search graph entry [⟨entry, succs⟩] ((SideTable.blank false).write entry true) [] := by
  have inside : graph.contains entry = true := Arena.contains_of_get _ _ _ found
  have only (block : Block) : Entered [⟨entry, succs⟩] [] block ↔ block = entry := by
    simp [Entered, eq_comm]
  constructor
  · intro block blockInside
    rw [only, read_write_valid _ entry block true inside blockInside, SideTable.read_blank]
    simp
  · exact fun block entered => (only block).mp entered ▸ inside
  · exact fun block entered => (only block).mp entered ▸ .refl
  · exact fun block member => nomatch member
  · intro frame member succ edge
    rw [List.mem_singleton.mp member] at edge ⊢
    obtain ⟨listed, read, inList⟩ := edge
    rw [found] at read
    exact .inl (Option.some.inj read ▸ inList)
  · intro frame member succ waiting
    rw [List.mem_singleton.mp member] at waiting ⊢
    exact ⟨succs, found, waiting⟩
  · exact (only entry).mpr rfl
  · exact List.nodup_singleton entry

theorem sum_unexplored (graph : Arena .block (List Block)) :
    (graph.refs.map (unexplored graph (.blank false))).sum = steps graph := by
  have same : graph.refs.map (fun block => ((graph.get? block).getD []).length + 1) =
      graph.toList.map fun succs => succs.length + 1 := by
    refine List.ext_getElem (by simp [Arena.refs, Arena.toList, Arena.size]) fun index bound _ => ?_
    have inside : index < graph.slots.size := by simpa [Arena.refs, Arena.size] using bound
    simp [Arena.refs, Arena.toList, Arena.get?, inside]
  have blank (block : Block) : unexplored graph (.blank false) block = ((graph.get? block).getD []).length + 1 := by
    simp [unexplored, SideTable.read_blank]
  rw [steps, ← same]
  exact congrArg List.sum (List.map_congr_left fun block _ => blank block)

theorem compute_total (closed : Closed graph) (inside : graph.contains entry = true) :
    ∃ order, compute graph entry = .ok order ∧ order.Nodup ∧
      ∀ block, block ∈ order ↔ Relation.ReflTransGen (Edge graph) entry block := by
  obtain ⟨succs, found⟩ := (Arena.contains_iff _ _).mp inside
  have enough := remaining_enter entry succs [] (.blank false) (SideTable.read_blank false entry) found
  have bound : remaining graph [⟨entry, succs⟩] ((SideTable.blank false).write entry true) ≤ steps graph := by
    rw [enough, remaining, sum_unexplored]
    simp [pendingSteps]
  obtain ⟨order, seen, done, search⟩ := visit_total closed (steps graph) _ _ _ (search_start succs found) bound
  have listed (block : Block) : Entered [] order.reverse block ↔ block ∈ order := by simp [Entered]
  refine ⟨order, ?_, ?_, fun block => ⟨fun member => ?_, fun leads => ?_⟩⟩
  · rw [compute, Arena.get_of_get _ _ _ found]
    exact done
  · have once := search.once
    rwa [List.map_nil, List.append_nil, List.nodup_reverse] at once
  · exact search.reached block ((listed block).mpr member)
  · induction leads with
    | refl => exact (listed entry).mp search.started
    | tail _ edge ih => exact (listed _).mp (search.finished _ (List.mem_reverse.mpr ih) _ edge)

end Postorder

end ThreeAddress
