import ThreeAddress.OrderedMap.Merge
import ThreeAddress.Proofs.OrderedMap.Changes
import ThreeAddress.Proofs.OrderedMap.Measuring
import ThreeAddress.Proofs.OrderedMap.Reading
import ThreeAddress.Proofs.OrderedMap.Tables

/-!
Merging two maps by walking both trees at once. Each step looks at the next entry on either side and draws the one with
the smaller key, or both; what a walk comes to is the merge of the two lists of entries, and it ascends, so a map is built
from it without complaint.
-/

set_option autoImplicit false

namespace ThreeAddress

variable {κ ν : Type}

namespace Cursor

theorem entries_of_next (cursor rest : Cursor κ ν) (entry : κ × ν) (next : cursor.next? = some (entry, rest)) :
    cursor.entries = entry :: rest.entries := by
  obtain ⟨stack, remaining⟩ := cursor
  cases stack with
  | nil => cases next
  | cons top stack =>
    cases next
    simp [entries, Pending.entries, entries_descend]

theorem entries_of_next_none (cursor : Cursor κ ν) (next : cursor.next? = none) : cursor.entries = [] := by
  obtain ⟨stack, remaining⟩ := cursor
  cases stack with
  | nil => rfl
  | cons top stack => cases next

def drain (cursor : Cursor κ ν) : List (κ × ν) :=
  match _next : cursor.next? with
  | none => []
  | some (entry, rest) => entry :: drain rest
termination_by cursor.entries.length
decreasing_by
  rw [entries_of_next cursor rest entry _next]
  exact Nat.lt_succ_self _

theorem drain_eq (cursor : Cursor κ ν) : cursor.drain = cursor.entries := by
  fun_induction drain cursor with
  | case1 cursor next => exact (entries_of_next_none cursor next).symm
  | case2 cursor entry rest next ih => rw [entries_of_next cursor rest entry next, ih]

end Cursor

-- What the next step of a walk along two cursors draws, and where it leaves the cursors that it draws from.
inductive Draw (κ ν : Type) where
  | left (entry : κ × ν) (rest : Cursor κ ν)
  | right (entry : κ × ν) (rest : Cursor κ ν)
  | both (entry : κ × ν) (leftRest rightRest : Cursor κ ν)
  | done

variable [Ord κ]

def draw (left right : Cursor κ ν) : Draw κ ν :=
  match left.next?, right.next? with
  | some (entry, leftRest), some (other, rightRest) =>
      match compare entry.1 other.1 with
      | .lt => .left entry leftRest
      | .gt => .right other rightRest
      | .eq => .both entry leftRest rightRest
  | some (entry, rest), none => .left entry rest
  | none, some (entry, rest) => .right entry rest
  | none, none => .done

def Draws (left right : List (κ × ν)) : Draw κ ν → Prop
  | .left entry rest => left = entry :: rest.entries ∧ ∀ other ∈ right.head?, compare entry.1 other.1 = .lt
  | .right entry rest => right = entry :: rest.entries ∧ ∀ other ∈ left.head?, compare other.1 entry.1 = .gt
  | .both entry leftRest rightRest => left = entry :: leftRest.entries ∧
      ∃ other, right = other :: rightRest.entries ∧ compare entry.1 other.1 = .eq
  | .done => left = [] ∧ right = []

theorem draw_draws (left right : Cursor κ ν) : Draws left.entries right.entries (draw left right) := by
  rw [draw]
  split
  · rename_i entry leftRest other rightRest next otherNext
    have leftFirst := left.entries_of_next leftRest entry next
    have rightFirst := right.entries_of_next rightRest other otherNext
    cases order : compare entry.1 other.1 with
    | lt => exact ⟨leftFirst, by simp [rightFirst, order]⟩
    | gt => exact ⟨rightFirst, by simp [leftFirst, order]⟩
    | eq => exact ⟨leftFirst, other, rightFirst, order⟩
  · rename_i entry rest next otherNext
    exact ⟨left.entries_of_next rest entry next, by simp [right.entries_of_next_none otherNext]⟩
  · rename_i entry rest next otherNext
    exact ⟨right.entries_of_next rest entry otherNext, by simp [left.entries_of_next_none next]⟩
  · rename_i next otherNext
    exact ⟨left.entries_of_next_none next, right.entries_of_next_none otherNext⟩

theorem draws_of_draw (left right : Cursor κ ν) (drawn : Draw κ ν) (found : draw left right = drawn) :
    Draws left.entries right.entries drawn := found ▸ draw_draws left right

section Shrinking

variable (left right rest leftRest rightRest : Cursor κ ν) (entry : κ × ν)

theorem draw_left_shrinks (found : draw left right = .left entry rest) :
    rest.entries.length + right.entries.length < left.entries.length + right.entries.length := by
  rw [(draws_of_draw left right _ found).1, List.length_cons]
  omega

theorem draw_right_shrinks (found : draw left right = .right entry rest) :
    left.entries.length + rest.entries.length < left.entries.length + right.entries.length := by
  rw [(draws_of_draw left right _ found).1, List.length_cons]
  omega

theorem draw_both_shrinks (found : draw left right = .both entry leftRest rightRest) :
    leftRest.entries.length + rightRest.entries.length < left.entries.length + right.entries.length := by
  obtain ⟨leftFirst, other, rightFirst, _⟩ := draws_of_draw left right _ found
  rw [leftFirst, rightFirst, List.length_cons, List.length_cons]
  omega

end Shrinking

def walkUnion (left right : Cursor κ ν) (merged : List (κ × ν)) (changed : Bool) : List (κ × ν) × Bool :=
  match _found : draw left right with
  | .left entry rest => walkUnion rest right (merged ++ [entry]) changed
  | .right entry rest => walkUnion left rest (merged ++ [entry]) true
  | .both entry leftRest rightRest => walkUnion leftRest rightRest (merged ++ [entry]) changed
  | .done => (merged, changed)
termination_by left.entries.length + right.entries.length
decreasing_by
  · exact draw_left_shrinks left right rest entry _found
  · exact draw_right_shrinks left right rest entry _found
  · exact draw_both_shrinks left right leftRest rightRest entry _found

-- Only what is on both sides is taken over; an entry of the left side alone is a change, and when there is none to come the
-- walk is over, however much the right side still holds.
def walkInter (left right : Cursor κ ν) (kept : List (κ × ν)) (changed : Bool) : List (κ × ν) × Bool :=
  match _found : draw left right with
  | .left _ rest => walkInter rest right kept true
  | .right _ rest => if left.next?.isNone then (kept, changed) else walkInter left rest kept changed
  | .both entry leftRest rightRest => walkInter leftRest rightRest (kept ++ [entry]) changed
  | .done => (kept, changed)
termination_by left.entries.length + right.entries.length
decreasing_by
  · exact draw_left_shrinks left right rest _ _found
  · exact draw_right_shrinks left right rest _ _found
  · exact draw_both_shrinks left right leftRest rightRest entry _found

namespace OrderedMap

section Beginnings

variable [Std.OrientedOrd κ] (entry other : κ × ν) (left right : List (κ × ν))

theorem union_entries_left (first : ∀ other ∈ right.head?, compare entry.1 other.1 = .lt) :
    unionEntries (entry :: left) right = (entry :: (unionEntries left right).1, (unionEntries left right).2) := by
  cases right with
  | nil => simp [unionEntries, skip]
  | cons other rest =>
    have greater := Std.OrientedCmp.gt_of_lt (first other rfl)
    simp [unionEntries, skip, below, greater]

theorem union_entries_right (first : ∀ other ∈ left.head?, compare other.1 entry.1 = .gt) :
    unionEntries left (entry :: right) = (entry :: (unionEntries left right).1, true) := by
  cases left with
  | nil => simp [unionEntries]
  | cons other rest =>
    have less := Std.OrientedCmp.lt_of_gt (first other rfl)
    simp [unionEntries, below, less]

theorem union_entries_both (same : compare entry.1 other.1 = .eq) :
    unionEntries (entry :: left) (other :: right) = (entry :: (unionEntries left right).1, (unionEntries left right).2) := by
  have back := Std.OrientedCmp.eq_symm same
  simp [unionEntries, skip, below, back]

omit [Std.OrientedOrd κ] in
theorem inter_entries_nil : interEntries left [] = ([], !left.isEmpty) := by
  cases left <;> rfl

theorem inter_entries_left (first : ∀ other ∈ right.head?, compare entry.1 other.1 = .lt) :
    interEntries (entry :: left) right = ((interEntries left right).1, true) := by
  cases right with
  | nil => simp [inter_entries_nil]
  | cons other rest =>
    have greater := Std.OrientedCmp.gt_of_lt (first other rfl)
    simp [interEntries, below, greater]

theorem inter_entries_right (first : compare other.1 entry.1 = .gt) :
    interEntries (other :: left) (entry :: right) = interEntries (other :: left) right := by
  have less := Std.OrientedCmp.lt_of_gt first
  simp [interEntries, below, less]

theorem inter_entries_both (same : compare entry.1 other.1 = .eq) :
    interEntries (entry :: left) (other :: right) = (entry :: (interEntries left right).1, (interEntries left right).2) := by
  have back := Std.OrientedCmp.eq_symm same
  simp [interEntries, below, back]

end Beginnings

end OrderedMap

section Walks

variable [Std.OrientedOrd κ]

theorem walk_union_eq (left right : Cursor κ ν) (merged : List (κ × ν)) (changed : Bool) :
    walkUnion left right merged changed = (merged ++ (OrderedMap.unionEntries left.entries right.entries).1,
      changed || (OrderedMap.unionEntries left.entries right.entries).2) := by
  fun_induction walkUnion left right merged changed with
  | case1 left right merged changed entry rest found ih =>
    obtain ⟨leftFirst, first⟩ := draws_of_draw left right _ found
    rw [ih, leftFirst, OrderedMap.union_entries_left _ _ _ first, List.append_assoc]
    rfl
  | case2 left right merged changed entry rest found ih =>
    obtain ⟨rightFirst, first⟩ := draws_of_draw left right _ found
    rw [ih, rightFirst, OrderedMap.union_entries_right _ _ _ first, List.append_assoc, Bool.true_or, Bool.or_true]
    rfl
  | case3 left right merged changed entry leftRest rightRest found ih =>
    obtain ⟨leftFirst, other, rightFirst, same⟩ := draws_of_draw left right _ found
    rw [ih, leftFirst, rightFirst, OrderedMap.union_entries_both _ _ _ _ same, List.append_assoc]
    rfl
  | case4 left right merged changed found =>
    obtain ⟨leftEnds, rightEnds⟩ := draws_of_draw left right _ found
    simp [leftEnds, rightEnds, OrderedMap.unionEntries]

theorem walk_inter_eq (left right : Cursor κ ν) (kept : List (κ × ν)) (changed : Bool) :
    walkInter left right kept changed = (kept ++ (OrderedMap.interEntries left.entries right.entries).1,
      changed || (OrderedMap.interEntries left.entries right.entries).2) := by
  fun_induction walkInter left right kept changed with
  | case1 left right kept changed entry rest found ih =>
    obtain ⟨leftFirst, first⟩ := draws_of_draw left right _ found
    rw [ih, leftFirst, OrderedMap.inter_entries_left _ _ _ first, Bool.true_or, Bool.or_true]
  | case2 left right kept changed entry rest found ends =>
    have leftEnds := left.entries_of_next_none (Option.isNone_iff_eq_none.mp ends)
    simp [leftEnds, OrderedMap.interEntries]
  | case3 left right kept changed entry rest found more ih =>
    obtain ⟨rightFirst, first⟩ := draws_of_draw left right _ found
    obtain ⟨⟨other, leftRest⟩, next⟩ := Option.ne_none_iff_exists'.mp (mt Option.isNone_iff_eq_none.mpr more)
    rw [left.entries_of_next leftRest other next] at first ih ⊢
    rw [ih, rightFirst, OrderedMap.inter_entries_right _ _ _ _ (first other rfl)]
  | case4 left right kept changed entry leftRest rightRest found ih =>
    obtain ⟨leftFirst, other, rightFirst, same⟩ := draws_of_draw left right _ found
    rw [ih, leftFirst, rightFirst, OrderedMap.inter_entries_both _ _ _ _ same, List.append_assoc]
    rfl
  | case5 left right kept changed found =>
    obtain ⟨leftEnds, rightEnds⟩ := draws_of_draw left right _ found
    simp [leftEnds, OrderedMap.interEntries]

end Walks

namespace OrderedMap

def gathered (walked : List (κ × ν) × Bool) : Except Fault (OrderedMap κ ν × Bool) := do
  let built ← ofSorted walked.1
  return (built, walked.2)

theorem gathered_ascending (walked : List (κ × ν) × Bool) (ascends : Ascending walked.1) :
    gathered walked = .ok (ofAscending walked.1, walked.2) := by
  rw [gathered, of_sorted_ascending walked.1 ascends]
  rfl

def unionWalking (map other : OrderedMap κ ν) : Except Fault (OrderedMap κ ν × Bool) :=
  gathered (walkUnion map.cursor other.cursor [] false)

def interWalking (map other : OrderedMap κ ν) : Except Fault (OrderedMap κ ν × Bool) :=
  gathered (walkInter map.cursor other.cursor [] false)

def agreeingWalking [BEq ν] (map other : OrderedMap κ ν) : Except Fault (OrderedMap κ ν × Bool) := do
  let kept ← ofSorted (map.cursor.drain.filter fun entry => other.get? entry.1 == some entry.2)
  return (kept, kept.size != map.size)

-- A merge walked to its end without complaint: it gives the map and the flag, the map is well formed and balanced and
-- holds these entries and no others, and the flag tells whether the left side changed.
structure Exact (walked : Except Fault (OrderedMap κ ν × Bool)) (merge : OrderedMap κ ν × Bool) (held : κ × ν → Prop)
    (changes : Prop) : Prop where
  walks : walked = .ok merge
  wellFormed : merge.1.wellFormed = true
  balanced : merge.1.root.Balanced
  entries : ∀ entry, entry ∈ merge.1.toList ↔ held entry
  changed : merge.2 = true ↔ changes

section Merges

variable [Std.TransOrd κ] (map other : OrderedMap κ ν)

theorem sound_of_well_formed (wellFormed : map.wellFormed = true) : map.Sound := by
  obtain ⟨ascends, _, counted⟩ := (well_formed_iff map).mp wellFormed
  exact ⟨ascends, counted⟩

theorem well_formed_of_ascending (entries : List (κ × ν)) (ascends : Ascending entries) :
    (ofAscending entries).wellFormed = true := by
  rw [well_formed_iff, to_list_of_ascending]
  exact ⟨ascends, Tree.of_ascending_balanced entries, rfl⟩

variable [Std.LawfulEqOrd κ] (sound : map.Sound) (otherSound : other.Sound)

include sound otherSound

theorem differs_iff : map.toList ≠ other.toList ↔ ∃ entry, ¬ (entry ∈ map.toList ↔ entry ∈ other.toList) := by
  rw [← Classical.not_forall]
  exact not_congr ⟨fun same entry => same ▸ .rfl, to_list_ext map other sound otherSound⟩

theorem union_exact : Exact (map.unionWalking other) (map.union other)
    (fun entry => entry ∈ map.toList ∨ entry.1 ∉ map.keys ∧ entry ∈ other.toList)
    (∃ key ∈ other.keys, key ∉ map.keys) := by
  have ascends := union_entries_ascend map.toList other.toList sound.ascends otherSound.ascends
  have members (entry : κ × ν) := (mem_union map other sound otherSound entry).trans (or_congr_right and_comm)
  refine ⟨?_, well_formed_of_ascending _ ascends, Tree.of_ascending_balanced _, members, ?_⟩
  · rw [unionWalking, walk_union_eq, entries_cursor, entries_cursor]
    exact gathered_ascending _ ascends
  · rw [union_changed_iff, differs_iff _ map (sound_union map other sound otherSound) sound]
    simp only [members, or_iff_left_iff_imp, Classical.not_imp]
    constructor
    · rintro ⟨entry, ⟨fresh, new⟩, _⟩
      exact ⟨entry.1, List.mem_map_of_mem new, fresh⟩
    · rintro ⟨key, listed, fresh⟩
      obtain ⟨entry, new, rfl⟩ := List.mem_map.mp listed
      exact ⟨entry, ⟨fresh, new⟩, fun old => fresh (List.mem_map_of_mem old)⟩

omit otherSound

-- The other merges only drop entries, so there is a change exactly if some entry is dropped.
theorem drops_iff (merged : OrderedMap κ ν) (mergedSound : merged.Sound) (kept : κ × ν → Prop)
    (members : ∀ entry, entry ∈ merged.toList ↔ entry ∈ map.toList ∧ kept entry) :
    merged.toList ≠ map.toList ↔ ∃ entry ∈ map.toList, ¬ kept entry := by
  rw [differs_iff merged map mergedSound sound]
  simp only [members, and_iff_left_iff_imp, Classical.not_imp]

include otherSound

theorem inter_exact : Exact (map.interWalking other) (map.inter other)
    (fun entry => entry ∈ map.toList ∧ entry.1 ∈ other.keys) (∃ key ∈ map.keys, key ∉ other.keys) := by
  have ascends := ascending_sublist map.toList _ sound.ascends (inter_sublist map.toList other.toList)
  have members := mem_inter map other sound otherSound
  refine ⟨?_, well_formed_of_ascending _ ascends, Tree.of_ascending_balanced _, members, ?_⟩
  · rw [interWalking, walk_inter_eq, entries_cursor, entries_cursor]
    exact gathered_ascending _ ascends
  · rw [inter_changed_iff, drops_iff map sound _ (sound_inter map other sound) _ members]
    simp [keys]

theorem agreeing_exact [BEq ν] : Exact (map.agreeingWalking other) (map.agreeing other)
    (fun entry => entry ∈ map.toList ∧ ∃ value, (entry.1, value) ∈ other.toList ∧ (value == entry.2) = true)
    (∃ entry ∈ map.toList, ¬ ∃ value, (entry.1, value) ∈ other.toList ∧ (value == entry.2) = true) := by
  have ascends : Ascending (map.toList.filter fun entry => other.get? entry.1 == some entry.2) :=
    ascending_sublist map.toList _ sound.ascends List.filter_sublist
  have agrees (entry : κ × ν) : (other.get? entry.1 == some entry.2) = true ↔
      ∃ value, (entry.1, value) ∈ other.toList ∧ (value == entry.2) = true := by
    simp only [← get_eq_some_iff other otherSound]
    cases other.get? entry.1 <;> simp
  have members (entry : κ × ν) : entry ∈ (map.agreeing other).1.toList ↔ entry ∈ map.toList ∧
      ∃ value, (entry.1, value) ∈ other.toList ∧ (value == entry.2) = true := by
    rw [agreeing, to_list_of_ascending, List.mem_filter, agrees]
  refine ⟨?_, well_formed_of_ascending _ ascends, Tree.of_ascending_balanced _, members, ?_⟩
  · rw [agreeingWalking, Cursor.drain_eq, entries_cursor, of_sorted_ascending _ ascends]
    rfl
  · rw [agreeing_changed_iff map other sound]
    exact drops_iff map sound _ (sound_agreeing map other sound) _ members

end Merges

theorem merges_are_exact [Std.TransOrd κ] [Std.LawfulEqOrd κ] [BEq ν] (map other : OrderedMap κ ν)
    (mapFine : map.wellFormed = true) (otherFine : other.wellFormed = true) :
    Exact (map.unionWalking other) (map.union other)
      (fun entry => entry ∈ map.toList ∨ entry.1 ∉ map.keys ∧ entry ∈ other.toList)
      (∃ key ∈ other.keys, key ∉ map.keys) ∧
    Exact (map.interWalking other) (map.inter other)
      (fun entry => entry ∈ map.toList ∧ entry.1 ∈ other.keys) (∃ key ∈ map.keys, key ∉ other.keys) ∧
    Exact (map.agreeingWalking other) (map.agreeing other)
      (fun entry => entry ∈ map.toList ∧ ∃ value, (entry.1, value) ∈ other.toList ∧ (value == entry.2) = true)
      (∃ entry ∈ map.toList, ¬ ∃ value, (entry.1, value) ∈ other.toList ∧ (value == entry.2) = true) := by
  have sound := sound_of_well_formed map mapFine
  have otherSound := sound_of_well_formed other otherFine
  exact ⟨union_exact map other sound otherSound, inter_exact map other sound otherSound,
    agreeing_exact map other sound otherSound⟩

-- One key on each side only, and one on both sides with different values: every merge tells of a change.
def coins : OrderedMap Nat Nat := ofAscending [(1, 10), (3, 30)]

def notes : OrderedMap Nat Nat := ofAscending [(2, 20), (3, 31)]

theorem purses_merge : coins.wellFormed = true ∧ notes.wellFormed = true ∧
    (coins.unionWalking notes = .ok (coins.union notes) ∧ (coins.union notes).2 = true) ∧
    (coins.interWalking notes = .ok (coins.inter notes) ∧ (coins.inter notes).2 = true) ∧
    coins.agreeingWalking notes = .ok (coins.agreeing notes) ∧ (coins.agreeing notes).2 = true := by
  obtain ⟨union, inter, agreeing⟩ := merges_are_exact coins notes (by decide) (by decide)
  refine ⟨by decide, by decide, ⟨union.walks, union.changed.mpr ⟨2, by decide, by decide⟩⟩,
    ⟨inter.walks, inter.changed.mpr ⟨1, by decide, by decide⟩⟩, agreeing.walks,
    agreeing.changed.mpr ⟨(1, 10), by decide, ?_⟩⟩
  rintro ⟨value, held, _⟩
  simp [notes, to_list_of_ascending] at held

end OrderedMap

end ThreeAddress
