import ThreeAddress.OrderedMap.Cursor

/-!
What a cursor still has to read: for every node that waits on its stack, the node's own entry and then its right
part. Reading takes the first of these entries and leaves the others, so a cursor goes through the map's entries
in their order, however the tree is shaped, and tells the number of those to come. A map that is borrowed and one
that is used up are read alike: whether a waiting node still holds its left part makes no difference to a cursor.
-/

set_option autoImplicit false

namespace ThreeAddress

variable {κ ν : Type}

def Pending.entries (top : Pending κ ν) : List (κ × ν) := (top.key, top.value) :: top.right.toList

namespace Cursor

def entries (cursor : Cursor κ ν) : List (κ × ν) := cursor.stack.flatMap Pending.entries

def Counted (cursor : Cursor κ ν) : Prop := cursor.remaining = cursor.entries.length

theorem entries_descend (tree : Tree κ ν) (stack : List (Pending κ ν)) :
    (descend tree stack).flatMap Pending.entries = tree.toList ++ stack.flatMap Pending.entries := by
  induction tree generalizing stack with
  | nil => rfl
  | node height left key value right leftIh rightIh =>
    simp [descend, leftIh, Pending.entries, Tree.toList]

theorem next_eq_none (cursor : Cursor κ ν) (empty : cursor.entries = []) : cursor.next? = none := by
  obtain ⟨stack, remaining⟩ := cursor
  cases stack with
  | nil => rfl
  | cons top rest => simp [entries, Pending.entries] at empty

theorem next_eq_some (cursor : Cursor κ ν) (counted : cursor.Counted) (entry : κ × ν) (later : List (κ × ν))
    (first : cursor.entries = entry :: later) :
    ∃ rest, cursor.next? = some (entry, rest) ∧ rest.entries = later ∧ rest.Counted ∧
      cursor.remaining = rest.remaining + 1 := by
  obtain ⟨stack, remaining⟩ := cursor
  cases stack with
  | nil => simp [entries] at first
  | cons top stack =>
    simp only [Counted, first, List.length_cons] at counted
    simp only [entries, List.flatMap_cons, Pending.entries, List.cons_append, List.cons.injEq] at first
    obtain ⟨rfl, rfl⟩ := first
    have left := entries_descend top.right stack
    refine ⟨_, rfl, left, ?_, ?_⟩
    · simp [Counted, entries, left, counted, Pending.entries]
    · simp [counted]

theorem readings_eq (count : Nat) (cursor : Cursor κ ν) (counted : cursor.Counted) :
    cursor.readings count = (List.range count).map fun index => (cursor.remaining - index, cursor.entries[index]?) := by
  induction count generalizing cursor with
  | zero => rfl
  | succ count ih =>
    rw [readings, List.range_succ_eq_map, List.map_cons, List.map_map]
    cases parts : cursor.entries with
    | nil =>
      have none : cursor.remaining = 0 := counted.trans (congrArg List.length parts)
      simp [next_eq_none cursor parts, ih cursor counted, parts, none, Function.comp_def]
    | cons entry later =>
      obtain ⟨rest, next, left, restCounted, remaining⟩ := next_eq_some cursor counted entry later parts
      simp [next, ih rest restCounted, left, remaining, Function.comp_def, Nat.add_sub_add_right]

end Cursor

theorem OrderedMap.entries_cursor (map : OrderedMap κ ν) : map.cursor.entries = map.toList := by
  simp [cursor, Cursor.entries, Cursor.entries_descend, toList]

theorem OrderedMap.readings_cursor (map : OrderedMap κ ν) (counted : map.size = map.toList.length) (count : Nat) :
    map.cursor.readings count = (List.range count).map fun index => (map.size - index, map.toList[index]?) := by
  have entries := map.entries_cursor
  have exact : map.cursor.Counted := counted.trans (congrArg List.length entries.symm)
  rw [Cursor.readings_eq count map.cursor exact, entries]
  rfl

end ThreeAddress
