import ThreeAddress.OrderedSet

/-!
What the operations on a search tree do to its entries. A tree is used only while its keys ascend; then
looking a key up finds the entry that the list holds, inserting and removing change the list at one
key, and the number of entries that a map caches stays right.
-/

set_option autoImplicit false

namespace ThreeAddress

variable {κ ν : Type} [Ord κ]

def Ascending (entries : List (κ × ν)) : Prop := entries.Pairwise fun a b => compare a.1 b.1 = .lt

def putEntry (key : κ) (value : ν) : List (κ × ν) → List (κ × ν)
  | [] => [(key, value)]
  | entry :: rest =>
      match compare key entry.1 with
      | .lt => (key, value) :: entry :: rest
      | .eq => (entry.1, value) :: rest
      | .gt => entry :: putEntry key value rest

def dropEntry (key : κ) (entries : List (κ × ν)) : List (κ × ν) :=
  entries.filter fun entry => compare key entry.1 != .eq

theorem put_entry_left (key : κ) (value : ν) (front back : List (κ × ν)) (middle : κ × ν)
    (less : compare key middle.1 = .lt) :
    putEntry key value (front ++ middle :: back) = putEntry key value front ++ middle :: back := by
  induction front with
  | nil => simp [putEntry, less]
  | cons head rest ih => cases order : compare key head.1 <;> simp [putEntry, order, ih]

theorem put_entry_right (key : κ) (value : ν) (front back : List (κ × ν))
    (greater : ∀ entry ∈ front, compare key entry.1 = .gt) :
    putEntry key value (front ++ back) = front ++ putEntry key value back := by
  induction front with
  | nil => rfl
  | cons head rest ih =>
    have later := ih fun entry member => greater entry (List.mem_cons_of_mem head member)
    simp [putEntry, greater head List.mem_cons_self, later]

theorem drop_entry_absent (key : κ) (entries : List (κ × ν))
    (absent : ∀ entry ∈ entries, compare key entry.1 ≠ .eq) : dropEntry key entries = entries :=
  List.filter_eq_self.mpr fun entry member => bne_iff_ne.mpr (absent entry member)

theorem drop_entry_append (key : κ) (front back : List (κ × ν)) :
    dropEntry key (front ++ back) = dropEntry key front ++ dropEntry key back :=
  List.filter_append front back

theorem drop_entry_cons (key : κ) (entry : κ × ν) (rest : List (κ × ν)) :
    dropEntry key (entry :: rest) =
      if compare key entry.1 = .eq then dropEntry key rest else entry :: dropEntry key rest := by
  simp only [dropEntry, List.filter_cons, bne_iff_ne, ne_eq]
  split <;> simp_all

theorem Tree.insert_old (tree : Tree κ ν) (key : κ) (value : ν) : (tree.insert key value).2 = tree.get? key := by
  induction tree with
  | nil => rfl
  | node height left middle held right leftIh rightIh =>
    cases order : compare key middle <;> simp [insert, get?, order, leftIh, rightIh]

theorem Tree.erase_old (tree : Tree κ ν) (key : κ) : (tree.erase key).2 = tree.get? key := by
  induction tree with
  | nil => rfl
  | node height left middle held right leftIh rightIh =>
    cases order : compare key middle <;> simp [erase, get?, order, leftIh, rightIh]

section Equality

variable [Std.LawfulEqOrd κ]

theorem key_ne_of_lt (a b : κ) (less : compare a b = .lt) : a ≠ b := by
  intro same
  rw [same, Std.LawfulEqOrd.compare_eq_iff_eq.mpr rfl] at less
  exact Ordering.noConfusion less

theorem mem_iff_apart (key : κ) (entries : List (κ × ν)) (below : ∀ entry ∈ entries, compare key entry.1 = .lt)
    (entry : κ × ν) : entry ∈ entries ↔ entry ∈ entries ∧ entry.1 ≠ key :=
  (and_iff_left_of_imp fun member => (key_ne_of_lt key entry.1 (below entry member)).symm).symm

theorem mem_drop_entry (key : κ) (entries : List (κ × ν)) (entry : κ × ν) :
    entry ∈ dropEntry key entries ↔ entry ∈ entries ∧ entry.1 ≠ key := by
  simp only [dropEntry, List.mem_filter, bne_iff_ne, ne_eq, Std.LawfulEqCmp.compare_eq_iff_eq]
  exact and_congr_right fun _ => not_congr eq_comm

theorem keys_nodup (entries : List (κ × ν)) (ascends : Ascending entries) :
    (entries.map Prod.fst).Nodup :=
  List.pairwise_map.mpr (ascends.imp fun {a b} less => key_ne_of_lt a.1 b.1 less)

theorem ascending_unique (entries : List (κ × ν)) (ascends : Ascending entries) (key : κ) (a b : ν)
    (first : (key, a) ∈ entries) (second : (key, b) ∈ entries) : a = b := by
  induction entries with
  | nil => simp at first
  | cons entry rest ih =>
    obtain ⟨above, inside⟩ := List.pairwise_cons.mp ascends
    rcases List.mem_cons.mp first with here | later
    · rcases List.mem_cons.mp second with also | after
      · exact (Prod.mk.inj (here.trans also.symm)).2
      · exact absurd (congrArg Prod.fst here).symm (key_ne_of_lt entry.1 key (above _ after))
    · rcases List.mem_cons.mp second with here | after
      · exact absurd (congrArg Prod.fst here).symm (key_ne_of_lt entry.1 key (above _ later))
      · exact ih inside later after

end Equality

variable [Std.TransOrd κ]

theorem ascending_append (front back : List (κ × ν)) (middle : κ × ν) :
    Ascending (front ++ middle :: back) ↔
      Ascending front ∧ Ascending back ∧ (∀ entry ∈ front, compare entry.1 middle.1 = .lt) ∧
        (∀ entry ∈ back, compare middle.1 entry.1 = .lt) := by
  simp only [Ascending, List.pairwise_append, List.pairwise_cons, List.mem_cons, forall_eq_or_imp]
  constructor
  · exact fun ⟨left, ⟨above, right⟩, across⟩ => ⟨left, right, fun entry member => (across entry member).1, above⟩
  · intro ⟨left, right, below, above⟩
    refine ⟨left, ⟨above, right⟩, fun entry member => ⟨below entry member, ?_⟩⟩
    exact fun other later => Std.TransCmp.lt_trans (below entry member) (above other later)

theorem all_gt_of_gt (key : κ) (middle : κ × ν) (front : List (κ × ν))
    (below : ∀ entry ∈ front, compare entry.1 middle.1 = .lt) (greater : (compare key middle.1).isGE) :
    ∀ entry ∈ front, compare key entry.1 = .gt := by
  intro entry member
  have reversed : compare middle.1 entry.1 = .gt := Std.OrientedCmp.gt_of_lt (below entry member)
  exact Std.TransCmp.gt_of_isGE_of_gt greater reversed

theorem all_lt_of_lt (key : κ) (middle : κ × ν) (back : List (κ × ν))
    (above : ∀ entry ∈ back, compare middle.1 entry.1 = .lt) (less : (compare key middle.1).isLE) :
    ∀ entry ∈ back, compare key entry.1 = .lt :=
  fun entry member => Std.TransCmp.lt_of_isLE_of_lt less (above entry member)

theorem Tree.insert_to_list (tree : Tree κ ν) (ascends : Ascending tree.toList) (key : κ) (value : ν) :
    (tree.insert key value).1.toList = putEntry key value tree.toList := by
  induction tree with
  | nil => rfl
  | node height left middle held right leftIh rightIh =>
    obtain ⟨low, high, below, _⟩ := (ascending_append left.toList right.toList (middle, held)).mp ascends
    cases order : compare key middle with
    | lt => simp only [insert, order, to_list_rebalance, leftIh low, toList, put_entry_left _ _ _ _ (middle, held) order]
    | eq =>
      have greater := all_gt_of_gt key (middle, held) left.toList below (by simp [order])
      simp [insert, order, toList, put_entry_right _ _ _ _ greater, putEntry]
    | gt =>
      have greater := all_gt_of_gt key (middle, held) left.toList below (by simp [order])
      simp [insert, order, toList, to_list_rebalance, rightIh high, put_entry_right _ _ _ _ greater, putEntry]

theorem Tree.erase_to_list (tree : Tree κ ν) (ascends : Ascending tree.toList) (key : κ) :
    (tree.erase key).1.toList = dropEntry key tree.toList := by
  induction tree with
  | nil => rfl
  | node height left middle held right leftIh rightIh =>
    obtain ⟨low, high, below, above⟩ := (ascending_append left.toList right.toList (middle, held)).mp ascends
    have keptLeft (ge : (compare key middle).isGE) : dropEntry key left.toList = left.toList :=
      drop_entry_absent key _ fun entry member => by
        simp [all_gt_of_gt key (middle, held) left.toList below ge entry member]
    have keptRight (le : (compare key middle).isLE) : dropEntry key right.toList = right.toList :=
      drop_entry_absent key _ fun entry member => by
        simp [all_lt_of_lt key (middle, held) right.toList above le entry member]
    rw [toList, drop_entry_append, drop_entry_cons, erase]
    cases order : compare key middle with
    | lt => simp only [to_list_rebalance, leftIh low, keptRight (by simp [order]), reduceCtorEq, if_false]
    | eq => simp only [to_list_join, keptLeft (by simp [order]), keptRight (by simp [order]), if_true]
    | gt => simp only [to_list_rebalance, rightIh high, keptLeft (by simp [order]), reduceCtorEq, if_false]

variable [Std.LawfulEqOrd κ]

theorem mem_put_entry (key : κ) (value : ν) (entries : List (κ × ν)) (ascends : Ascending entries)
    (entry : κ × ν) :
    entry ∈ putEntry key value entries ↔ entry = (key, value) ∨ entry ∈ entries ∧ entry.1 ≠ key := by
  induction entries with
  | nil => simp [putEntry]
  | cons head rest ih =>
    obtain ⟨above, inside⟩ := List.pairwise_cons.mp ascends
    cases order : compare key head.1 with
    | lt =>
      have below : ∀ other ∈ head :: rest, compare key other.1 = .lt :=
        List.forall_mem_cons.mpr ⟨order, all_lt_of_lt key head rest above (by simp [order])⟩
      simp only [putEntry, order, List.mem_cons (b := (key, value))]
      exact or_congr_right (mem_iff_apart key _ below entry)
    | eq =>
      have same : key = head.1 := Std.LawfulEqOrd.eq_of_compare order
      have replaced : ¬ (entry = head ∧ entry.1 ≠ key) := fun ⟨here, different⟩ => different (here ▸ same.symm)
      simp only [putEntry, order, List.mem_cons, or_and_right, or_iff_right replaced]
      rw [← same]
      exact or_congr_right (mem_iff_apart key rest (all_lt_of_lt key head rest above (by simp [order])) entry)
    | gt =>
      have different : head.1 ≠ key := key_ne_of_lt head.1 key (Std.OrientedCmp.lt_of_gt order)
      have kept : entry = head ↔ entry = head ∧ entry.1 ≠ key :=
        (and_iff_left_of_imp fun here => here ▸ different).symm
      simp only [putEntry, order, List.mem_cons, ih inside, or_and_right, ← kept]
      exact or_left_comm

theorem ascending_put_entry (key : κ) (value : ν) (entries : List (κ × ν)) (ascends : Ascending entries) :
    Ascending (putEntry key value entries) := by
  induction entries with
  | nil => exact List.pairwise_singleton _ _
  | cons head rest ih =>
    obtain ⟨above, inside⟩ := List.pairwise_cons.mp ascends
    cases order : compare key head.1 with
    | lt =>
      simp only [putEntry, order]
      refine List.pairwise_cons.mpr ⟨fun other member => ?_, ascends⟩
      rcases List.mem_cons.mp member with here | later
      · exact here ▸ order
      · exact Std.TransCmp.lt_trans order (above other later)
    | eq =>
      simp only [putEntry, order]
      exact List.pairwise_cons.mpr ⟨above, inside⟩
    | gt =>
      simp only [putEntry, order]
      refine List.pairwise_cons.mpr ⟨fun other member => ?_, ih inside⟩
      rcases (mem_put_entry key value rest inside other).mp member with new | old
      · exact new ▸ Std.OrientedCmp.lt_of_gt order
      · exact above other old.1

theorem length_put_entry (key : κ) (value : ν) (entries : List (κ × ν)) (ascends : Ascending entries) :
    (putEntry key value entries).length =
      if entries.any (fun entry => compare key entry.1 == .eq) then entries.length
      else entries.length + 1 := by
  induction entries with
  | nil => rfl
  | cons head rest ih =>
    obtain ⟨above, inside⟩ := List.pairwise_cons.mp ascends
    cases order : compare key head.1 with
    | lt =>
      have absent : rest.any (fun entry => compare key entry.1 == .eq) = false := by
        refine List.any_eq_false.mpr fun entry member => ?_
        simp [all_lt_of_lt key head rest above (by simp [order]) entry member]
      simp [putEntry, order, absent]
    | eq => simp [putEntry, order]
    | gt =>
      simp only [putEntry, order, List.length_cons, ih inside, List.any_cons]
      split <;> simp_all

namespace Tree

theorem get_eq_some_iff (tree : Tree κ ν) (ascends : Ascending tree.toList) (key : κ) (value : ν) :
    tree.get? key = some value ↔ (key, value) ∈ tree.toList := by
  induction tree with
  | nil => simp [get?, toList]
  | node height left middle held right leftIh rightIh =>
    obtain ⟨low, high, below, above⟩ := (ascending_append left.toList right.toList (middle, held)).mp ascends
    cases order : compare key middle with
    | lt =>
      have notHere : key ≠ middle := key_ne_of_lt key middle order
      have notRight : (key, value) ∉ right.toList := fun member => by
        have less := all_lt_of_lt key (middle, held) right.toList above (by simp [order]) (key, value) member
        exact key_ne_of_lt key key less rfl
      simp [get?, toList, order, leftIh low, notHere, notRight]
    | eq =>
      have same : key = middle := Std.LawfulEqOrd.eq_of_compare order
      simp only [get?, order, toList, Option.some.injEq]
      constructor
      · intro found
        exact List.mem_append_right _ (by simp [same, found])
      · intro member
        have here : (key, held) ∈ left.toList ++ (middle, held) :: right.toList := by simp [same]
        exact ascending_unique _ ascends key held value here member
    | gt =>
      have notHere : key ≠ middle := (key_ne_of_lt middle key (Std.OrientedCmp.lt_of_gt order)).symm
      have notLeft : (key, value) ∉ left.toList := fun member => by
        have greater := all_gt_of_gt key (middle, held) left.toList below (by simp [order]) (key, value) member
        exact key_ne_of_lt key key (Std.OrientedCmp.lt_of_gt greater) rfl
      simp [get?, toList, order, rightIh high, notHere, notLeft]

end Tree

end ThreeAddress
