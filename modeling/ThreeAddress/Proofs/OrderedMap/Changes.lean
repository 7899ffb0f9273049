import ThreeAddress.Proofs.OrderedMap.Maps

/-!
What the operations on two maps tell about the left one: that it changed, exactly if its entries did. A union
only adds entries to the left list and the others only drop some, so the order of keys has no part in this.
-/

set_option autoImplicit false

namespace ThreeAddress

variable {κ ν : Type} [Ord κ]

theorem sublist_union (left right : List (κ × ν)) : left.Sublist (OrderedMap.unionEntries left right).1 := by
  induction left generalizing right with
  | nil => exact List.nil_sublist _
  | cons head rest ih =>
    rw [OrderedMap.unionEntries]
    exact ((ih _).cons_cons head).trans (List.sublist_append_right _ _)

theorem union_grew_iff (left right : List (κ × ν)) :
    (OrderedMap.unionEntries left right).2 = true ↔ (OrderedMap.unionEntries left right).1 ≠ left := by
  induction left generalizing right with
  | nil => cases right <;> simp [OrderedMap.unionEntries]
  | cons head rest ih =>
    rw [OrderedMap.unionEntries]
    dsimp only
    generalize right.takeWhile (OrderedMap.below head.1) = fresh
    generalize OrderedMap.skip head.1 (right.dropWhile (OrderedMap.below head.1)) = others
    cases fresh with
    | nil => simp [ih others]
    | cons first more =>
      have longer : rest.length ≤ (OrderedMap.unionEntries rest others).1.length := (sublist_union rest others).length_le
      have differ : first :: more ++ head :: (OrderedMap.unionEntries rest others).1 ≠ head :: rest := by
        intro same
        have lengths := congrArg List.length same
        simp only [List.length_append, List.length_cons] at lengths
        omega
      simpa using differ

theorem inter_lost_iff (left right : List (κ × ν)) :
    (OrderedMap.interEntries left right).2 = true ↔ (OrderedMap.interEntries left right).1 ≠ left := by
  induction left generalizing right with
  | nil => simp [OrderedMap.interEntries]
  | cons head rest ih =>
    rw [OrderedMap.interEntries]
    split
    · simp
    · rename_i other remaining _
      split
      · simp [ih remaining]
      · have shorter := (inter_sublist rest (other :: remaining)).length_le
        have differ : (OrderedMap.interEntries rest (other :: remaining)).1 ≠ head :: rest := by
          intro same
          rw [same, List.length_cons] at shorter
          omega
        simpa using differ

namespace OrderedMap

variable (map other : OrderedMap κ ν)

theorem union_changed_iff : (map.union other).2 = true ↔ (map.union other).1.toList ≠ map.toList := by
  simp only [union, to_list_of_ascending]
  exact union_grew_iff map.toList other.toList

theorem inter_changed_iff : (map.inter other).2 = true ↔ (map.inter other).1.toList ≠ map.toList := by
  simp only [inter, to_list_of_ascending]
  exact inter_lost_iff map.toList other.toList

theorem agreeing_changed_iff [BEq ν] (sound : map.Sound) :
    (map.agreeing other).2 = true ↔ (map.agreeing other).1.toList ≠ map.toList := by
  simp only [agreeing, to_list_of_ascending, sound.counted, bne_iff_ne, ne_eq]
  exact not_congr ⟨List.filter_sublist.eq_of_length, congrArg List.length⟩

end OrderedMap

end ThreeAddress
