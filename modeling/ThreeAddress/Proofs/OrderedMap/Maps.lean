import ThreeAddress.Proofs.OrderedMap.Entries

/-!
What the operations on a map do to its entries, for maps whose keys ascend and whose number of entries
is cached right. Each operation yields such a map again.
-/

set_option autoImplicit false

namespace ThreeAddress

variable {κ ν : Type} [Ord κ]

theorem skip_sublist (key : κ) (entries : List (κ × ν)) : (OrderedMap.skip key entries).Sublist entries := by
  cases entries with
  | nil => exact List.Sublist.slnil
  | cons head rest =>
    rw [OrderedMap.skip]
    split
    · exact List.sublist_cons_self head rest
    · exact List.Sublist.refl _

theorem ascending_sublist (entries part : List (κ × ν)) (ascends : Ascending entries)
    (inside : part.Sublist entries) : Ascending part :=
  List.Pairwise.sublist inside ascends

theorem inter_sublist (left right : List (κ × ν)) : (OrderedMap.interEntries left right).1.Sublist left := by
  induction left generalizing right with
  | nil => exact List.Sublist.slnil
  | cons head rest ih =>
    rw [OrderedMap.interEntries]
    split
    · exact List.nil_sublist _
    · split
      · exact (ih _).cons_cons head
      · exact (ih _).cons head

-- In an ascending list the entries below a key come first, so cutting there is filtering.
section Cutting

variable [Std.TransOrd κ]

theorem take_while_below (key : κ) (entries : List (κ × ν)) (ascends : Ascending entries) :
    entries.takeWhile (OrderedMap.below key) = entries.filter (OrderedMap.below key) := by
  induction entries with
  | nil => rfl
  | cons head rest ih =>
    obtain ⟨above, inside⟩ := List.pairwise_cons.mp ascends
    cases small : OrderedMap.below key head with
    | true => simp [small, ih inside]
    | false =>
      have none : ∀ entry ∈ rest, ¬ OrderedMap.below key entry = true := by
        intro entry member later
        simp only [OrderedMap.below, beq_iff_eq, beq_eq_false_iff_ne] at small later
        exact small (Std.TransCmp.lt_trans (above entry member) later)
      rw [List.takeWhile_cons_of_neg (by simp [small]), List.filter_cons_of_neg (by simp [small])]
      exact (List.filter_eq_nil_iff.mpr none).symm

theorem drop_while_below (key : κ) (entries : List (κ × ν)) (ascends : Ascending entries) :
    entries.dropWhile (OrderedMap.below key) = entries.filter fun entry => !OrderedMap.below key entry := by
  induction entries with
  | nil => rfl
  | cons head rest ih =>
    obtain ⟨above, inside⟩ := List.pairwise_cons.mp ascends
    cases small : OrderedMap.below key head with
    | true => simp [small, ih inside]
    | false =>
      have kept : rest.filter (fun entry => !OrderedMap.below key entry) = rest := by
        refine List.filter_eq_self.mpr fun entry member => ?_
        simp only [OrderedMap.below, beq_eq_false_iff_ne, ne_eq, Bool.not_eq_eq_eq_not, Bool.not_true] at small ⊢
        exact fun later => small (Std.TransCmp.lt_trans (above entry member) later)
      rw [List.dropWhile_cons_of_neg (by simp [small]), List.filter_cons_of_pos (by simp [small]), kept]

theorem mem_skip_drop_while (key : κ) (entries : List (κ × ν)) (ascends : Ascending entries) (entry : κ × ν) :
    entry ∈ OrderedMap.skip key (entries.dropWhile (OrderedMap.below key)) ↔
      entry ∈ entries ∧ compare entry.1 key = .gt := by
  induction entries with
  | nil => simp [OrderedMap.skip]
  | cons head rest ih =>
    obtain ⟨above, inside⟩ := List.pairwise_cons.mp ascends
    have larger (ge : (compare head.1 key).isGE) : ∀ other ∈ rest, compare other.1 key = .gt :=
      fun other member => Std.TransCmp.gt_of_gt_of_isGE (Std.OrientedCmp.gt_of_lt (above other member)) ge
    cases order : compare head.1 key with
    | lt =>
      have small : OrderedMap.below key head = true := by simp [OrderedMap.below, order]
      rw [List.dropWhile_cons_of_pos small, ih inside, List.mem_cons]
      exact ⟨fun found => ⟨.inr found.1, found.2⟩, fun ⟨found, greater⟩ => ⟨found.resolve_left fun same => by
        simp [same, order] at greater, greater⟩⟩
    | eq =>
      have large : ¬ OrderedMap.below key head = true := by simp [OrderedMap.below, order]
      rw [List.dropWhile_cons_of_neg large, OrderedMap.skip, if_pos (by simp [order]), List.mem_cons]
      constructor
      · exact fun member => ⟨.inr member, larger (by simp [order]) entry member⟩
      · exact fun ⟨found, greater⟩ => found.resolve_left fun same => by simp [same, order] at greater
    | gt =>
      have large : ¬ OrderedMap.below key head = true := by simp [OrderedMap.below, order]
      rw [List.dropWhile_cons_of_neg large, OrderedMap.skip, if_neg (by simp [order])]
      refine ⟨fun member => ⟨member, ?_⟩, And.left⟩
      rcases List.mem_cons.mp member with here | later
      · exact here ▸ order
      · exact larger (by simp [order]) entry later

end Cutting

namespace OrderedMap

structure Sound (map : OrderedMap κ ν) : Prop where
  ascends : Ascending map.toList
  counted : map.size = map.toList.length

theorem sound_empty : Sound (.empty : OrderedMap κ ν) := ⟨List.Pairwise.nil, rfl⟩

theorem sound_of_ascending (entries : List (κ × ν)) (ascends : Ascending entries) :
    Sound (ofAscending entries) := by
  constructor
  · rw [to_list_of_ascending]
    exact ascends
  · rw [to_list_of_ascending]
    rfl

end OrderedMap

instance [BEq κ] [ReflBEq κ] [BEq ν] [ReflBEq ν] : ReflBEq (OrderedMap κ ν) where
  rfl {map} := by
    change OrderedMap.sameEntries map map = true
    rw [OrderedMap.sameEntries, beq_self_eq_true, Bool.true_and, List.all_eq_true]
    intro (first, second) member
    rw [List.zip, List.zipWith_self, List.mem_map] at member
    obtain ⟨entry, _, same⟩ := member
    cases same
    simp

set_option linter.unusedSectionVars false

variable [Std.TransOrd κ] [Std.LawfulEqOrd κ]

theorem mem_take_while_below (key : κ) (entries : List (κ × ν)) (ascends : Ascending entries) (entry : κ × ν) :
    entry ∈ entries.takeWhile (OrderedMap.below key) ↔ entry ∈ entries ∧ compare entry.1 key = .lt := by
  rw [take_while_below key entries ascends, List.mem_filter]
  simp [OrderedMap.below]

theorem ascending_skip (key : κ) (entries : List (κ × ν)) (ascends : Ascending entries) :
    Ascending (OrderedMap.skip key (entries.dropWhile (OrderedMap.below key))) :=
  ascending_sublist entries _ ascends ((skip_sublist key _).trans (List.dropWhile_sublist (OrderedMap.below key)))

theorem mem_union_entries (left right : List (κ × ν)) (leftAscends : Ascending left) (rightAscends : Ascending right)
    (entry : κ × ν) : entry ∈ (OrderedMap.unionEntries left right).1 ↔
      entry ∈ left ∨ entry ∈ right ∧ entry.1 ∉ left.map Prod.fst := by
  induction left generalizing right with
  | nil => simp [OrderedMap.unionEntries]
  | cons head rest ih =>
    obtain ⟨above, inside⟩ := List.pairwise_cons.mp leftAscends
    have later (less : compare entry.1 head.1 = .lt) : entry.1 ∉ rest.map Prod.fst := fun repeated => by
      obtain ⟨other, member, same⟩ := List.mem_map.mp repeated
      have greater := Std.OrientedCmp.gt_of_lt (above other member)
      rw [same, less] at greater
      exact Ordering.noConfusion greater
    simp only [OrderedMap.unionEntries, List.mem_append, List.mem_cons, mem_take_while_below head.1 right rightAscends,
      ih _ inside (ascending_skip head.1 right rightAscends), mem_skip_drop_while head.1 right rightAscends, List.map_cons,
      not_or]
    cases order : compare entry.1 head.1 with
    | lt =>
      have different := key_ne_of_lt _ _ order
      simp only [different, later order, and_true, not_false_eq_true, reduceCtorEq, and_false, or_false]
      exact or_comm
    | eq =>
      have same := Std.LawfulEqOrd.eq_of_compare order
      simp [same]
    | gt =>
      have different := (key_ne_of_lt _ _ (Std.OrientedCmp.lt_of_gt order)).symm
      simp only [different, and_true, true_and, not_false_eq_true, reduceCtorEq, and_false, false_or]
      exact or_assoc.symm

theorem union_entries_ascend (left right : List (κ × ν)) (leftAscends : Ascending left) (rightAscends : Ascending right) :
    Ascending (OrderedMap.unionEntries left right).1 := by
  induction left generalizing right with
  | nil => exact rightAscends
  | cons head rest ih =>
    obtain ⟨above, inside⟩ := List.pairwise_cons.mp leftAscends
    have cut := ascending_skip head.1 right rightAscends
    have fresh := ascending_sublist right _ rightAscends (List.takeWhile_sublist (OrderedMap.below head.1))
    refine (ascending_append _ _ head).mpr ⟨fresh, ih _ inside cut, fun entry member => ?_, fun entry member => ?_⟩
    · exact ((mem_take_while_below head.1 right rightAscends entry).mp member).2
    · rcases (mem_union_entries rest _ inside cut entry).mp member with old | ⟨new, _⟩
      · exact above entry old
      · exact Std.OrientedCmp.lt_of_gt ((mem_skip_drop_while head.1 right rightAscends entry).mp new).2

theorem mem_keys_drop_while (bound key : κ) (entries : List (κ × ν)) (ascends : Ascending entries) (ge : compare key bound ≠ .lt) :
    key ∈ entries.map Prod.fst ↔ key ∈ (entries.dropWhile (OrderedMap.below bound)).map Prod.fst := by
  simp only [drop_while_below bound entries ascends, List.mem_map, List.mem_filter, OrderedMap.below]
  constructor
  · rintro ⟨other, member, rfl⟩
    exact ⟨other, ⟨member, by simp [ge]⟩, rfl⟩
  · rintro ⟨other, ⟨member, _⟩, rfl⟩
    exact ⟨other, member, rfl⟩

theorem head_meets_iff (bound : κ) (entries : List (κ × ν)) (ascends : Ascending entries) :
    (entries.dropWhile (OrderedMap.below bound)).head?.any (fun other => compare other.1 bound == .eq) = true ↔
      bound ∈ entries.map Prod.fst := by
  have cut := ascending_sublist entries _ ascends (List.dropWhile_sublist (OrderedMap.below bound))
  rw [mem_keys_drop_while bound bound entries ascends (by simp)]
  cases remaining : entries.dropWhile (OrderedMap.below bound) with
  | nil => simp
  | cons other others =>
    have large : other ∈ entries.dropWhile (OrderedMap.below bound) := remaining ▸ List.mem_cons_self
    rw [drop_while_below bound entries ascends, List.mem_filter, OrderedMap.below] at large
    rw [remaining] at cut
    have beyond : bound ∉ others.map Prod.fst := fun repeated => by
      obtain ⟨third, member, same⟩ := List.mem_map.mp repeated
      have less := (List.pairwise_cons.mp cut).1 third member
      rw [same] at less
      simp [less] at large
    rw [List.map_cons, List.mem_cons, or_iff_left beyond, List.head?_cons, Option.any_some, beq_iff_eq,
      Std.LawfulEqOrd.compare_eq_iff_eq]
    exact eq_comm

theorem meets_skip_iff (bound key : κ) (entries : List (κ × ν)) (ascends : Ascending entries) (greater : compare key bound = .gt) :
    key ∈ (OrderedMap.skip bound (entries.dropWhile (OrderedMap.below bound))).map Prod.fst ↔ key ∈ entries.map Prod.fst := by
  simp only [List.mem_map, mem_skip_drop_while bound entries ascends]
  refine exists_congr fun entry => ⟨fun found => ⟨found.1.1, found.2⟩, fun found => ⟨⟨found.1, ?_⟩, found.2⟩⟩
  rw [found.2, greater]

theorem inter_entries_cons (head : κ × ν) (rest right : List (κ × ν)) :
    (OrderedMap.interEntries (head :: rest) right).1 =
      (if (right.dropWhile (OrderedMap.below head.1)).head?.any (fun other => compare other.1 head.1 == .eq) then [head] else [])
        ++ (OrderedMap.interEntries rest (OrderedMap.skip head.1 (right.dropWhile (OrderedMap.below head.1)))).1 := by
  rw [OrderedMap.interEntries]
  cases right.dropWhile (OrderedMap.below head.1) with
  | nil => cases rest <;> simp [OrderedMap.skip, OrderedMap.interEntries]
  | cons other others =>
    by_cases same : (compare other.1 head.1 == .eq) = true
    · simp [OrderedMap.skip, same]
    · simp [OrderedMap.skip, same]

theorem mem_inter_entries (left right : List (κ × ν)) (leftAscends : Ascending left) (rightAscends : Ascending right)
    (entry : κ × ν) :
    entry ∈ (OrderedMap.interEntries left right).1 ↔ entry ∈ left ∧ entry.1 ∈ right.map Prod.fst := by
  induction left generalizing right with
  | nil => simp [OrderedMap.interEntries]
  | cons head rest ih =>
    obtain ⟨above, inside⟩ := List.pairwise_cons.mp leftAscends
    have later (member : entry ∈ rest) := meets_skip_iff head.1 entry.1 right rightAscends
      (Std.OrientedCmp.gt_of_lt (above entry member))
    have first : entry ∈ (if (right.dropWhile (OrderedMap.below head.1)).head?.any (fun other => compare other.1 head.1 == .eq)
        then [head] else []) ↔ entry = head ∧ entry.1 ∈ right.map Prod.fst := by
      simp only [head_meets_iff head.1 right rightAscends, List.mem_ite_nil_right, List.mem_singleton]
      exact ⟨fun ⟨met, here⟩ => ⟨here, here ▸ met⟩, fun ⟨here, met⟩ => ⟨here ▸ met, here⟩⟩
    rw [inter_entries_cons, List.mem_append, first, ih _ inside (ascending_skip head.1 right rightAscends), List.mem_cons,
      or_and_right]
    exact or_congr_right (and_congr_right later)

namespace OrderedMap

theorem get_eq_some_iff (map : OrderedMap κ ν) (sound : map.Sound) (key : κ) (value : ν) :
    map.get? key = some value ↔ (key, value) ∈ map.toList :=
  Tree.get_eq_some_iff map.root sound.ascends key value

theorem get_is_some_iff (map : OrderedMap κ ν) (sound : map.Sound) (key : κ) :
    (map.get? key).isSome = true ↔ key ∈ map.keys := by
  rw [Option.isSome_iff_exists]
  simp only [get_eq_some_iff map sound, keys, List.mem_map, Prod.exists, exists_and_right, exists_eq_right]

theorem insert_to_list (map : OrderedMap κ ν) (sound : map.Sound) (key : κ) (value : ν) :
    (map.insert key value).1.toList = putEntry key value map.toList :=
  Tree.insert_to_list map.root sound.ascends key value

theorem erase_to_list (map : OrderedMap κ ν) (sound : map.Sound) (key : κ) :
    (map.erase key).1.toList = dropEntry key map.toList :=
  Tree.erase_to_list map.root sound.ascends key

theorem any_key_iff (map : OrderedMap κ ν) (sound : map.Sound) (key : κ) :
    map.toList.any (fun entry => compare key entry.1 == .eq) = (map.get? key).isSome := by
  refine Bool.eq_iff_iff.mpr ?_
  rw [get_is_some_iff map sound, List.any_eq_true, keys, List.mem_map]
  refine exists_congr fun entry => and_congr_right fun _ => ?_
  rw [beq_iff_eq, Std.LawfulEqOrd.compare_eq_iff_eq]
  exact eq_comm

theorem sound_insert (map : OrderedMap κ ν) (sound : map.Sound) (key : κ) (value : ν) :
    (map.insert key value).1.Sound := by
  constructor
  · rw [insert_to_list map sound]
    exact ascending_put_entry key value map.toList sound.ascends
  · rw [insert_to_list map sound, length_put_entry key value map.toList sound.ascends, any_key_iff map sound]
    have old : (map.root.insert key value).2 = map.get? key := Tree.insert_old map.root key value
    simp only [insert, old, sound.counted]
    cases map.get? key <;> rfl

theorem length_drop_entry (key : κ) (entries : List (κ × ν)) (ascends : Ascending entries) :
    (dropEntry key entries).length =
      if entries.any (fun entry => compare key entry.1 == .eq) then entries.length - 1 else entries.length := by
  induction entries with
  | nil => rfl
  | cons head rest ih =>
    obtain ⟨above, inside⟩ := List.pairwise_cons.mp ascends
    rw [drop_entry_cons]
    cases order : compare key head.1 with
    | eq =>
      have absent := drop_entry_absent key rest fun entry member => by
        simp [all_lt_of_lt key head rest above (by simp [order]) entry member]
      simp [order, absent]
    | lt | gt =>
      have same : (head :: rest).any (fun entry => compare key entry.1 == .eq) =
          rest.any (fun entry => compare key entry.1 == .eq) := by simp only [List.any_cons, order]; rfl
      rw [same, if_neg Ordering.noConfusion, List.length_cons, ih inside, List.length_cons]
      split
      · obtain ⟨entry, member, _⟩ := List.any_eq_true.mp ‹_›
        have some : 0 < rest.length := List.length_pos_of_mem member
        omega
      · rfl

theorem sound_erase (map : OrderedMap κ ν) (sound : map.Sound) (key : κ) : (map.erase key).1.Sound := by
  constructor
  · rw [erase_to_list map sound]
    exact ascending_sublist map.toList _ sound.ascends List.filter_sublist
  · rw [erase_to_list map sound, length_drop_entry key map.toList sound.ascends, any_key_iff map sound]
    have old : (map.root.erase key).2 = map.get? key := Tree.erase_old map.root key
    simp only [erase, old, sound.counted]

theorem sound_set (map : OrderedMap κ ν) (sound : map.Sound) (key : κ) (value : Option ν) :
    (map.set key value).1.Sound := by
  cases value with
  | none => exact sound_erase map sound key
  | some value => exact sound_insert map sound key value

theorem mem_set (map : OrderedMap κ ν) (sound : map.Sound) (key : κ) (value : Option ν) (other : κ) (held : ν) :
    (other, held) ∈ (map.set key value).1.toList ↔
      other = key ∧ value = some held ∨ other ≠ key ∧ (other, held) ∈ map.toList := by
  cases value with
  | none =>
    simp only [set, erase_to_list map sound, mem_drop_entry, reduceCtorEq, and_false, false_or]
    exact and_comm
  | some value =>
    simp only [set, insert_to_list map sound, mem_put_entry key value map.toList sound.ascends, Prod.mk.injEq,
      Option.some.injEq]
    exact or_congr (and_congr_right fun _ => eq_comm) and_comm

theorem sound_union (map other : OrderedMap κ ν) (sound : map.Sound) (otherSound : other.Sound) :
    (map.union other).1.Sound :=
  sound_of_ascending _ (union_entries_ascend map.toList other.toList sound.ascends otherSound.ascends)

theorem mem_union (map other : OrderedMap κ ν) (sound : map.Sound) (otherSound : other.Sound) (entry : κ × ν) :
    entry ∈ (map.union other).1.toList ↔ entry ∈ map.toList ∨ entry ∈ other.toList ∧ entry.1 ∉ map.keys := by
  simp only [union, to_list_of_ascending]
  exact mem_union_entries map.toList other.toList sound.ascends otherSound.ascends entry

theorem sound_inter (map other : OrderedMap κ ν) (sound : map.Sound) : (map.inter other).1.Sound :=
  sound_of_ascending _ (ascending_sublist map.toList _ sound.ascends (inter_sublist map.toList other.toList))

theorem mem_inter (map other : OrderedMap κ ν) (sound : map.Sound) (otherSound : other.Sound) (entry : κ × ν) :
    entry ∈ (map.inter other).1.toList ↔ entry ∈ map.toList ∧ entry.1 ∈ other.keys := by
  simp only [inter, to_list_of_ascending]
  exact mem_inter_entries map.toList other.toList sound.ascends otherSound.ascends entry

theorem sound_agreeing [BEq ν] (map other : OrderedMap κ ν) (sound : map.Sound) : (map.agreeing other).1.Sound :=
  sound_of_ascending _ (ascending_sublist map.toList _ sound.ascends List.filter_sublist)

theorem mem_agreeing [BEq ν] [LawfulBEq ν] (map other : OrderedMap κ ν) (otherSound : other.Sound) (entry : κ × ν) :
    entry ∈ (map.agreeing other).1.toList ↔ entry ∈ map.toList ∧ entry ∈ other.toList := by
  simp only [agreeing, to_list_of_ascending, List.mem_filter, beq_iff_eq, get_eq_some_iff other otherSound]

theorem beq_iff [BEq κ] [LawfulBEq κ] [BEq ν] [LawfulBEq ν] (map other : OrderedMap κ ν) (sound : map.Sound)
    (otherSound : other.Sound) : (map == other) = true ↔ map.toList = other.toList := by
  have pairs (left right : List (κ × ν)) (same : left.length = right.length) :
      (left.zip right).all (fun pair => pair.1.1 == pair.2.1 && pair.1.2 == pair.2.2) = true ↔ left = right := by
    induction left generalizing right with
    | nil => cases right <;> simp_all
    | cons head rest ih =>
      cases right with
      | nil => simp at same
      | cons first others =>
        have inner := ih others (by simpa using same)
        simp only [List.zip_cons_cons, List.all_cons, Bool.and_eq_true, beq_iff_eq, inner, List.cons.injEq,
          Prod.ext_iff]
  change sameEntries map other = true ↔ _
  rw [sameEntries, Bool.and_eq_true, beq_iff_eq, sound.counted, otherSound.counted]
  constructor
  · rintro ⟨same, all⟩
    exact (pairs _ _ same).mp all
  · exact fun equal => ⟨congrArg List.length equal, (pairs _ _ (congrArg List.length equal)).mpr equal⟩

theorem to_list_ext (map other : OrderedMap κ ν) (sound : map.Sound) (otherSound : other.Sound)
    (same : ∀ entry, entry ∈ map.toList ↔ entry ∈ other.toList) : map.toList = other.toList := by
  have nodup (entries : List (κ × ν)) (ascends : Ascending entries) : entries.Nodup :=
    List.Pairwise.imp (fun {a b} less (same : a = b) => key_ne_of_lt a.1 b.1 less (congrArg Prod.fst same)) ascends
  have permuted : map.toList.Perm other.toList :=
    (List.perm_ext_iff_of_nodup (nodup _ sound.ascends) (nodup _ otherSound.ascends)).mpr same
  refine permuted.eq_of_pairwise (fun a b _ _ less greater => ?_) sound.ascends otherSound.ascends
  rw [Std.OrientedCmp.gt_of_lt less] at greater
  exact Ordering.noConfusion greater

end OrderedMap

end ThreeAddress
