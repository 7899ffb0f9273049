import ThreeAddress.Proofs.OrderedMap.Maps

/-!
Membership in a set, and what each operation does to it. Two sound sets with the same members are equal,
whatever their trees look like.
-/

set_option autoImplicit false

namespace ThreeAddress.OrderedSet

set_option linter.unusedSectionVars false

variable {κ : Type} [Ord κ]

def Sound (set : OrderedSet κ) : Prop := set.map.Sound

theorem sound_empty : Sound (.empty : OrderedSet κ) := OrderedMap.sound_empty

theorem mem_to_list_iff (set : OrderedSet κ) (element : κ) :
    element ∈ set.toList ↔ (element, ()) ∈ set.map.toList := by
  rw [toList, OrderedMap.keys, List.mem_map]
  constructor
  · rintro ⟨_, member, same⟩
    exact same ▸ member
  · exact fun member => ⟨_, member, rfl⟩

theorem length_to_list (set : OrderedSet κ) (sound : set.Sound) : set.toList.length = set.size := by
  rw [toList, OrderedMap.keys, List.length_map]
  exact sound.counted.symm

theorem to_list_of_ascending (elements : List κ) : (ofAscending elements).toList = elements := by
  rw [ofAscending, toList, OrderedMap.keys, OrderedMap.to_list_of_ascending, List.map_map]
  exact List.map_id elements

theorem sound_of_ascending (elements : List κ) (ascends : elements.Pairwise fun a b => compare a b = .lt) :
    (ofAscending elements).Sound :=
  OrderedMap.sound_of_ascending _ (List.pairwise_map.mpr ascends)

instance [BEq κ] [ReflBEq κ] : ReflBEq (OrderedSet κ) where
  rfl {set} := beq_self_eq_true set.map

variable [Std.TransOrd κ] [Std.LawfulEqOrd κ]

theorem nodup_to_list (set : OrderedSet κ) (sound : set.Sound) : set.toList.Nodup :=
  keys_nodup set.map.toList sound.ascends

theorem contains_iff (set : OrderedSet κ) (sound : set.Sound) (element : κ) :
    set.contains element = true ↔ element ∈ set.toList :=
  OrderedMap.get_is_some_iff set.map sound element

theorem contains_eq_false_iff (set : OrderedSet κ) (sound : set.Sound) (element : κ) :
    set.contains element = false ↔ element ∉ set.toList := by
  rw [← Bool.not_eq_true, contains_iff set sound element]

theorem sound_adding (set : OrderedSet κ) (sound : set.Sound) (element : κ) : (set.adding element).Sound :=
  OrderedMap.sound_insert set.map sound element ()

theorem mem_adding (set : OrderedSet κ) (sound : set.Sound) (element other : κ) :
    other ∈ (set.adding element).toList ↔ other = element ∨ other ∈ set.toList := by
  have inserted := OrderedMap.mem_set set.map sound element (some ()) other ()
  rw [mem_to_list_iff, mem_to_list_iff]
  refine Iff.trans inserted ?_
  by_cases same : other = element <;> simp [same]

theorem sound_removing (set : OrderedSet κ) (sound : set.Sound) (element : κ) : (set.removing element).Sound :=
  OrderedMap.sound_erase set.map sound element

theorem mem_removing (set : OrderedSet κ) (sound : set.Sound) (element other : κ) :
    other ∈ (set.removing element).toList ↔ other ≠ element ∧ other ∈ set.toList := by
  have erased := OrderedMap.mem_set set.map sound element none other ()
  rw [mem_to_list_iff, mem_to_list_iff]
  refine Iff.trans erased ?_
  simp

theorem sound_insert_many (set : OrderedSet κ) (sound : set.Sound) (elements : List κ) :
    (set.insertMany elements).Sound := by
  induction elements generalizing set with
  | nil => exact sound
  | cons element rest ih => exact ih _ (sound_adding set sound element)

theorem mem_insert_many (set : OrderedSet κ) (sound : set.Sound) (elements : List κ) (other : κ) :
    other ∈ (set.insertMany elements).toList ↔ other ∈ elements ∨ other ∈ set.toList := by
  induction elements generalizing set with
  | nil => simp [insertMany]
  | cons element rest ih =>
    refine (ih _ (sound_adding set sound element)).trans ?_
    rw [mem_adding set sound, List.mem_cons, or_assoc, or_left_comm]

theorem sound_erase_many (set : OrderedSet κ) (sound : set.Sound) (elements : List κ) :
    (set.eraseMany elements).Sound := by
  induction elements generalizing set with
  | nil => exact sound
  | cons element rest ih => exact ih _ (sound_removing set sound element)

theorem mem_erase_many (set : OrderedSet κ) (sound : set.Sound) (elements : List κ) (other : κ) :
    other ∈ (set.eraseMany elements).toList ↔ other ∉ elements ∧ other ∈ set.toList := by
  induction elements generalizing set with
  | nil => simp [eraseMany]
  | cons element rest ih =>
    refine (ih _ (sound_removing set sound element)).trans ?_
    rw [mem_removing set sound, List.mem_cons, not_or, and_assoc, and_left_comm]

theorem sound_of_list (elements : List κ) : (ofList elements).Sound := sound_insert_many .empty sound_empty elements

theorem mem_of_list (elements : List κ) (other : κ) : other ∈ (ofList elements).toList ↔ other ∈ elements := by
  rw [ofList, mem_insert_many .empty sound_empty]
  exact or_iff_left List.not_mem_nil

theorem sound_union (set other : OrderedSet κ) (sound : set.Sound) (otherSound : other.Sound) :
    (set.union other).1.Sound :=
  OrderedMap.sound_union set.map other.map sound otherSound

theorem mem_union (set other : OrderedSet κ) (sound : set.Sound) (otherSound : other.Sound) (element : κ) :
    element ∈ (set.union other).1.toList ↔ element ∈ set.toList ∨ element ∈ other.toList := by
  have merged := OrderedMap.mem_union set.map other.map sound otherSound (element, ())
  rw [mem_to_list_iff, mem_to_list_iff, mem_to_list_iff]
  refine Iff.trans merged ?_
  have key : element ∈ set.map.keys ↔ (element, ()) ∈ set.map.toList := mem_to_list_iff set element
  by_cases member : (element, ()) ∈ set.map.toList <;> simp [member, key]

theorem sound_inter (set other : OrderedSet κ) (sound : set.Sound) : (set.inter other).1.Sound :=
  OrderedMap.sound_inter set.map other.map sound

theorem mem_inter (set other : OrderedSet κ) (sound : set.Sound) (otherSound : other.Sound) (element : κ) :
    element ∈ (set.inter other).1.toList ↔ element ∈ set.toList ∧ element ∈ other.toList := by
  have merged := OrderedMap.mem_inter set.map other.map sound otherSound (element, ())
  rw [mem_to_list_iff, mem_to_list_iff set]
  exact merged

theorem beq_iff [BEq κ] [LawfulBEq κ] (set other : OrderedSet κ) (sound : set.Sound) (otherSound : other.Sound) :
    (set == other) = true ↔ ∀ element, element ∈ set.toList ↔ element ∈ other.toList := by
  have maps : (set == other) = true ↔ set.map.toList = other.map.toList :=
    OrderedMap.beq_iff set.map other.map sound otherSound
  rw [maps]
  constructor
  · intro same element
    rw [mem_to_list_iff, mem_to_list_iff, same]
  · intro same
    refine OrderedMap.to_list_ext set.map other.map sound otherSound fun (element, _) => ?_
    exact (mem_to_list_iff set element).symm.trans ((same element).trans (mem_to_list_iff other element))

end ThreeAddress.OrderedSet
