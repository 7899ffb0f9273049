import ThreeAddress.OrderedMap.Merge
import ThreeAddress.Proofs.OrderedMap.Balance
import ThreeAddress.Proofs.OrderedMap.Maps

/-!
What a map means: a table that tells for each key what is bound to it. A balanced search tree with right caches
represents one table, each operation on maps has its plain meaning on tables, and its result is again such a
tree and represents the result of the operation on the tables.
-/

set_option autoImplicit false

namespace ThreeAddress

variable {κ ν : Type}

abbrev Table (κ ν : Type) := κ → Option ν

namespace Table

def none : Table κ ν := fun _ => Option.none

def write [Ord κ] (table : Table κ ν) (key : κ) (value : Option ν) : Table κ ν :=
  fun other => if compare other key = .eq then value else table other

def writeMany [Ord κ] (table : Table κ ν) (entries : List (κ × ν)) : Table κ ν :=
  entries.foldl (fun table entry => table.write entry.1 (some entry.2)) table

def union (table other : Table κ ν) : Table κ ν := fun key => (table key).or (other key)

def inter (table other : Table κ ν) : Table κ ν := fun key => (table key).filter fun _ => (other key).isSome

def agreeing [BEq ν] (table other : Table κ ν) : Table κ ν :=
  fun key => (table key).filter fun value => other key == some value

theorem write_many_eq_some_iff [Ord κ] [Std.TransOrd κ] [Std.LawfulEqOrd κ] (table : Table κ ν)
    (entries : List (κ × ν)) (ascends : Ascending entries) (key : κ) (value : ν) :
    table.writeMany entries key = some value ↔
      (key, value) ∈ entries ∨ key ∉ entries.map Prod.fst ∧ table key = some value := by
  induction entries generalizing table with
  | nil => simp [writeMany]
  | cons entry rest ih =>
    obtain ⟨above, inside⟩ := List.pairwise_cons.mp ascends
    have notLater (later : ν) : (entry.1, later) ∉ rest := fun member => by
      simpa [Std.ReflCmp.compare_self] using above _ member
    rw [show table.writeMany (entry :: rest) = (table.write entry.1 (some entry.2)).writeMany rest from rfl, ih _ inside]
    obtain ⟨first, content⟩ := entry
    simp only [write, Std.LawfulEqOrd.compare_eq_iff_eq]
    by_cases same : key = first
    · subst same
      simp [notLater, eq_comm]
    · simp [same]

end Table

namespace OrderedMap

variable [Ord κ]

structure Represents (map : OrderedMap κ ν) (table : Table κ ν) : Prop where
  ascends : Ascending map.toList
  balanced : map.root.Balanced
  counted : map.size = map.toList.length
  entries : ∀ key value, (key, value) ∈ map.toList ↔ table key = some value

theorem represents_empty : (empty : OrderedMap κ ν).Represents .none where
  ascends := List.Pairwise.nil
  balanced := trivial
  counted := rfl
  entries key value := by simp [empty, toList, Tree.toList, Table.none]

theorem represents_of_ascending (entries : List (κ × ν)) (table : Table κ ν) (ascends : Ascending entries)
    (held : ∀ key value, (key, value) ∈ entries ↔ table key = some value) : (ofAscending entries).Represents table where
  ascends := (to_list_of_ascending entries).symm ▸ ascends
  balanced := Tree.of_ascending_balanced entries
  counted := congrArg List.length (to_list_of_ascending entries).symm
  entries := (to_list_of_ascending entries).symm ▸ held

theorem ascending_of_pairwise (entries : List (κ × ν)) (ascends : Ascending entries) : ascending entries = true := by
  induction entries with
  | nil => rfl
  | cons first rest ih =>
    obtain ⟨above, inside⟩ := List.pairwise_cons.mp ascends
    cases rest with
    | nil => rfl
    | cons second others => simp [ascending, above second List.mem_cons_self, ih inside]

-- Neighbours in order are enough, since the order is transitive.
theorem pairwise_of_ascending [Std.TransOrd κ] (entries : List (κ × ν)) (inOrder : ascending entries = true) :
    Ascending entries := by
  induction entries with
  | nil => exact List.Pairwise.nil
  | cons first rest ih =>
    cases rest with
    | nil => exact List.pairwise_singleton _ _
    | cons second others =>
      simp only [ascending, Bool.and_eq_true, beq_iff_eq] at inOrder
      have inside := ih inOrder.2
      refine List.pairwise_cons.mpr ⟨fun entry member => ?_, inside⟩
      rcases List.mem_cons.mp member with rfl | later
      · exact inOrder.1
      · exact Std.TransCmp.lt_trans inOrder.1 (List.rel_of_pairwise_cons inside later)

theorem of_sorted_ascending (entries : List (κ × ν)) (ascends : Ascending entries) :
    ofSorted entries = .ok (ofAscending entries) :=
  if_pos (ascending_of_pairwise entries ascends)

theorem of_sorted_ok_iff [Std.TransOrd κ] (entries : List (κ × ν)) (map : OrderedMap κ ν) :
    ofSorted entries = .ok map ↔ Ascending entries ∧ map = ofAscending entries := by
  refine ⟨fun built => ?_, fun ⟨ascends, same⟩ => same ▸ of_sorted_ascending entries ascends⟩
  by_cases inOrder : ascending entries = true
  · have ascends := pairwise_of_ascending entries inOrder
    exact ⟨ascends, (Except.ok.inj ((of_sorted_ascending entries ascends).symm.trans built)).symm⟩
  · rw [ofSorted, if_neg inOrder] at built
    cases built

theorem set_old (map : OrderedMap κ ν) (key : κ) (value : Option ν) : (map.set key value).2 = map.get? key := by
  cases value with
  | none => exact Tree.erase_old map.root key
  | some value => exact Tree.insert_old map.root key value

section Operations

variable (map other : OrderedMap κ ν) (table otherTable : Table κ ν) (represents : map.Represents table)
  (otherRepresents : other.Represents otherTable)

include represents

theorem represents_sound : map.Sound := ⟨represents.ascends, represents.counted⟩

theorem represents_rebuild : ∃ rebuilt, ofSorted map.toList = .ok rebuilt ∧ rebuilt.Represents table :=
  ⟨_, of_sorted_ascending map.toList represents.ascends,
    represents_of_ascending map.toList table represents.ascends represents.entries⟩

variable [Std.TransOrd κ] [Std.LawfulEqOrd κ]

theorem get_table (key : κ) : map.get? key = table key :=
  Option.ext fun value =>
    (get_eq_some_iff map (represents_sound map table represents) key value).trans (represents.entries key value)

theorem mem_keys_table (key : κ) : key ∈ map.keys ↔ (table key).isSome = true := by
  rw [← get_is_some_iff map (represents_sound map table represents) key, get_table map table represents key]

theorem represents_set (key : κ) (value : Option ν) : (map.set key value).1.Represents (table.write key value) := by
  have sound := represents_sound map table represents
  obtain ⟨ascends, counted⟩ := sound_set map sound key value
  refine ⟨ascends, ?_, counted, fun other held => ?_⟩
  · cases value with
    | none => exact (Tree.erase_balanced map.root represents.balanced key).1
    | some value => exact (Tree.insert_balanced map.root represents.balanced key value).1
  · simp only [mem_set map sound, represents.entries, Table.write, Std.LawfulEqOrd.compare_eq_iff_eq]
    by_cases same : other = key <;> simp [same]

theorem represents_insert_many (entries : List (κ × ν)) :
    (map.insertMany entries).Represents (table.writeMany entries) := by
  induction entries generalizing map table with
  | nil => exact represents
  | cons entry rest ih => exact ih _ _ (represents_set map table represents entry.1 (some entry.2))

include otherRepresents

theorem represents_union : (map.union other).1.Represents (table.union otherTable) := by
  have sound := represents_sound map table represents
  have otherSound := represents_sound other otherTable otherRepresents
  have ascends := union_entries_ascend map.toList other.toList sound.ascends otherSound.ascends
  refine represents_of_ascending _ _ ascends fun key value => ?_
  rw [mem_union_entries map.toList other.toList sound.ascends otherSound.ascends, represents.entries, otherRepresents.entries, ← keys, mem_keys_table map table represents, Table.union]
  cases table key <;> simp

theorem represents_inter : (map.inter other).1.Represents (table.inter otherTable) := by
  have sound := represents_sound map table represents
  have otherSound := represents_sound other otherTable otherRepresents
  have ascends := ascending_sublist map.toList _ sound.ascends (inter_sublist map.toList other.toList)
  refine represents_of_ascending _ _ ascends fun key value => ?_
  rw [mem_inter_entries map.toList other.toList sound.ascends otherSound.ascends, represents.entries, ← keys,
    mem_keys_table other otherTable otherRepresents, Table.inter, Option.filter_eq_some_iff]

theorem represents_agreeing [BEq ν] : (map.agreeing other).1.Represents (table.agreeing otherTable) := by
  refine represents_of_ascending _ _ (ascending_sublist map.toList _ represents.ascends List.filter_sublist)
    fun key value => ?_
  rw [List.mem_filter, represents.entries, get_table other otherTable otherRepresents, Table.agreeing,
    Option.filter_eq_some_iff]

end Operations

end OrderedMap

end ThreeAddress
