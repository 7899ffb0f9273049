import Mathlib.Data.List.Forall2
import Mathlib.Data.List.Sort
import ThreeAddress.Proofs.OrderedMap.History
import ThreeAddress.Proofs.OrderedMap.Lockstep

/-!
Equality of maps. Two maps are compared by their counts and by a walk along both at once, whatever their trees look like.
Maps that stand for tables are found equal exactly if the tables bind the same keys to equal values; so a map that is
drained and built anew is equal to what it was, unless it holds a value that differs from itself.
-/

set_option autoImplicit false

namespace ThreeAddress

variable {κ ν : Type}

section Walk

variable [BEq κ] [BEq ν]

-- The walk ends with the shorter side.
def walkSame (left right : Cursor κ ν) : Bool :=
  match _next : left.next?, right.next? with
  | some (entry, leftRest), some (other, rightRest) =>
      entry.1 == other.1 && entry.2 == other.2 && walkSame leftRest rightRest
  | _, _ => true
termination_by left.entries.length
decreasing_by
  rw [left.entries_of_next leftRest entry _next]
  exact Nat.lt_succ_self _

theorem walk_same_eq (left right : Cursor κ ν) :
    walkSame left right =
      (left.entries.zip right.entries).all fun (entry, other) => entry.1 == other.1 && entry.2 == other.2 := by
  fun_induction walkSame left right with
  | case1 left right entry leftRest other rightRest next otherNext ih =>
    rw [left.entries_of_next leftRest entry next, right.entries_of_next rightRest other otherNext, List.zip_cons_cons,
      List.all_cons, ih]
  | case2 left right ended =>
    cases next : left.next? with
    | none => rw [left.entries_of_next_none next, List.zip_nil_left, List.all_nil]
    | some first =>
      cases otherNext : right.next? with
      | none => rw [right.entries_of_next_none otherNext, List.zip_nil_right, List.all_nil]
      | some second => exact (ended _ _ _ _ next otherNext).elim

end Walk

namespace OrderedMap

def sameWalking [BEq κ] [BEq ν] (map other : OrderedMap κ ν) : Bool :=
  map.size == other.size && walkSame map.cursor other.cursor

theorem same_walking_eq [BEq κ] [BEq ν] (map other : OrderedMap κ ν) : map.sameWalking other = (map == other) := by
  rw [sameWalking, walk_same_eq, entries_cursor, entries_cursor]
  rfl

def Paired [BEq ν] : List (κ × ν) → List (κ × ν) → Prop :=
  List.Forall₂ fun entry other => entry.1 = other.1 ∧ (entry.2 == other.2) = true

theorem forall₂_exists {α β : Type} (related : α → β → Prop) (left : List α) (right : List β)
    (paired : List.Forall₂ related left right) (first : α) (member : first ∈ left) :
    ∃ second ∈ right, related first second := by
  induction paired with
  | nil => cases member
  | @cons head other rest others pair _ ih =>
    rcases List.mem_cons.mp member with rfl | later
    · exact ⟨other, List.mem_cons_self, pair⟩
    · obtain ⟨second, found, relates⟩ := ih later
      exact ⟨second, List.mem_cons_of_mem _ found, relates⟩

section Ordered

variable [Ord κ] [Std.TransOrd κ] [Std.LawfulEqOrd κ]

theorem keys_ext (map other : OrderedMap κ ν) (ascends : Ascending map.toList) (otherAscends : Ascending other.toList)
    (same : ∀ key, key ∈ map.keys ↔ key ∈ other.keys) : map.keys = other.keys := by
  have _irrefl : Std.Irrefl fun before after : κ => compare before after = .lt :=
    ⟨fun key less => key_ne_of_lt key key less rfl⟩
  have _antisymm : Std.Antisymm fun before after : κ => compare before after = .lt :=
    ⟨fun before after less more => by rw [Std.OrientedCmp.gt_of_lt less] at more; cases more⟩
  have keysAscend (map : OrderedMap κ ν) (ascends : Ascending map.toList) :
      map.keys.Pairwise fun before after => compare before after = .lt := List.pairwise_map.mpr ascends
  exact (keysAscend map ascends).eq_of_mem_iff (keysAscend other otherAscends) same

variable [BEq ν] (map other : OrderedMap κ ν) (table otherTable : Table κ ν) (represents : map.Represents table)
  (otherRepresents : other.Represents otherTable)

include represents otherRepresents

theorem paired_of_tables (agree : ∀ key, (table key == otherTable key) = true) :
    Paired map.toList other.toList := by
  have bound (key : κ) : (table key).isSome = (otherTable key).isSome := by
    have agrees := agree key
    revert agrees
    cases table key <;> cases otherTable key <;> simp
  have keys : map.keys = other.keys := keys_ext map other represents.ascends otherRepresents.ascends fun key => by
    rw [mem_keys_table map table represents, mem_keys_table other otherTable otherRepresents, bound]
  have sameKeys : List.Forall₂ (fun entry other => entry.1 = other.1) map.toList other.toList :=
    List.forall₂_map_right_iff.mp (List.forall₂_map_left_iff.mp (List.forall₂_eq_eq_eq ▸ keys))
  obtain ⟨sameLength, zipped⟩ := List.forall₂_iff_zip.mp sameKeys
  refine List.forall₂_iff_zip.mpr ⟨sameLength, fun {entry second} member => ⟨zipped member, ?_⟩⟩
  obtain ⟨here, there⟩ := List.of_mem_zip member
  have agrees := agree entry.1
  rw [(represents.entries entry.1 entry.2).mp here, zipped member,
    (otherRepresents.entries second.1 second.2).mp there] at agrees
  exact agrees

omit [Std.TransOrd κ] [Std.LawfulEqOrd κ] in
theorem tables_of_paired (paired : Paired map.toList other.toList) (key : κ) :
    (table key == otherTable key) = true := by
  cases held : table key with
  | none =>
    cases otherHeld : otherTable key with
    | none => rfl
    | some value =>
      obtain ⟨⟨_, found⟩, member, rfl, _⟩ := forall₂_exists _ _ _ (List.Forall₂.flip paired) (key, value)
        ((otherRepresents.entries key value).mpr otherHeld)
      cases held.symm.trans ((represents.entries _ found).mp member)
  | some value =>
    obtain ⟨⟨_, found⟩, member, rfl, equal⟩ := forall₂_exists _ _ _ paired (key, value)
      ((represents.entries key value).mpr held)
    rw [(otherRepresents.entries _ found).mp member]
    exact equal

theorem beq_iff_tables [BEq κ] [LawfulBEq κ] :
    (map == other) = true ↔ ∀ key, (table key == otherTable key) = true := by
  have compared : (map == other) = true ↔ Paired map.toList other.toList := by
    change sameEntries map other = true ↔ _
    rw [sameEntries, Bool.and_eq_true, beq_iff_eq, represents.counted, otherRepresents.counted, Paired,
      List.forall₂_iff_zip, List.all_eq_true]
    simp
  rw [compared]
  exact ⟨tables_of_paired map other table otherTable represents otherRepresents,
    paired_of_tables map other table otherTable represents otherRepresents⟩

end Ordered

theorem equality_ignores_history [Ord κ] [Std.TransOrd κ] [Std.LawfulEqOrd κ] [BEq κ] [LawfulBEq κ] [BEq ν] :
    (∀ (map other : OrderedMap κ ν) (table otherTable : Table κ ν), Reached map table → Reached other otherTable →
      map.sameWalking other = (map == other) ∧
      (∀ key, map.get? key = table key) ∧ (∀ key, other.get? key = otherTable key) ∧
      ((map == other) = true ↔ ∀ key, (table key == otherTable key) = true)) ∧
    (∀ (map : OrderedMap κ ν) (table : Table κ ν), Reached map table →
      ∃ rebuilt, ofSorted map.cursor.drain = .ok rebuilt ∧ Reached rebuilt table ∧
        ((rebuilt == map) = true ↔ ∀ key value, table key = some value → (value == value) = true)) ∧
    ∀ entries : List (κ × ν), entries.Pairwise (fun before after => compare before.1 after.1 = .lt) →
      ∃ map, ofSorted entries = .ok map ∧ map.cursor.drain = entries := by
  have drained (map : OrderedMap κ ν) : map.cursor.drain = map.toList :=
    map.cursor.drain_eq.trans (entries_cursor map)
  refine ⟨fun map other table otherTable reached otherReached => ?_, fun map table reached => ?_,
    fun entries ascends => ?_⟩
  · have represents := represents_reached map table reached
    have otherRepresents := represents_reached other otherTable otherReached
    exact ⟨same_walking_eq map other, get_table map table represents, get_table other otherTable otherRepresents,
      beq_iff_tables map other table otherTable represents otherRepresents⟩
  · have represents := represents_reached map table reached
    obtain ⟨rebuilt, built, rebuiltRepresents⟩ := represents_rebuild map table represents
    refine ⟨rebuilt, (drained map).symm ▸ built, .rebuild map rebuilt table reached built, ?_⟩
    rw [beq_iff_tables rebuilt map table table rebuiltRepresents represents]
    refine forall_congr' fun key => ?_
    cases table key <;> simp
  · exact ⟨ofAscending entries, of_sorted_ascending entries ascends,
      (drained _).trans (to_list_of_ascending entries)⟩

def climbing : List (Nat × Nat) := [(1, 10), (2, 20), (3, 30), (4, 40)]

-- Put in upwards and downwards the same entries make different trees, and put in upwards and built anew too.
theorem climbing_both_ways :
    Std.TransOrd Nat ∧ Std.LawfulEqOrd Nat ∧ LawfulBEq Nat ∧
      (ofList climbing).root ≠ (ofList climbing.reverse).root ∧
      (ofList climbing).sameWalking (ofList climbing.reverse) = true ∧
      (∀ key, (Table.none.writeMany climbing key == Table.none.writeMany climbing.reverse key) = true) ∧
      ∃ rebuilt, ofSorted (ofList climbing).cursor.drain = .ok rebuilt ∧ rebuilt.root ≠ (ofList climbing).root ∧
        (rebuilt == ofList climbing) = true := by
  obtain ⟨compares, rebuilds, _⟩ := equality_ignores_history (κ := Nat) (ν := Nat)
  obtain ⟨walked, _, _, equal⟩ := compares _ _ _ _ (.insertMany _ _ .empty climbing) (.insertMany _ _ .empty climbing.reverse)
  have same : (ofList climbing == ofList climbing.reverse) = true := by decide
  obtain ⟨rebuilt, built, _, itself⟩ := rebuilds _ _ (.insertMany _ _ .empty climbing)
  have shape : (ofSorted (ofList climbing).cursor.drain).toOption.all (fun map => map.root ≠ (ofList climbing).root) = true := by
    decide +kernel
  rw [show ofSorted (ofList climbing).cursor.drain = .ok rebuilt from built] at shape
  exact ⟨inferInstance, inferInstance, inferInstance, by decide, walked.trans same, equal.mp same, rebuilt, built,
    of_decide_eq_true shape, itself.mpr fun _ value _ => beq_self_eq_true value⟩

-- The value is not a number.
def undefinedEntry : OrderedMap Nat Float := (empty.insert 0 (0.0 / 0.0)).1

theorem undefined_entry_differs : Reached undefinedEntry (Table.none.write 0 (some (0.0 / 0.0))) ∧
    ∃ rebuilt, ofSorted undefinedEntry.cursor.drain = .ok rebuilt ∧ (rebuilt == undefinedEntry) = false := by
  have differs : (ofSorted undefinedEntry.cursor.drain).toOption.any (fun rebuilt => !(rebuilt == undefinedEntry)) = true := by
    decide +kernel
  refine ⟨.set empty Table.none .empty 0 (some (0.0 / 0.0)), ?_⟩
  cases built : ofSorted undefinedEntry.cursor.drain with
  | error fault =>
    rw [built] at differs
    cases differs
  | ok rebuilt =>
    rw [built] at differs
    have unequal : (!(rebuilt == undefinedEntry)) = true := differs
    exact ⟨rebuilt, rfl, by simpa using unequal⟩

end OrderedMap

end ThreeAddress
