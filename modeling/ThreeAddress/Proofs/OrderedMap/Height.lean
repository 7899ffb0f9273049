import Mathlib.Data.Nat.Fib.Basic
import ThreeAddress.Proofs.OrderedMap.History

/-!
How high the tree of a map is. A balanced tree of some levels holds no fewer entries than the thinnest one, whose parts
are the thinnest with one and with two levels less: their numbers grow like those of Fibonacci. No tree of so many levels
holds as many entries as it has binary words to tell them apart, and a map that is built from a list comes to that bound.
-/

set_option autoImplicit false

namespace ThreeAddress

variable {κ ν : Type}

namespace Tree

theorem fib_siblings (high low : Nat) (close : high ≤ low + 1) :
    Nat.fib (high + 3) ≤ Nat.fib (high + 2) + Nat.fib (low + 2) := by
  have split : Nat.fib (high + 3) = Nat.fib (high + 1) + Nat.fib (high + 2) := Nat.fib_add_two
  have lower : Nat.fib (high + 1) ≤ Nat.fib (low + 2) := Nat.fib_mono (by omega)
  omega

theorem fib_levels_le (tree : Tree κ ν) (balanced : tree.Balanced) :
    Nat.fib (tree.levels + 2) ≤ tree.toList.length + 1 := by
  induction tree with
  | nil => exact Nat.le_refl 1
  | node height left key value right leftIh rightIh =>
    obtain ⟨_, ⟨leftHigh, rightHigh⟩, leftBalanced, rightBalanced⟩ := balanced
    have leftEnough := leftIh leftBalanced
    have rightEnough := rightIh rightBalanced
    have leftHigher := fib_siblings left.levels right.levels leftHigh
    have rightHigher := fib_siblings right.levels left.levels rightHigh
    have twoUp (most : Nat) : 1 + most + 2 = most + 3 := by omega
    rw [levels, toList, List.length_append, List.length_cons, twoUp]
    rcases Nat.le_total left.levels right.levels with below | below
    · rw [Nat.max_eq_right below]
      omega
    · rw [Nat.max_eq_left below]
      omega

theorem length_lt_two_pow (tree : Tree κ ν) : tree.toList.length < 2 ^ tree.levels := by
  induction tree with
  | nil => exact Nat.one_pos
  | node height left key value right leftIh rightIh =>
    have leftMost : 2 ^ left.levels ≤ 2 ^ max left.levels right.levels :=
      Nat.pow_le_pow_right Nat.two_pos (Nat.le_max_left _ _)
    have rightMost : 2 ^ right.levels ≤ 2 ^ max left.levels right.levels :=
      Nat.pow_le_pow_right Nat.two_pos (Nat.le_max_right _ _)
    rw [levels, toList, List.length_append, List.length_cons, Nat.pow_add]
    omega

theorem levels_of_ascending (entries : List (κ × ν)) : (ofAscending entries).levels = entries.length.size :=
  (build_within_balanced entries.length entries.length entries (Nat.le_refl _) (Nat.le_refl _)).2

theorem of_ascending_lowest (entries : List (κ × ν)) (tree : Tree κ ν) (asMany : tree.toList.length = entries.length) :
    (ofAscending entries).levels ≤ tree.levels := by
  rw [levels_of_ascending, Nat.size_le, ← asMany]
  exact length_lt_two_pow tree

end Tree

namespace OrderedMap

theorem heights_are_logarithmic [Ord κ] [Std.TransOrd κ] [Std.LawfulEqOrd κ] [BEq ν] :
    (∀ (map : OrderedMap κ ν) (table : Table κ ν), Reached map table →
      map.height = map.root.levels ∧ map.size = map.toList.length ∧ Nat.fib (map.height + 2) - 1 ≤ map.size) ∧
    ∀ entries : List (κ × ν), entries.Pairwise (fun before after => compare before.1 after.1 = .lt) →
      ∃ map, ofSorted entries = .ok map ∧ map.toList = entries ∧ map.size = entries.length ∧
        map.height = map.root.levels ∧ map.height = entries.length.size ∧
        ∀ tree : Tree κ ν, tree.toList.length = entries.length → map.height ≤ tree.levels := by
  constructor
  · intro map table reached
    have represents := represents_reached map table reached
    have high : map.height = map.root.levels := Tree.height_eq_levels map.root represents.balanced
    have enough := Tree.fib_levels_le map.root represents.balanced
    refine ⟨high, represents.counted, ?_⟩
    rw [high, represents.counted, toList]
    omega
  · intro entries ascends
    have built := of_sorted_ascending entries ascends
    have high : (ofAscending entries).height = (ofAscending entries).root.levels :=
      Tree.height_eq_levels _ (Tree.of_ascending_balanced entries)
    refine ⟨ofAscending entries, built, to_list_of_ascending entries, rfl, high, ?_, fun tree asMany => ?_⟩
    · exact high.trans (Tree.levels_of_ascending entries)
    · exact high.trans_le (Tree.of_ascending_lowest entries tree asMany)

def twelve : List (Nat × Unit) := (List.range 12).map fun key => (key, ())

-- Put in one after the other they leave a tree of five levels at most; built at once they make one of four.
theorem heights_of_twelve :
    Std.TransOrd Nat ∧ Std.LawfulEqOrd Nat ∧ (ofList twelve).height < 6 ∧
      ∃ map, ofSorted twelve = .ok map ∧ map.height = 4 := by
  obtain ⟨ofReached, ofEntries⟩ := heights_are_logarithmic (κ := Nat) (ν := Unit)
  refine ⟨inferInstance, inferInstance, ?_, ?_⟩
  · have enough : Nat.fib ((ofList twelve).height + 2) - 1 ≤ (ofList twelve).size :=
      (ofReached _ _ (.insertMany _ _ .empty twelve)).2.2
    have held : (ofList twelve).size = 12 := by decide
    have twentyOne : Nat.fib 8 = 21 := by decide
    by_contra high
    have grown : Nat.fib 8 ≤ Nat.fib ((ofList twelve).height + 2) := Nat.fib_mono (by omega)
    omega
  · obtain ⟨map, built, _, _, _, high, _⟩ := ofEntries twelve (by decide)
    exact ⟨map, built, high⟩

end OrderedMap

end ThreeAddress
