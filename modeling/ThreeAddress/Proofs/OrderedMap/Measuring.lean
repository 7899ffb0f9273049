import ThreeAddress.Proofs.OrderedMap.Balance
import ThreeAddress.Proofs.OrderedMap.Maps

/-!
The check of a map looks at each node once and compares its key with at most two others, the nearest on either side of
the way down. Handed on to the children, these two bounds are enough: a tree passes exactly if its entries ascend and it
is balanced, and then its levels and its entries are counted right. So a map passes, whatever was done to it, exactly if
its keys ascend, each node is right about its height and about those of its children, and the nodes are counted right.
-/

set_option autoImplicit false

namespace ThreeAddress

variable {κ ν : Type} [Ord κ]

def Between (lower upper : Option κ) (key : κ) : Prop :=
  (∀ bound ∈ lower, compare bound key = .lt) ∧ ∀ bound ∈ upper, compare key bound = .lt

namespace Tree

variable [Std.TransOrd κ]

theorem between_iff (lower upper : Option κ) (key : κ) :
    (lower.any (fun bound => (compare key bound).isLE) || upper.any fun bound => (compare key bound).isGE) = false ↔
      Between lower upper key := by
  have above (bound : κ) : (compare key bound).isLE = false ↔ compare bound key = .lt := by
    have swapped : compare bound key = (compare key bound).swap := Std.OrientedCmp.eq_swap
    rw [swapped]
    cases compare key bound <;> decide
  have below (bound : κ) : (compare key bound).isGE = false ↔ compare key bound = .lt := by
    cases compare key bound <;> decide
  cases lower <;> cases upper <;> simp [Between, above, below]

theorem between_branch (lower upper : Option κ) (left right : List (κ × ν)) (middle : κ × ν) :
    Ascending (left ++ middle :: right) ∧ (∀ entry ∈ left ++ middle :: right, Between lower upper entry.1) ↔
      Between lower upper middle.1 ∧ (Ascending left ∧ ∀ entry ∈ left, Between lower (some middle.1) entry.1) ∧
        Ascending right ∧ ∀ entry ∈ right, Between (some middle.1) upper entry.1 := by
  simp only [ascending_append, List.forall_mem_append, List.forall_mem_cons]
  constructor
  · rintro ⟨⟨leftAscends, rightAscends, before, after⟩, leftWithin, here, rightWithin⟩
    refine ⟨here, ⟨leftAscends, fun entry member => ⟨(leftWithin entry member).1, ?_⟩⟩, rightAscends,
      fun entry member => ⟨?_, (rightWithin entry member).2⟩⟩
    · rintro _ ⟨⟩
      exact before entry member
    · rintro _ ⟨⟩
      exact after entry member
  · rintro ⟨here, ⟨leftAscends, leftWithin⟩, rightAscends, rightWithin⟩
    have before (entry : κ × ν) (member : entry ∈ left) := (leftWithin entry member).2 middle.1 rfl
    have after (entry : κ × ν) (member : entry ∈ right) := (rightWithin entry member).1 middle.1 rfl
    refine ⟨⟨leftAscends, rightAscends, before, after⟩, fun entry member => ⟨(leftWithin entry member).1, ?_⟩, here,
      fun entry member => ⟨?_, (rightWithin entry member).2⟩⟩
    · exact fun bound given => Std.TransCmp.lt_trans (before entry member) (here.2 bound given)
    · exact fun bound given => Std.TransCmp.lt_trans (here.1 bound given) (after entry member)

theorem measure_node (height : Nat) (left right : Tree κ ν) (key : κ) (value : ν) (lower upper : Option κ)
    (levels count : Nat) : (node height left key value right).measure? lower upper = some (levels, count) ↔
      Between lower upper key ∧ ∃ leftLevels leftCount rightLevels rightCount,
        left.measure? lower (some key) = some (leftLevels, leftCount) ∧
        right.measure? (some key) upper = some (rightLevels, rightCount) ∧
        height = 1 + max leftLevels rightLevels ∧ Close leftLevels rightLevels ∧
        levels = height ∧ count = leftCount + rightCount + 1 := by
  rw [measure?, ← between_iff]
  cases lower.any (fun bound => (compare key bound).isLE) || upper.any fun bound => (compare key bound).isGE with
  | true => simp
  | false =>
    cases left.measure? lower (some key) with
    | none => simp
    | some leftFound =>
      cases right.measure? (some key) upper with
      | none => simp
      | some rightFound =>
        obtain ⟨leftLevels, leftCount⟩ := leftFound
        obtain ⟨rightLevels, rightCount⟩ := rightFound
        simp only [Bool.false_eq_true, if_false, true_and, Option.some.injEq, Prod.mk.injEq, Close]
        split
        · refine iff_of_false (Option.some_ne_none _).symm ?_
          rintro ⟨_, _, _, _, ⟨rfl, rfl⟩, ⟨rfl, rfl⟩, cached, close, _⟩
          omega
        · rw [Option.some.injEq, Prod.mk.injEq]
          constructor
          · rintro ⟨rfl, rfl⟩
            exact ⟨_, _, _, _, ⟨rfl, rfl⟩, ⟨rfl, rfl⟩, by omega, by omega, by omega, rfl⟩
          · rintro ⟨_, _, _, _, ⟨rfl, rfl⟩, ⟨rfl, rfl⟩, cached, _, high, counted⟩
            omega

theorem measure_iff (tree : Tree κ ν) (lower upper : Option κ) (levels count : Nat) :
    tree.measure? lower upper = some (levels, count) ↔
      (Ascending tree.toList ∧ ∀ entry ∈ tree.toList, Between lower upper entry.1) ∧ tree.Balanced ∧
        levels = tree.levels ∧ count = tree.toList.length := by
  induction tree generalizing lower upper levels count with
  | nil => simp [measure?, Ascending, toList, Balanced, Tree.levels, eq_comm]
  | node height left key value right leftIh rightIh =>
    rw [measure_node, toList, between_branch, Balanced, Tree.levels, List.length_append, List.length_cons]
    simp only [leftIh, rightIh]
    constructor
    · rintro ⟨here, _, _, _, _, ⟨leftIn, leftBalanced, rfl, rfl⟩, ⟨rightIn, rightBalanced, rfl, rfl⟩, cached, close,
        rfl, rfl⟩
      exact ⟨⟨here, leftIn, rightIn⟩, ⟨cached, close, leftBalanced, rightBalanced⟩, cached, by omega⟩
    · rintro ⟨⟨here, leftIn, rightIn⟩, ⟨cached, close, leftBalanced, rightBalanced⟩, high, counted⟩
      exact ⟨here, _, _, _, _, ⟨leftIn, leftBalanced, rfl, rfl⟩, ⟨rightIn, rightBalanced, rfl, rfl⟩, cached, close,
        high.trans cached.symm, by omega⟩

end Tree

namespace OrderedMap

theorem well_formed_iff [Std.TransOrd κ] (map : OrderedMap κ ν) :
    map.wellFormed = true ↔ Ascending map.toList ∧ map.root.Balanced ∧ map.size = map.toList.length := by
  have measured (levels count : Nat) : map.root.measure? none none = some (levels, count) ↔
      Ascending map.toList ∧ map.root.Balanced ∧ levels = map.root.levels ∧ count = map.toList.length := by
    rw [map.root.measure_iff, and_iff_left fun entry _ => ⟨nofun, nofun⟩, toList]
  rw [wellFormed]
  cases found : map.root.measure? none none with
  | none =>
    refine iff_of_false Bool.noConfusion fun ⟨ascends, balanced, _⟩ => ?_
    rw [(measured _ _).mpr ⟨ascends, balanced, rfl, rfl⟩] at found
    cases found
  | some result =>
    obtain ⟨levels, count⟩ := result
    obtain ⟨ascends, balanced, _, counted⟩ := (measured levels count).mp found
    dsimp only
    rw [beq_iff_eq, counted]
    exact ⟨fun same => ⟨ascends, balanced, same.symm⟩, fun holds => holds.2.2.symm⟩

theorem check_is_exact [Std.TransOrd κ] (map : OrderedMap κ ν) :
    map.wellFormed = true ↔
      map.keys.Pairwise (fun before after => compare before after = .lt) ∧
      (∀ part ∈ map.root.nodes, part.height = part.levels) ∧
      (∀ height left key value right, Tree.node height left key value right ∈ map.root.nodes →
        left.levels ≤ right.levels + 1 ∧ right.levels ≤ left.levels + 1) ∧
      map.size = map.root.nodes.length := by
  have ascends : map.keys.Pairwise (fun before after => compare before after = .lt) ↔ Ascending map.toList :=
    List.pairwise_map
  rw [well_formed_iff, ascends, Tree.balanced_iff_nodes, Tree.length_nodes, and_assoc]
  rfl

-- Each child is on the right side of its parent, but 7 lies below 5 on the left.
def strayed : OrderedMap Nat Unit :=
  ⟨.node 3 (.node 2 .nil 3 () (.node 1 .nil 7 () .nil)) 5 () (.node 1 .nil 9 () .nil), 4⟩

theorem check_finds_strayed :
    Std.TransOrd Nat ∧ strayed.wellFormed = false ∧ strayed.size = strayed.root.nodes.length ∧
      ∀ part ∈ strayed.root.nodes, part.height = part.levels := by
  have disordered : ¬ strayed.keys.Pairwise (fun before after => compare before after = .lt) := by decide
  have fails : ¬ strayed.wellFormed = true := fun passes => disordered ((check_is_exact strayed).mp passes).1
  exact ⟨inferInstance, Bool.eq_false_iff.mpr fails, by decide, by decide⟩

end OrderedMap

end ThreeAddress
