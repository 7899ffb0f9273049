import Mathlib.Data.Nat.Size
import ThreeAddress.OrderedMap.Tree

/-!
Every operation keeps a tree balanced: its cached heights are right, and no child is more than one level higher
than its sibling. An insertion raises a tree by at most one level and a removal lowers it by at most one, so
what the way back up meets is never further apart than one rotation mends. A tree that is built from a list has
as many levels as the number of entries has binary digits.
-/

set_option autoImplicit false

namespace ThreeAddress.Tree

variable {κ ν : Type}

-- The true height, whatever the nodes cache.
def levels : Tree κ ν → Nat
  | nil => 0
  | node _ left _ _ right => 1 + max left.levels right.levels

def Close (a b : Nat) : Prop := a ≤ b + 1 ∧ b ≤ a + 1

def Balanced : Tree κ ν → Prop
  | nil => True
  | node height left _ _ right =>
      height = 1 + max left.levels right.levels ∧ Close left.levels right.levels ∧ left.Balanced ∧ right.Balanced

theorem height_eq_levels (tree : Tree κ ν) (balanced : tree.Balanced) : tree.height = tree.levels := by
  cases tree with
  | nil => rfl
  | node height left key value right => exact balanced.1

def nodes : Tree κ ν → List (Tree κ ν)
  | nil => []
  | node height left key value right => left.nodes ++ node height left key value right :: right.nodes

theorem length_nodes (tree : Tree κ ν) : tree.nodes.length = tree.toList.length := by
  induction tree with
  | nil => rfl
  | node height left key value right leftIh rightIh =>
    simp only [nodes, toList, List.length_append, List.length_cons, leftIh, rightIh]

def Even : Tree κ ν → Prop
  | nil => True
  | node height left _ _ right => height = 1 + max left.levels right.levels ∧ Close left.levels right.levels

theorem balanced_iff_even (tree : Tree κ ν) : tree.Balanced ↔ ∀ part ∈ tree.nodes, part.Even := by
  induction tree with
  | nil => simp [nodes, Balanced]
  | node height left key value right leftIh rightIh =>
    rw [nodes, List.forall_mem_append, List.forall_mem_cons, ← leftIh, ← rightIh, Balanced, Even]
    exact ⟨fun ⟨cached, close, low, high⟩ => ⟨low, ⟨cached, close⟩, high⟩,
      fun ⟨low, ⟨cached, close⟩, high⟩ => ⟨cached, close, low, high⟩⟩

theorem balanced_iff_nodes (tree : Tree κ ν) :
    tree.Balanced ↔ (∀ part ∈ tree.nodes, part.height = part.levels) ∧
      ∀ height left key value right, node height left key value right ∈ tree.nodes →
        Close left.levels right.levels := by
  rw [balanced_iff_even]
  constructor
  · refine fun even => ⟨fun part member => ?_, fun height left key value right member => (even _ member).2⟩
    cases part with
    | nil => rfl
    | node height left key value right => exact (even _ member).1
  · rintro ⟨cached, close⟩ part member
    cases part with
    | nil => trivial
    | node height left key value right => exact ⟨cached _ member, close _ _ _ _ _ member⟩

theorem levels_branch (left right : Tree κ ν) (key : κ) (value : ν) :
    (branch left key value right).levels = 1 + max left.levels right.levels := rfl

theorem balanced_branch (left right : Tree κ ν) (key : κ) (value : ν) (leftBalanced : left.Balanced)
    (rightBalanced : right.Balanced) (leftHigh : left.levels ≤ right.levels + 1)
    (rightHigh : right.levels ≤ left.levels + 1) : (branch left key value right).Balanced := by
  refine ⟨?_, ⟨leftHigh, rightHigh⟩, leftBalanced, rightBalanced⟩
  rw [height_eq_levels left leftBalanced, height_eq_levels right rightBalanced]

-- A tree that was put together from two parts with so many levels: only turning can save the extra level.
structure Restored (tree : Tree κ ν) (left right : Nat) : Prop where
  balanced : tree.Balanced
  atLeast : max left right ≤ tree.levels
  atMost : tree.levels ≤ 1 + max left right
  unturned : left ≤ right + 1 → right ≤ left + 1 → tree.levels = 1 + max left right

theorem branch_restores (left right : Tree κ ν) (key : κ) (value : ν) (leftBalanced : left.Balanced)
    (rightBalanced : right.Balanced) (leftHigh : left.levels ≤ right.levels + 1)
    (rightHigh : right.levels ≤ left.levels + 1) :
    Restored (branch left key value right) left.levels right.levels where
  balanced := balanced_branch left right key value leftBalanced rightBalanced leftHigh rightHigh
  atLeast := by rw [levels_branch]; omega
  atMost := Nat.le_of_eq (levels_branch left right key value)
  unturned _ _ := levels_branch left right key value

theorem turn_right_restores (left right : Tree κ ν) (key : κ) (value : ν) (leftBalanced : left.Balanced)
    (rightBalanced : right.Balanced) (heavy : left.levels = right.levels + 2) :
    Restored (rotateRight (branch (if left.balance < 0 then left.rotateLeft else left) key value right))
      left.levels right.levels := by
  cases left with
  | nil => simp [levels] at heavy
  | node height a low lowValue b =>
    obtain ⟨_, close, aBalanced, bBalanced⟩ := leftBalanced
    have aHeight := height_eq_levels a aBalanced
    have bHeight := height_eq_levels b bBalanced
    simp only [Close, levels] at close heavy ⊢
    by_cases inward : a.levels < b.levels
    · -- The child leans inward, so its own right child becomes the root.
      rw [if_pos (by simp only [balance]; omega)]
      cases b with
      | nil => simp [levels] at inward
      | node innerHeight c inner innerValue d =>
        obtain ⟨_, innerClose, cBalanced, dBalanced⟩ := bBalanced
        simp only [Close, levels] at innerClose inward close heavy ⊢
        have leftPart := balanced_branch a c low lowValue aBalanced cBalanced (by omega) (by omega)
        have rightPart := balanced_branch d right key value dBalanced rightBalanced (by omega) (by omega)
        have whole := balanced_branch _ _ inner innerValue leftPart rightPart
          (by simp only [levels_branch]; omega) (by simp only [levels_branch]; omega)
        refine ⟨whole, ?_, ?_, ?_⟩ <;> simp only [rotateLeft, rotateRight, branch, levels] <;> omega
    · rw [if_neg (by simp only [balance]; omega)]
      have rightPart := balanced_branch b right key value bBalanced rightBalanced (by omega) (by omega)
      have whole := balanced_branch a _ low lowValue aBalanced rightPart
        (by simp only [levels_branch]; omega) (by simp only [levels_branch]; omega)
      refine ⟨whole, ?_, ?_, ?_⟩ <;> simp only [rotateRight, branch, levels] <;> omega

theorem turn_left_restores (left right : Tree κ ν) (key : κ) (value : ν) (leftBalanced : left.Balanced)
    (rightBalanced : right.Balanced) (heavy : right.levels = left.levels + 2) :
    Restored (rotateLeft (branch left key value (if 0 < right.balance then right.rotateRight else right)))
      left.levels right.levels := by
  cases right with
  | nil => simp [levels] at heavy
  | node height a high highValue b =>
    obtain ⟨_, close, aBalanced, bBalanced⟩ := rightBalanced
    have aHeight := height_eq_levels a aBalanced
    have bHeight := height_eq_levels b bBalanced
    simp only [Close, levels] at close heavy ⊢
    by_cases inward : b.levels < a.levels
    · rw [if_pos (by simp only [balance]; omega)]
      cases a with
      | nil => simp [levels] at inward
      | node innerHeight c inner innerValue d =>
        obtain ⟨_, innerClose, cBalanced, dBalanced⟩ := aBalanced
        simp only [Close, levels] at innerClose inward close heavy ⊢
        have leftPart := balanced_branch left c key value leftBalanced cBalanced (by omega) (by omega)
        have rightPart := balanced_branch d b high highValue dBalanced bBalanced (by omega) (by omega)
        have whole := balanced_branch _ _ inner innerValue leftPart rightPart
          (by simp only [levels_branch]; omega) (by simp only [levels_branch]; omega)
        refine ⟨whole, ?_, ?_, ?_⟩ <;> simp only [rotateLeft, rotateRight, branch, levels] <;> omega
    · rw [if_neg (by simp only [balance]; omega)]
      have leftPart := balanced_branch left a key value leftBalanced aBalanced (by omega) (by omega)
      have whole := balanced_branch _ b high highValue leftPart bBalanced
        (by simp only [levels_branch]; omega) (by simp only [levels_branch]; omega)
      refine ⟨whole, ?_, ?_, ?_⟩ <;> simp only [rotateLeft, branch, levels] <;> omega

theorem rebalance_restores (left right : Tree κ ν) (key : κ) (value : ν) (leftBalanced : left.Balanced)
    (rightBalanced : right.Balanced) (leftHigh : left.levels ≤ right.levels + 2)
    (rightHigh : right.levels ≤ left.levels + 2) :
    Restored (rebalance left key value right) left.levels right.levels := by
  rw [rebalance, height_eq_levels left leftBalanced, height_eq_levels right rightBalanced]
  split
  · exact turn_right_restores left right key value leftBalanced rightBalanced (by omega)
  · split
    · exact turn_left_restores left right key value leftBalanced rightBalanced (by omega)
    · exact branch_restores left right key value leftBalanced rightBalanced (by omega) (by omega)

theorem take_min_balanced (left right : Tree κ ν) (key : κ) (value : ν) (leftBalanced : left.Balanced)
    (rightBalanced : right.Balanced) (close : Close left.levels right.levels) :
    (takeMin left key value right).2.Balanced ∧
      max left.levels right.levels ≤ (takeMin left key value right).2.levels ∧
      (takeMin left key value right).2.levels ≤ 1 + max left.levels right.levels := by
  induction left generalizing key value right with
  | nil =>
    simp only [Close, levels, takeMin] at close ⊢
    exact ⟨rightBalanced, by omega, by omega⟩
  | node height a low lowValue b ih =>
    obtain ⟨_, inside, aBalanced, bBalanced⟩ := leftBalanced
    obtain ⟨restBalanced, atLeast, atMost⟩ := ih b low lowValue aBalanced bBalanced inside
    simp only [Close, levels, takeMin] at close ⊢
    obtain ⟨whole, low, high, unturned⟩ :=
      rebalance_restores _ right key value restBalanced rightBalanced (by omega) (by omega)
    exact ⟨whole, by omega, by omega⟩

theorem join_balanced (left right : Tree κ ν) (leftBalanced : left.Balanced) (rightBalanced : right.Balanced)
    (close : Close left.levels right.levels) :
    (join left right).Balanced ∧ max left.levels right.levels ≤ (join left right).levels ∧
      (join left right).levels ≤ 1 + max left.levels right.levels := by
  cases left with
  | nil => simp [join, rightBalanced, levels]
  | node height a low lowValue b =>
    cases right with
    | nil => simp [join, leftBalanced, levels]
    | node otherHeight inner key value c =>
      obtain ⟨_, inside, innerBalanced, cBalanced⟩ := rightBalanced
      obtain ⟨restBalanced, atLeast, atMost⟩ := take_min_balanced inner c key value innerBalanced cBalanced inside
      simp only [join]
      generalize takeMin inner key value c = taken at restBalanced atLeast atMost
      obtain ⟨⟨next, nextValue⟩, rest⟩ := taken
      generalize node height a low lowValue b = left at leftBalanced close ⊢
      simp only [Close, levels] at close restBalanced atLeast atMost ⊢
      obtain ⟨whole, low, high, unturned⟩ :=
        rebalance_restores left rest next nextValue leftBalanced restBalanced (by omega) (by omega)
      exact ⟨whole, by omega, by omega⟩

section Search

variable [Ord κ]

theorem insert_balanced (tree : Tree κ ν) (balanced : tree.Balanced) (key : κ) (value : ν) :
    (tree.insert key value).1.Balanced ∧ tree.levels ≤ (tree.insert key value).1.levels ∧
      (tree.insert key value).1.levels ≤ tree.levels + 1 := by
  induction tree with
  | nil => simp [insert, branch, Balanced, levels, height, Close]
  | node height left middle held right leftIh rightIh =>
    obtain ⟨cached, close, leftBalanced, rightBalanced⟩ := balanced
    cases order : compare key middle with
    | eq =>
      simp only [insert, order, levels]
      exact ⟨⟨cached, close, leftBalanced, rightBalanced⟩, by omega, by omega⟩
    | lt =>
      obtain ⟨childBalanced, atLeast, atMost⟩ := leftIh leftBalanced
      simp only [Close, insert, order, levels] at close ⊢
      obtain ⟨whole, low, high, unturned⟩ :=
        rebalance_restores _ right middle held childBalanced rightBalanced (by omega) (by omega)
      exact ⟨whole, by omega, by omega⟩
    | gt =>
      obtain ⟨childBalanced, atLeast, atMost⟩ := rightIh rightBalanced
      simp only [Close, insert, order, levels] at close ⊢
      obtain ⟨whole, low, high, unturned⟩ :=
        rebalance_restores left _ middle held leftBalanced childBalanced (by omega) (by omega)
      exact ⟨whole, by omega, by omega⟩

theorem erase_balanced (tree : Tree κ ν) (balanced : tree.Balanced) (key : κ) :
    (tree.erase key).1.Balanced ∧ tree.levels ≤ (tree.erase key).1.levels + 1 ∧
      (tree.erase key).1.levels ≤ tree.levels := by
  induction tree with
  | nil => simp [erase, Balanced, levels]
  | node height left middle held right leftIh rightIh =>
    obtain ⟨cached, close, leftBalanced, rightBalanced⟩ := balanced
    cases order : compare key middle with
    | eq =>
      obtain ⟨whole, low, high⟩ := join_balanced left right leftBalanced rightBalanced close
      simp only [erase, order, levels]
      exact ⟨whole, by omega, by omega⟩
    | lt =>
      obtain ⟨childBalanced, atLeast, atMost⟩ := leftIh leftBalanced
      simp only [Close, erase, order, levels] at close ⊢
      obtain ⟨whole, low, high, unturned⟩ :=
        rebalance_restores _ right middle held childBalanced rightBalanced (by omega) (by omega)
      exact ⟨whole, by omega, by omega⟩
    | gt =>
      obtain ⟨childBalanced, atLeast, atMost⟩ := rightIh rightBalanced
      simp only [Close, erase, order, levels] at close ⊢
      obtain ⟨whole, low, high, unturned⟩ :=
        rebalance_restores left _ middle held leftBalanced childBalanced (by omega) (by omega)
      exact ⟨whole, by omega, by omega⟩

end Search

theorem size_succ (count : Nat) : (count + 1).size = ((count + 1) / 2).size + 1 := by
  conv => lhs; rw [← Nat.bit_bodd_div2 (count + 1)]
  rw [Nat.size_bit]
  · rw [Nat.div2_val]
  · rw [Nat.bit_bodd_div2]
    exact Nat.succ_ne_zero count

theorem size_le_succ (small large : Nat) (near : large ≤ small + 1) : large.size ≤ small.size + 1 := by
  have below : small < 2 ^ small.size := Nat.lt_size_self small
  rw [Nat.size_le, Nat.pow_succ]
  omega

-- Each half has as many levels as its size has digits, and these numbers differ by at most one.
theorem build_within_balanced (depth size : Nat) (entries : List (κ × ν)) (deep : size ≤ depth)
    (enough : size ≤ entries.length) :
    (buildWithin depth size entries).1.Balanced ∧ (buildWithin depth size entries).1.levels = size.size := by
  induction depth generalizing size entries with
  | zero =>
    obtain rfl : size = 0 := by omega
    simp [buildWithin, Balanced, levels]
  | succ depth ih =>
    cases size with
    | zero => simp [buildWithin, Balanced, levels]
    | succ size =>
      obtain ⟨leftBalanced, leftLevels⟩ := ih ((size + 1) / 2) entries (by omega) (by omega)
      have leftRest := (build_within_eq depth ((size + 1) / 2) entries (by omega) (by omega)).2
      have left := List.length_drop (i := (size + 1) / 2) (l := entries)
      rw [buildWithin]
      generalize buildWithin depth ((size + 1) / 2) entries = built at leftBalanced leftLevels leftRest
      obtain ⟨low, rest⟩ := built
      dsimp only at leftBalanced leftLevels leftRest
      subst leftRest
      cases parts : entries.drop ((size + 1) / 2) with
      | nil => simp [parts] at left; omega
      | cons entry others =>
        rw [parts, List.length_cons] at left
        obtain ⟨rightBalanced, rightLevels⟩ := ih (size - (size + 1) / 2) others (by omega) (by omega)
        have digits := size_succ size
        have leftMost := size_le_succ (size - (size + 1) / 2) ((size + 1) / 2) (by omega)
        have rightMost := Nat.size_le_size (m := size - (size + 1) / 2) (n := (size + 1) / 2) (by omega)
        refine ⟨balanced_branch _ _ _ _ leftBalanced rightBalanced (by omega) (by omega), ?_⟩
        rw [levels_branch]
        omega

theorem of_ascending_balanced (entries : List (κ × ν)) : (ofAscending entries).Balanced :=
  (build_within_balanced entries.length entries.length entries (Nat.le_refl _) (Nat.le_refl _)).1

end ThreeAddress.Tree
