/-!
Height-balanced search trees. Every node caches its height; inserting and removing rebalance on the
way up with single and double rotations, and a sorted list is built into a tree in linear time.
Rotations, rebalancing and joining keep the entries and their order.
-/

set_option autoImplicit false

namespace ThreeAddress

inductive Tree (κ ν : Type) where
  | nil
  | node (height : Nat) (left : Tree κ ν) (key : κ) (value : ν) (right : Tree κ ν)
deriving DecidableEq, Repr

namespace Tree

variable {κ ν : Type}

-- The cached height; a node without children has height 1.
def height : Tree κ ν → Nat
  | nil => 0
  | node height .. => height

def branch (left : Tree κ ν) (key : κ) (value : ν) (right : Tree κ ν) : Tree κ ν :=
  node (1 + max left.height right.height) left key value right

def toList : Tree κ ν → List (κ × ν)
  | nil => []
  | node _ left key value right => left.toList ++ (key, value) :: right.toList

def balance : Tree κ ν → Int
  | nil => 0
  | node _ left _ _ right => left.height - right.height

def rotateRight : Tree κ ν → Tree κ ν
  | node _ (node _ a low lowValue b) key value c => branch a low lowValue (branch b key value c)
  | tree => tree

def rotateLeft : Tree κ ν → Tree κ ν
  | node _ a key value (node _ b high highValue c) => branch (branch a key value b) high highValue c
  | tree => tree

-- Join two balanced trees whose heights differ by at most two. A child that leans inward is straightened before the
-- node turns.
def rebalance (left : Tree κ ν) (key : κ) (value : ν) (right : Tree κ ν) : Tree κ ν :=
  if right.height + 1 < left.height then
    let straight := if left.balance < 0 then left.rotateLeft else left
    rotateRight (branch straight key value right)
  else if left.height + 1 < right.height then
    let straight := if 0 < right.balance then right.rotateRight else right
    rotateLeft (branch left key value straight)
  else branch left key value right

theorem to_list_branch (left right : Tree κ ν) (key : κ) (value : ν) :
    (branch left key value right).toList = left.toList ++ (key, value) :: right.toList := rfl

theorem to_list_rotate_right (tree : Tree κ ν) : tree.rotateRight.toList = tree.toList := by
  cases tree with
  | nil => rfl
  | node height left key value right =>
    cases left with
    | nil => rfl
    | node => simp [rotateRight, branch, toList]

theorem to_list_rotate_left (tree : Tree κ ν) : tree.rotateLeft.toList = tree.toList := by
  cases tree with
  | nil => rfl
  | node height left key value right =>
    cases right with
    | nil => rfl
    | node => simp [rotateLeft, branch, toList]

theorem to_list_rebalance (left right : Tree κ ν) (key : κ) (value : ν) :
    (rebalance left key value right).toList = left.toList ++ (key, value) :: right.toList := by
  simp only [rebalance]
  split
  · split <;> simp [to_list_rotate_right, to_list_rotate_left, to_list_branch]
  · split
    · split <;> simp [to_list_rotate_right, to_list_rotate_left, to_list_branch]
    · rfl

def takeMin : Tree κ ν → κ → ν → Tree κ ν → (κ × ν) × Tree κ ν
  | nil, key, value, right => ((key, value), right)
  | node _ left low lowValue inner, key, value, right =>
      let (least, rest) := takeMin left low lowValue inner
      (least, rebalance rest key value right)

theorem to_list_take_min (left right : Tree κ ν) (key : κ) (value : ν) :
    (takeMin left key value right).1 :: (takeMin left key value right).2.toList =
      left.toList ++ (key, value) :: right.toList := by
  induction left generalizing key value right with
  | nil => rfl
  | node height left low lowValue inner ih =>
    have inside := ih inner low lowValue
    simp only [takeMin, to_list_rebalance, toList, ← inside, List.cons_append]

-- Close the gap that a removed node leaves: its successor takes the place.
def join : Tree κ ν → Tree κ ν → Tree κ ν
  | nil, right => right
  | left, nil => left
  | left, node _ inner key value right =>
      let ((next, nextValue), rest) := takeMin inner key value right
      rebalance left next nextValue rest

theorem to_list_join (left right : Tree κ ν) : (join left right).toList = left.toList ++ right.toList := by
  cases left with
  | nil => cases right <;> rfl
  | node height a low lowValue b =>
    cases right with
    | nil => simp [join, toList]
    | node height inner key value c =>
      have whole := to_list_take_min inner c key value
      simp only [join, to_list_rebalance]
      rw [show (node height inner key value c).toList = _ from whole.symm]

section Search

variable [Ord κ]

def get? (query : κ) : Tree κ ν → Option ν
  | nil => none
  | node _ left key value right =>
      match compare query key with
      | .eq => some value
      | .lt => left.get? query
      | .gt => right.get? query

def insert (fresh : κ) (content : ν) : Tree κ ν → Tree κ ν × Option ν
  | nil => (branch nil fresh content nil, none)
  | node height left key value right =>
      match compare fresh key with
      | .eq => (node height left key content right, some value)
      | .lt =>
          let (child, old) := left.insert fresh content
          (rebalance child key value right, old)
      | .gt =>
          let (child, old) := right.insert fresh content
          (rebalance left key value child, old)

def erase (query : κ) : Tree κ ν → Tree κ ν × Option ν
  | nil => (nil, none)
  | node _ left key value right =>
      match compare query key with
      | .eq => (join left right, some value)
      | .lt =>
          let (child, old) := left.erase query
          (rebalance child key value right, old)
      | .gt =>
          let (child, old) := right.erase query
          (rebalance left key value child, old)

-- Read a tree once, checking that its keys lie strictly between the bounds and ascend, that its cached heights are
-- right and that siblings differ by at most one in height: its height and number of entries, or nothing.
def measure? (lower upper : Option κ) : Tree κ ν → Option (Nat × Nat)
  | nil => some (0, 0)
  | node height left key _ right =>
      if lower.any (fun bound => (compare key bound).isLE)
          || upper.any (fun bound => (compare key bound).isGE) then none
      else
        match left.measure? lower (some key), right.measure? (some key) upper with
        | some (leftHeight, leftCount), some (rightHeight, rightCount) =>
            let actual := 1 + max leftHeight rightHeight
            if actual ≠ height ∨ leftHeight + 1 < rightHeight ∨ rightHeight + 1 < leftHeight then none
            else some (actual, leftCount + rightCount + 1)
        | _, _ => none

end Search

-- Take `size` entries off the front of the list and arrange them as evenly as can be; the first argument bounds the
-- depth and is large enough when it is at least `size`.
def buildWithin : Nat → Nat → List (κ × ν) → Tree κ ν × List (κ × ν)
  | _, 0, entries => (nil, entries)
  | 0, _, entries => (nil, entries)
  | depth + 1, size + 1, entries =>
      match buildWithin depth ((size + 1) / 2) entries with
      | (left, []) => (left, [])
      | (left, (key, value) :: rest) =>
          let (right, rest) := buildWithin depth (size - (size + 1) / 2) rest
          (branch left key value right, rest)

def ofAscending (entries : List (κ × ν)) : Tree κ ν :=
  (buildWithin entries.length entries.length entries).1

theorem take_half (size : Nat) (entries : List (κ × ν)) (enough : size + 1 ≤ entries.length) :
    ∃ front entry rest, entries = front ++ entry :: rest ∧ front.length = (size + 1) / 2 ∧
      size - (size + 1) / 2 ≤ rest.length := by
  have inside : (size + 1) / 2 < entries.length := by omega
  refine ⟨entries.take ((size + 1) / 2), entries[(size + 1) / 2], entries.drop ((size + 1) / 2 + 1), ?_, ?_, ?_⟩
  · rw [← List.drop_eq_getElem_cons inside, List.take_append_drop]
  · rw [List.length_take]
    omega
  · rw [List.length_drop]
    omega

theorem build_within_eq (depth size : Nat) (entries : List (κ × ν)) (deep : size ≤ depth)
    (enough : size ≤ entries.length) :
    (buildWithin depth size entries).1.toList = entries.take size ∧
      (buildWithin depth size entries).2 = entries.drop size := by
  induction depth generalizing size entries with
  | zero =>
    obtain rfl : size = 0 := by omega
    simp [buildWithin, toList]
  | succ depth ih =>
    cases size with
    | zero => simp [buildWithin, toList]
    | succ size =>
      obtain ⟨front, ⟨key, value⟩, rest, rfl, half, room⟩ := take_half size entries enough
      obtain ⟨leftList, leftRest⟩ := ih ((size + 1) / 2) (front ++ (key, value) :: rest) (by omega) (by omega)
      obtain ⟨rightList, rightRest⟩ := ih (size - (size + 1) / 2) rest (by omega) room
      rw [← half, List.take_left, half] at leftList
      rw [← half, List.drop_left, half] at leftRest
      have whole : size + 1 = front.length + (size - (size + 1) / 2 + 1) := by omega
      generalize leftEq : buildWithin depth ((size + 1) / 2) (front ++ (key, value) :: rest) = built at leftList leftRest
      obtain ⟨left, remaining⟩ := built
      simp only at leftList leftRest
      subst leftRest
      simp only [buildWithin, leftEq, to_list_branch, leftList, rightList, rightRest]
      generalize size - (size + 1) / 2 = later at whole ⊢
      rw [whole, List.take_length_add_append, List.take_succ_cons, List.drop_length_add_append, List.drop_succ_cons]
      exact ⟨rfl, rfl⟩

theorem to_list_of_ascending (entries : List (κ × ν)) : (ofAscending entries).toList = entries := by
  have built := (build_within_eq entries.length entries.length entries (Nat.le_refl _) (Nat.le_refl _)).1
  simpa [ofAscending] using built

end Tree

end ThreeAddress
