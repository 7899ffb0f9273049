import ThreeAddress.OrderedMap.Basic

/-!
Reading a map one entry at a time. The cursor keeps the nodes whose left part is being read, nearest
first, so it holds no more of them than the tree is high.
-/

set_option autoImplicit false

namespace ThreeAddress

-- A node whose left part is being read.
structure Pending (κ ν : Type) where
  key : κ
  value : ν
  right : Tree κ ν

/-- A reading that has begun. It stands for the iteration that borrows the map and for the one that consumes it: both
keep this stack and this count and give the same entries. -/
structure Cursor (κ ν : Type) where
  stack : List (Pending κ ν)
  remaining : Nat

namespace Cursor

variable {κ ν : Type}

def descend : Tree κ ν → List (Pending κ ν) → List (Pending κ ν)
  | .nil, stack => stack
  | .node _ left key value right, stack => descend left (⟨key, value, right⟩ :: stack)

def next? (cursor : Cursor κ ν) : Option ((κ × ν) × Cursor κ ν) :=
  match cursor.stack with
  | [] => none
  | top :: rest => some ((top.key, top.value), ⟨descend top.right rest, cursor.remaining - 1⟩)

def readings : Nat → Cursor κ ν → List (Nat × Option (κ × ν))
  | 0, _ => []
  | count + 1, cursor =>
      match cursor.next? with
      | some (entry, rest) => (cursor.remaining, some entry) :: readings count rest
      | none => (cursor.remaining, none) :: readings count cursor

end Cursor

def OrderedMap.cursor {κ ν : Type} (map : OrderedMap κ ν) : Cursor κ ν :=
  ⟨Cursor.descend map.root [], map.size⟩

end ThreeAddress
