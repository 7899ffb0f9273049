import ThreeAddress.OrderedMap.Basic

/-!
Set algebra on maps. Both operands are read as ascending lists and merged in one pass, and the
result is built into a tree at once. Each operation also tells whether the left operand changed.
-/

set_option autoImplicit false

namespace ThreeAddress.OrderedMap

variable {κ ν : Type} [Ord κ]

def below (bound : κ) (entry : κ × ν) : Bool := compare entry.1 bound == .lt

def skip (key : κ) : List (κ × ν) → List (κ × ν)
  | [] => []
  | entry :: rest => if compare entry.1 key == .eq then rest else entry :: rest

-- Every key of either list, with the left value where both have one, and whether the right list brought a new key.
def unionEntries : List (κ × ν) → List (κ × ν) → List (κ × ν) × Bool
  | [], others => (others, !others.isEmpty)
  | entry :: rest, others =>
      let fresh := others.takeWhile (below entry.1)
      let (merged, grew) := unionEntries rest (skip entry.1 (others.dropWhile (below entry.1)))
      (fresh ++ entry :: merged, grew || !fresh.isEmpty)

def interEntries : List (κ × ν) → List (κ × ν) → List (κ × ν) × Bool
  | [], _ => ([], false)
  | entry :: rest, others =>
      match others.dropWhile (below entry.1) with
      | [] => ([], true)
      | other :: remaining =>
          if compare other.1 entry.1 == .eq then
            let (kept, lost) := interEntries rest remaining
            (entry :: kept, lost)
          else ((interEntries rest (other :: remaining)).1, true)

def union (map other : OrderedMap κ ν) : OrderedMap κ ν × Bool :=
  let (entries, grew) := unionEntries map.toList other.toList
  (ofAscending entries, grew)

def inter (map other : OrderedMap κ ν) : OrderedMap κ ν × Bool :=
  let (entries, lost) := interEntries map.toList other.toList
  (ofAscending entries, lost)

def agreeing [BEq ν] (map other : OrderedMap κ ν) : OrderedMap κ ν × Bool :=
  let kept := map.toList.filter fun entry => other.get? entry.1 == some entry.2
  (ofAscending kept, kept.length != map.size)

end ThreeAddress.OrderedMap
