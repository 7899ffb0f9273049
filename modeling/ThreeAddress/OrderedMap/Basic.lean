import ThreeAddress.Fault
import ThreeAddress.OrderedMap.Tree

/-!
Maps whose entries are read in key order. A map is a balanced tree with its number of entries; the
list of entries is what it means.
-/

set_option autoImplicit false

namespace ThreeAddress

structure OrderedMap (κ ν : Type) where
  root : Tree κ ν
  size : Nat
deriving Repr

namespace OrderedMap

variable {κ ν : Type}

def empty : OrderedMap κ ν := ⟨.nil, 0⟩

instance : Inhabited (OrderedMap κ ν) := ⟨empty⟩

def isEmpty (map : OrderedMap κ ν) : Bool := map.size = 0

def height (map : OrderedMap κ ν) : Nat := map.root.height

def toList (map : OrderedMap κ ν) : List (κ × ν) := map.root.toList

def keys (map : OrderedMap κ ν) : List κ := map.toList.map Prod.fst

def values (map : OrderedMap κ ν) : List ν := map.toList.map Prod.snd

-- The shape of the tree does not matter: maps are equal when their entries are.
def sameEntries [BEq κ] [BEq ν] (a b : OrderedMap κ ν) : Bool :=
  a.size == b.size && (a.toList.zip b.toList).all fun (x, y) => x.1 == y.1 && x.2 == y.2

instance [BEq κ] [BEq ν] : BEq (OrderedMap κ ν) := ⟨sameEntries⟩

def ofAscending (entries : List (κ × ν)) : OrderedMap κ ν := ⟨.ofAscending entries, entries.length⟩

theorem to_list_of_ascending (entries : List (κ × ν)) : (ofAscending entries).toList = entries :=
  Tree.to_list_of_ascending entries

section Search

variable [Ord κ]

def get? (map : OrderedMap κ ν) (key : κ) : Option ν := map.root.get? key

def contains (map : OrderedMap κ ν) (key : κ) : Bool := (map.get? key).isSome

def insert (map : OrderedMap κ ν) (key : κ) (value : ν) : OrderedMap κ ν × Option ν :=
  let (root, old) := map.root.insert key value
  (⟨root, if old.isNone then map.size + 1 else map.size⟩, old)

def erase (map : OrderedMap κ ν) (key : κ) : OrderedMap κ ν × Option ν :=
  let (root, old) := map.root.erase key
  (⟨root, if old.isSome then map.size - 1 else map.size⟩, old)

def set (map : OrderedMap κ ν) (key : κ) : Option ν → OrderedMap κ ν × Option ν
  | some value => map.insert key value
  | none => map.erase key

def insertMany (map : OrderedMap κ ν) (entries : List (κ × ν)) : OrderedMap κ ν :=
  entries.foldl (fun map entry => (map.insert entry.1 entry.2).1) map

def ofList (entries : List (κ × ν)) : OrderedMap κ ν := empty.insertMany entries

def ascending : List (κ × ν) → Bool
  | first :: second :: rest =>
      compare first.1 second.1 == .lt && ascending (second :: rest)
  | _ => true

def ofSorted (entries : List (κ × ν)) : Except Fault (OrderedMap κ ν) :=
  if ascending entries then .ok (ofAscending entries) else .error .notAscending

def wellFormed (map : OrderedMap κ ν) : Bool :=
  match map.root.measure? none none with
  | some (_, count) => count == map.size
  | none => false

end Search

end OrderedMap

end ThreeAddress
