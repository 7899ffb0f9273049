import ThreeAddress.OrderedMap.Merge

/-!
Sets whose elements are read in order: maps that bind each element to nothing.
-/

set_option autoImplicit false

namespace ThreeAddress

structure OrderedSet (κ : Type) where
  map : OrderedMap κ Unit
deriving Repr

namespace OrderedSet

variable {κ : Type}

def empty : OrderedSet κ := ⟨.empty⟩

instance : Inhabited (OrderedSet κ) := ⟨empty⟩

instance [BEq κ] : BEq (OrderedSet κ) := ⟨fun a b => a.map == b.map⟩

def size (set : OrderedSet κ) : Nat := set.map.size

def isEmpty (set : OrderedSet κ) : Bool := set.map.isEmpty

def toList (set : OrderedSet κ) : List κ := set.map.keys

def ofAscending (elements : List κ) : OrderedSet κ := ⟨.ofAscending (elements.map fun key => (key, ()))⟩

def text (element : κ → String) (set : OrderedSet κ) : String :=
  "\x7b" ++ ", ".intercalate (set.toList.map element) ++ "\x7d"

section Search

variable [Ord κ]

def contains (set : OrderedSet κ) (element : κ) : Bool := set.map.contains element

def insert (set : OrderedSet κ) (element : κ) : OrderedSet κ × Bool :=
  let (map, old) := set.map.insert element ()
  (⟨map⟩, old.isNone)

def erase (set : OrderedSet κ) (element : κ) : OrderedSet κ × Bool :=
  let (map, old) := set.map.erase element
  (⟨map⟩, old.isSome)

def adding (set : OrderedSet κ) (element : κ) : OrderedSet κ := (set.insert element).1

def removing (set : OrderedSet κ) (element : κ) : OrderedSet κ := (set.erase element).1

def insertMany (set : OrderedSet κ) (elements : List κ) : OrderedSet κ :=
  elements.foldl adding set

def eraseMany (set : OrderedSet κ) (elements : List κ) : OrderedSet κ :=
  elements.foldl removing set

def ofList (elements : List κ) : OrderedSet κ := empty.insertMany elements

def ofSorted (elements : List κ) : Except Fault (OrderedSet κ) := do
  let map ← OrderedMap.ofSorted (elements.map fun key => (key, ()))
  return ⟨map⟩

def wellFormed (set : OrderedSet κ) : Bool := set.map.wellFormed

def union (set other : OrderedSet κ) : OrderedSet κ × Bool :=
  let (map, grew) := set.map.union other.map
  (⟨map⟩, grew)

def inter (set other : OrderedSet κ) : OrderedSet κ × Bool :=
  let (map, shrank) := set.map.inter other.map
  (⟨map⟩, shrank)

end Search

end OrderedSet

end ThreeAddress
