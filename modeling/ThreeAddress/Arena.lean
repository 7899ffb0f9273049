import ThreeAddress.Fault

/-!
Containers indexed by references. An arena only grows, so a reference into it stays good; a side
table holds one value for every reference, written or not.
-/

set_option autoImplicit false

namespace ThreeAddress

structure Arena (entity : Entity) (α : Type) where
  slots : Array α

namespace Arena

variable {entity : Entity} {α β : Type}

instance : Inhabited (Arena entity α) := ⟨⟨#[]⟩⟩

def empty : Arena entity α := ⟨#[]⟩

def ofList (values : List α) : Arena entity α := ⟨values.toArray⟩

def replicate (size : Nat) (value : α) : Arena entity α := ⟨Array.replicate size value⟩

def size (arena : Arena entity α) : Nat := arena.slots.size

def isEmpty (arena : Arena entity α) : Bool := arena.slots.isEmpty

def toList (arena : Arena entity α) : List α := arena.slots.toList

def refs (arena : Arena entity α) : List (Ref entity) := (List.range arena.size).map Ref.nth

def entries (arena : Arena entity α) : List (Ref entity × α) := arena.refs.zip arena.toList

def get? (arena : Arena entity α) : Ref entity → Option α
  | .nth index => arena.slots[index]?
  | .invalid => none

def contains (arena : Arena entity α) : Ref entity → Bool
  | .nth index => index < arena.slots.size
  | .invalid => false

def get (arena : Arena entity α) (ref : Ref entity) : Except Fault α :=
  match arena.get? ref with
  | some value => .ok value
  | none => .error .outOfRange

def put (arena : Arena entity α) (ref : Ref entity) (value : α) : Arena entity α :=
  match ref with
  | .nth index => ⟨arena.slots.setIfInBounds index value⟩
  | .invalid => arena

def set (arena : Arena entity α) (ref : Ref entity) (value : α) : Except Fault (Arena entity α) :=
  if arena.contains ref then .ok (arena.put ref value) else .error .outOfRange

def modify (arena : Arena entity α) (ref : Ref entity) (f : α → α) : Except Fault (Arena entity α) := do
  let value ← arena.get ref
  return arena.put ref (f value)

def push (arena : Arena entity α) (value : α) : Except Fault (Ref entity × Arena entity α) := do
  let ref ← Ref.ofIndex arena.size
  return (ref, ⟨arena.slots.push value⟩)

def map (arena : Arena entity α) (f : α → β) : Arena entity β := ⟨arena.slots.map f⟩

theorem get_put (arena : Arena entity α) (ref other : Ref entity) (value : α)
    (present : arena.contains ref = true) :
    (arena.put ref value).get? other = if ref = other then some value else arena.get? other := by
  cases ref with
  | invalid => exact Bool.noConfusion present
  | nth index =>
    cases other with
    | invalid => simp [get?]
    | nth place =>
      have bound : index < arena.slots.size := of_decide_eq_true present
      simp only [put, get?, Array.getElem?_setIfInBounds, Ref.nth.injEq, if_pos bound]

theorem size_put (arena : Arena entity α) (ref : Ref entity) (value : α) :
    (arena.put ref value).size = arena.size := by
  cases ref with
  | invalid => rfl
  | nth index => exact Array.size_setIfInBounds

theorem get_push (arena grown : Arena entity α) (fresh other : Ref entity) (value : α)
    (pushed : arena.push value = .ok (fresh, grown)) :
    grown.get? other = if other = fresh then some value else arena.get? other := by
  simp only [push, Ref.ofIndex] at pushed
  split at pushed
  · obtain ⟨rfl, rfl⟩ : Ref.nth arena.size = fresh ∧ ⟨arena.slots.push value⟩ = grown := by
      simpa [bind, Except.bind, pure, Except.pure] using pushed
    cases other with
    | invalid => simp [get?]
    | nth index => simp [get?, Array.getElem?_push, size]
  · simp [bind, Except.bind] at pushed

theorem contains_iff (arena : Arena entity α) (ref : Ref entity) :
    arena.contains ref = true ↔ ∃ value, arena.get? ref = some value := by
  cases ref with
  | invalid => simp [contains, get?]
  | nth index =>
    simp only [contains, get?, decide_eq_true_eq]
    exact ⟨fun bound => ⟨_, Array.getElem?_eq_getElem bound⟩,
      fun ⟨_, found⟩ => (Array.getElem?_eq_some_iff.1 found).1⟩

end Arena

structure SideTable (entity : Entity) (α : Type) where
  default : α
  cells : Array α

namespace SideTable

variable {entity : Entity} {α : Type}

def blank (default : α) : SideTable entity α := ⟨default, #[]⟩

def read (table : SideTable entity α) (ref : Ref entity) : α :=
  table.cells[ref.index]?.getD table.default

-- Cells up to the one written come into being with the default.
def write (table : SideTable entity α) (ref : Ref entity) (value : α) : SideTable entity α :=
  let missing := ref.index + 1 - table.cells.size
  let cells := if missing = 0 then table.cells else table.cells ++ Array.replicate missing table.default
  { table with cells := cells.setIfInBounds ref.index value }

theorem read_blank (default : α) (ref : Ref entity) : (blank default).read ref = default := by
  simp [blank, read]

theorem read_write (table : SideTable entity α) (ref other : Ref entity) (value : α) :
    (table.write ref value).read other =
      if ref.index = other.index then value else table.read other := by
  simp only [write, read]
  split <;> grind

end SideTable

end ThreeAddress
