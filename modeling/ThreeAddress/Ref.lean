/-!
References to the entities of a function body. A reference is a place in an arena or names nothing
at all; places are ordered by index and the empty reference comes last.
-/

set_option autoImplicit false

namespace ThreeAddress

inductive Entity where
  | block
  | inst
  | var
  | rpo
deriving DecidableEq, Repr

def Entity.letters : Entity → String
  | .block => "block"
  | .inst => "inst"
  | .var => "v"
  | .rpo => "rpo"

inductive Ref (entity : Entity) where
  | nth (index : Nat)
  | invalid
deriving DecidableEq, Repr

abbrev Block := Ref .block
abbrev Inst := Ref .inst
abbrev Var := Ref .var
abbrev Position := Ref .rpo

namespace Ref

variable {entity : Entity}

instance : Inhabited (Ref entity) := ⟨.invalid⟩

-- Indices are 32-bit words, and the largest word is kept back for the reference to nothing.
def limit : Nat := 4294967295

def index : Ref entity → Nat
  | nth index => index
  | invalid => limit

def index? : Ref entity → Option Nat
  | nth index => some index
  | invalid => none

def isValid : Ref entity → Bool
  | nth _ => true
  | invalid => false

def order : Ref entity → Ref entity → Ordering
  | nth a, nth b => compare a b
  | nth _, invalid => .lt
  | invalid, nth _ => .gt
  | invalid, invalid => .eq

instance : Ord (Ref entity) := ⟨order⟩

def text : Ref entity → String
  | nth index => entity.letters ++ toString index
  | invalid => entity.letters ++ "<invalid>"

instance : ToString (Ref entity) := ⟨text⟩

theorem compare_swap (a b : Ref entity) : compare a b = (compare b a).swap := by
  cases a with
  | invalid => cases b <;> rfl
  | nth a => cases b with
    | invalid => rfl
    | nth b => exact Std.OrientedOrd.eq_swap (α := Nat)

theorem compare_trans (a b c : Ref entity) (first : (compare a b).isLE) (second : (compare b c).isLE) :
    (compare a c).isLE := by
  cases a with
  | invalid => cases b with
    | invalid => exact second
    | nth b => exact Bool.noConfusion first
  | nth a => cases c with
    | invalid => rfl
    | nth c => cases b with
      | invalid => exact Bool.noConfusion second
      | nth b => exact Std.TransOrd.isLE_trans (α := Nat) first second

theorem eq_of_compare (a b : Ref entity) (same : compare a b = .eq) : a = b := by
  cases a with
  | invalid => cases b with
    | invalid => rfl
    | nth b => exact Ordering.noConfusion same
  | nth a => cases b with
    | invalid => exact Ordering.noConfusion same
    | nth b => exact congrArg nth (Std.LawfulEqOrd.eq_of_compare (α := Nat) same)

instance : Std.OrientedOrd (Ref entity) := ⟨fun {a b} => compare_swap a b⟩

instance : Std.TransOrd (Ref entity) := ⟨fun {a b c} => compare_trans a b c⟩

instance : Std.LawfulEqOrd (Ref entity) := ⟨fun {a b} => eq_of_compare a b⟩

end Ref

end ThreeAddress
