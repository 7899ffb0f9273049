import ThreeAddress.OrderedSet

/-!
How facts combine where paths join: sets by union or intersection, and bindings by keeping those
that all paths agree on. Each operation also tells whether the left fact changed.
-/

set_option autoImplicit false

namespace ThreeAddress

-- Union for what holds on some path, where the empty set is top; intersection for what holds on every path, where the
-- set of all elements is top.
inductive Meet where
  | union
  | intersection
deriving DecidableEq, Repr

def Meet.apply {κ : Type} [Ord κ] (meet : Meet) (fact other : OrderedSet κ) : OrderedSet κ × Bool :=
  match meet with
  | .union => fact.union other
  | .intersection => fact.inter other

-- What is known about variables on every path so far. Top says that no path has come by.
inductive Bindings (κ ν : Type) where
  | top
  | known (map : OrderedMap κ ν)
deriving Repr

namespace Bindings

variable {κ ν : Type}

instance : Inhabited (Bindings κ ν) := ⟨.top⟩

def nothing : Bindings κ ν := .known .empty

def isTop : Bindings κ ν → Bool
  | top => true
  | known _ => false

def entries? : Bindings κ ν → Option (List (κ × ν))
  | top => none
  | known map => some map.toList

def same [BEq κ] [BEq ν] : Bindings κ ν → Bindings κ ν → Bool
  | top, top => true
  | known a, known b => a == b
  | _, _ => false

instance [BEq κ] [BEq ν] : BEq (Bindings κ ν) := ⟨same⟩

section Search

variable [Ord κ]

def get? (key : κ) : Bindings κ ν → Option ν
  | top => none
  | known map => map.get? key

-- Bind or unbind a key. Top stays as it is: only code that never runs sees it.
def set (key : κ) (value : Option ν) : Bindings κ ν → Bindings κ ν
  | top => top
  | known map => known (map.set key value).1

def meet [BEq ν] : Bindings κ ν → Bindings κ ν → Bindings κ ν × Bool
  | fact, top => (fact, false)
  | top, known other => (known other, true)
  | known map, known other =>
      let (kept, changed) := map.agreeing other
      (known kept, changed)

end Search

end Bindings

end ThreeAddress
