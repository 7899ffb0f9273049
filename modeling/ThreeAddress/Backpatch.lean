import ThreeAddress.Body.Edit

/-!
Backpatching: jumps emitted before their label exists are collected, and all are pointed at the
label once it does.
-/

set_option autoImplicit false

namespace ThreeAddress

-- Jumps that wait for one and the same target.
structure PatchList where
  jumps : List Inst := []
deriving DecidableEq

namespace PatchList

def empty : PatchList := {}

def single (jump : Inst) : PatchList := ⟨[jump]⟩

def push (list : PatchList) (jump : Inst) : PatchList := ⟨list.jumps ++ [jump]⟩

def merge (list other : PatchList) : PatchList := ⟨list.jumps ++ other.jumps⟩

def size (list : PatchList) : Nat := list.jumps.length

def isEmpty (list : PatchList) : Bool := list.jumps.isEmpty

end PatchList

namespace Body

def patch (body : Body) (label jump : Inst) : Except Fault Body := do
  match (← body.operation jump).retarget? label with
  | some operation => body.setOperation jump operation
  | none => throw (.notAJump jump)

def patchAll (body : Body) (label : Inst) : List Inst → Except Fault Body
  | [] => .ok body
  | jump :: rest => do
      let body ← body.patch label jump
      body.patchAll label rest

def resolve (body : Body) (list : PatchList) (label : Inst) : Except Fault (Body × Nat) := do
  if (← body.operation label).isLabel then
    let body ← body.patchAll label list.jumps
    return (body, list.size)
  else throw (.notALabel label)

end Body

end ThreeAddress
