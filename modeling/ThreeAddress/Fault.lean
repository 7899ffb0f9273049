import ThreeAddress.Ref

/-!
What can go wrong. A defect is a broken structural rule of a function body, found by reading it; a
fault is a request that has no answer, and it ends the computation that made it.
-/

set_option autoImplicit false

namespace ThreeAddress

inductive Defect where
  | invalidEntry
  | listLength (block : Block) (cached actual : Nat)
  -- A link does not lead back to where it came from, or the list ends elsewhere than at its tail.
  | brokenLink (block : Block) (inst : Inst)
  | wrongParent (inst : Inst) (expected actual : Block)
  | unresolvedJump (inst : Inst)
  | jumpToNonLabel (inst target : Inst)
  | edgeMismatch (source target : Block)
deriving DecidableEq, Repr

namespace Defect

def text : Defect → String
  | invalidEntry => "entry block is not a block of the function"
  | listLength block cached actual =>
      s!"{block}: instruction list caches length {cached} but holds {actual}"
  | brokenLink block inst => s!"{block}: broken list link at {inst}"
  | wrongParent inst expected actual =>
      s!"{inst} is listed in {expected} but records parent {actual}"
  | unresolvedJump inst => s!"{inst} has no jump target"
  | jumpToNonLabel inst target => s!"{inst} jumps to {target}, which is not a label"
  | edgeMismatch source target => s!"edge {source} -> {target} is not recorded on both ends"

end Defect

inductive Fault where
  | outOfRange
  | indexOverflow
  | malformed (name : String) (defect : Defect)
  | notALabel (inst : Inst)
  | notAJump (inst : Inst)
  | foreignFacts
  | factCount (atEntry atExit blocks : Nat)
  | notAscending
  -- An instruction was taken off a list that counts none.
  | underflow
  -- More requests for fuel were made than a word counts.
  | counterOverflow
  -- Links lead in a circle, or facts never settle.
  | endless
deriving DecidableEq, Repr

namespace Fault

def message? : Fault → Option String
  | outOfRange => none
  | indexOverflow => some "entity index overflow"
  | malformed name defect => some (s!"malformed function body `{name}`: " ++ defect.text)
  | notALabel inst => some s!"backpatch target {inst} is not a label"
  | notAJump inst => some s!"{inst} on a backpatch list is not a jump"
  | foreignFacts => some "fact array built for a different analysis"
  | factCount atEntry atExit blocks =>
      some s!"fact arrays hold {atEntry}/{atExit} slots for {blocks} blocks"
  | notAscending => some "from_sorted_vec: keys not strictly ascending"
  | underflow => none
  | counterOverflow => none
  | endless => none

end Fault

def Ref.ofIndex {entity : Entity} (index : Nat) : Except Fault (Ref entity) :=
  if index < limit then .ok (.nth index) else .error .indexOverflow

end ThreeAddress
