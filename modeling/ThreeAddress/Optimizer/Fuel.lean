import ThreeAddress.Fault

/-!
Fuel: a budget on single edits, shared by all passes of a run. With less fuel a run makes the
same edits and stops earlier, so limiting it singles one edit out. Requests are counted in a word.
Where overflow is checked, counting past the largest word is a fault; elsewhere the count wraps. Passes
run on with the count wrapped and remember it, so that one run tells what happens in either case.
-/

set_option autoImplicit false

namespace ThreeAddress

-- What is left, unless there is no limit, and how often fuel was asked for.
structure Fuel where
  remaining : Option Nat
  consumed : UInt64
  overflowed : Bool := false
deriving DecidableEq, Repr

namespace Fuel

-- The largest 64-bit word, which as a limit means none.
def noLimit : Nat := 18446744073709551615

def infinite : Fuel := { remaining := none, consumed := 0 }

def limited (limit : Nat) : Fuel :=
  { remaining := if limit < noLimit then some limit else none, consumed := 0 }

def gauge (fuel : Fuel) : Nat := fuel.remaining.getD noLimit

def count (fuel : Fuel) : Fuel :=
  { fuel with
    consumed := fuel.consumed + 1
    overflowed := fuel.overflowed || fuel.consumed.toNat == noLimit }

-- Ask for fuel for one edit. Asking counts even when there is none.
def consume (fuel : Fuel) : Bool × Fuel :=
  match fuel.remaining with
  | none => (true, fuel.count)
  | some 0 => (false, fuel.count)
  | some (rest + 1) => (true, { fuel.count with remaining := some rest })

def guard (fuel : Fuel) : Except Fault Unit :=
  if fuel.overflowed then .error .counterOverflow else .ok ()

-- Ask for fuel where overflow is checked.
def consumeGuarded (fuel : Fuel) : Except Fault (Bool × Fuel) := do
  let (granted, left) := fuel.consume
  left.guard
  return (granted, left)

def requests : Nat → Fuel → Except Fault (List (Bool × Fuel))
  | 0, _ => .ok []
  | count + 1, fuel => do
      let answer ← fuel.consumeGuarded
      return answer :: (← requests count answer.2)

end Fuel

structure Tally where
  fuel : Fuel
  count : Nat := 0
deriving DecidableEq, Repr

def Tally.pay (tally : Tally) : Bool × Tally :=
  let (granted, fuel) := tally.fuel.consume
  (granted, ⟨fuel, if granted then tally.count + 1 else tally.count⟩)

end ThreeAddress
