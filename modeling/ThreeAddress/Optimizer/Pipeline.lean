import ThreeAddress.Optimizer.ConstantPropagation
import ThreeAddress.Optimizer.CopyPropagation
import ThreeAddress.Optimizer.DeadCode
import ThreeAddress.Optimizer.InvariantMotion
import ThreeAddress.Optimizer.ValueNumbering

/-!
The optimizer: value numbering, then constants and dead code, then copies and loops once, then the
first two groups again for a number of rounds. Blocks and edges stay as they are.
-/

set_option autoImplicit false

namespace ThreeAddress

inductive Pass where
  | valueNumbering
  | constantPropagation
  | deadCode
  | copyPropagation
  | invariantMotion
deriving DecidableEq, Repr

def Pass.run : Pass → Body → Fuel → Except Fault (Tally × Body)
  | valueNumbering => Body.numberValues
  | constantPropagation => Body.propagateConstants
  | deadCode => Body.removeDeadCode
  | copyPropagation => Body.propagateCopies
  | invariantMotion => Body.hoistInvariants

def Pass.runGuarded (pass : Pass) (body : Body) (fuel : Fuel) : Except Fault (Tally × Body) := do
  let (tally, other) ← pass.run body fuel
  tally.fuel.guard
  return (tally, other)

structure OptimizerOptions where
  enabled : Pass → Bool := fun _ => true
  rounds : Nat := 1
  fuel : Fuel := .infinite

def OptimizerOptions.none : OptimizerOptions := { enabled := fun _ => false, rounds := 0 }

structure OptimizerStats where
  valueNumbering : Nat := 0
  constantPropagation : Nat := 0
  deadCode : Nat := 0
  copyPropagation : Nat := 0
  invariantMotion : Nat := 0
  fuelConsumed : UInt64 := 0
deriving DecidableEq, Repr

namespace OptimizerStats

def total (stats : OptimizerStats) : Nat :=
  stats.valueNumbering + stats.constantPropagation + stats.deadCode + stats.copyPropagation
    + stats.invariantMotion

def add (stats : OptimizerStats) (count : Nat) : Pass → OptimizerStats
  | .valueNumbering => { stats with valueNumbering := stats.valueNumbering + count }
  | .constantPropagation => { stats with constantPropagation := stats.constantPropagation + count }
  | .deadCode => { stats with deadCode := stats.deadCode + count }
  | .copyPropagation => { stats with copyPropagation := stats.copyPropagation + count }
  | .invariantMotion => { stats with invariantMotion := stats.invariantMotion + count }

end OptimizerStats

namespace Pipeline

def repeated : List Pass := [.valueNumbering, .constantPropagation, .deadCode]

section Run

variable (run : Pass → Body → Fuel → Except Fault (Tally × Body)) (enabled : Pass → Bool)

def runEach : List Pass → OptimizerStats → Fuel → Body → Except Fault (OptimizerStats × Fuel × Body)
  | [], stats, fuel, body => .ok (stats, fuel, body)
  | pass :: rest, stats, fuel, body =>
      if enabled pass then do
        let (tally, body) ← run pass body fuel
        runEach rest (stats.add tally.count pass) tally.fuel body
      else runEach rest stats fuel body

def runRounds : Nat → OptimizerStats → Fuel → Body → Except Fault (OptimizerStats × Fuel × Body)
  | 0, stats, fuel, body => .ok (stats, fuel, body)
  | rounds + 1, stats, fuel, body => do
      let (stats, fuel, body) ← runEach run enabled repeated stats fuel body
      runRounds rounds stats fuel body

end Run

end Pipeline

def Body.optimizeWith (run : Pass → Body → Fuel → Except Fault (Tally × Body)) (body : Body)
    (options : OptimizerOptions) : Except Fault (OptimizerStats × Body) := do
  body.check
  let passes := Pipeline.repeated ++ [.copyPropagation, .invariantMotion]
  let (stats, fuel, middle) ← Pipeline.runEach run options.enabled passes {} options.fuel body
  let (stats, fuel, optimized) ← Pipeline.runRounds run options.enabled options.rounds stats fuel middle
  optimized.check
  return ({ stats with fuelConsumed := fuel.consumed }, optimized)

def Body.optimize (body : Body) (options : OptimizerOptions) :
    Except Fault (OptimizerStats × Body) :=
  body.optimizeWith Pass.run options

def Body.optimizeGuarded (body : Body) (options : OptimizerOptions) :
    Except Fault (OptimizerStats × Body) :=
  body.optimizeWith Pass.runGuarded options

end ThreeAddress
