import ThreeAddress.Body.Edit
import ThreeAddress.Optimizer.Fuel

/-!
Editing a body one instruction after the other. Each instruction is edited with a state that
starts anew in every block and with the tally of the pass.
-/

set_option autoImplicit false

namespace ThreeAddress

namespace Tally

def substitute (replacement? : Var → Option Operand) (tally : Tally) (operand : Operand) :
    Tally × Operand :=
  match operand.var?.bind replacement? with
  | none => (tally, operand)
  | some replacement =>
      let (granted, tally) := tally.pay
      (tally, if granted then replacement else operand)

def replace (tally : Tally) (operation : Operation) : Option Operation → Tally × Operation
  | none => (tally, operation)
  | some replacement =>
      let (granted, tally) := tally.pay
      (tally, if granted then replacement else operation)

end Tally

namespace Body

variable {σ : Type}

abbrev Step (σ : Type) := σ → Tally → Inst → Operation → σ × Tally × Operation

def editInsts (step : Step σ) : σ → Tally → List Inst → Body → Except Fault (Tally × Body)
  | _, tally, [], body => .ok (tally, body)
  | state, tally, inst :: rest, body => do
      let operation ← body.operation inst
      let (state, tally, operation) := step state tally inst operation
      let body ← body.setOperation inst operation
      editInsts step state tally rest body

def editBlocks (step : Step σ) (start : Block → Option σ) :
    Tally → List Block → Body → Except Fault (Tally × Body)
  | tally, [], body => .ok (tally, body)
  | tally, block :: rest, body =>
      match start block with
      | none => editBlocks step start tally rest body
      | some state => do
          let insts ← body.members block
          let (tally, body) ← editInsts step state tally insts body
          editBlocks step start tally rest body

def editCode (body : Body) (fuel : Fuel) (step : Step σ) (start : Block → Option σ) :
    Except Fault (Tally × Body) :=
  editBlocks step start ⟨fuel, 0⟩ body.blocks.refs body

end Body

end ThreeAddress
