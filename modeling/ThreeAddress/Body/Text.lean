import ThreeAddress.Body.Basic

/-!
The written form of operations and bodies: one line to an instruction, under a heading for each
block that lists its edges.
-/

set_option autoImplicit false

namespace ThreeAddress.Body

def varText (body : Body) (var : Var) : String :=
  match body.vars.get? var with
  | some (some name) => name
  | _ => s!"t{var.index}"

def operandText (body : Body) : Operand → String
  | .lit value => s!"#{value}"
  | .var name => body.varText name

def targetText : Inst → String
  | .nth index => s!"label{index}"
  | .invalid => "?"

-- The text of an operation; a label is named after the instruction that it is.
def operationText (body : Body) (inst : Inst) (operation : Operation) : String :=
  let var := body.varText
  let operand := body.operandText
  match operation with
  | .label => "LABEL " ++ targetText inst ++ " :"
  | .assign dst src => var dst ++ " := " ++ operand src
  | .binary op dst lhs rhs =>
      var dst ++ " := " ++ operand lhs ++ " " ++ op.symbol ++ " " ++ operand rhs
  | .unary op dst src => var dst ++ " := " ++ op.symbol ++ operand src
  | .addrOf dst place => var dst ++ " := &" ++ var place
  | .load dst addr => var dst ++ " := *" ++ operand addr
  | .store addr src => "*" ++ operand addr ++ " := " ++ operand src
  | .goto target => "GOTO " ++ targetText target
  | .branch rel lhs rhs target =>
      "IF " ++ operand lhs ++ " " ++ rel.symbol ++ " " ++ operand rhs ++ " GOTO " ++ targetText target
  | .ret src => "RETURN " ++ operand src
  | .declare place size => "DEC " ++ var place ++ " " ++ toString size
  | .arg src => "ARG " ++ operand src
  | .call dst function => var dst ++ " := CALL " ++ function
  | .param dst => "PARAM " ++ var dst
  | .read dst => "READ " ++ var dst
  | .write src => "WRITE " ++ operand src

def instText (body : Body) (inst : Inst) : Except Fault String := do
  return body.operationText inst (← body.operation inst)

def blockLines (body : Body) (block : Block) : Except Fault (List String) := do
  let data ← body.blocks.get block
  let insts ← data.chain.members body.cells
  let heading := s!"  {block}:" ++ if block = body.entry then " # entry" else ""
  let preds := data.preds.map fun pred => s!"    # pred: {pred}"
  let succs := data.succs.map fun succ => s!"    # succ: {succ}"
  let code ← insts.mapM fun inst => do
    let line ← body.instText inst
    return "    " ++ line ++ if Chain.isMarked body.cells inst then " # marked" else ""
  return heading :: preds ++ succs ++ code

def text (body : Body) (indent : String) : Except Fault String := do
  let blocks ← body.blocks.refs.mapM body.blockLines
  let lines := ["function " ++ body.name ++ " \x7b"] ++ blocks.flatten ++ ["\x7d"]
  return String.join (lines.map fun line => indent ++ line ++ "\n")

end ThreeAddress.Body
