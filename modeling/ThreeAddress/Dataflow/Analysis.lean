import ThreeAddress.Body.Check

/-!
What a dataflow analysis of a body is: the facts it starts from, how facts combine where paths join,
and how a block transforms them; and the facts it finds at both ends of every block.
-/

set_option autoImplicit false

namespace ThreeAddress

inductive Direction where
  | forward
  | backward
deriving DecidableEq, Repr

-- `init` is what every fact starts from and has to be neutral for `merge`; `boundary` is what enters the entry block of
-- a forward analysis and leaves an exit block of a backward one. The tag tells the facts of one analysis from those of
-- another.
structure Analysis (φ : Type) where
  direction : Direction
  tag : Nat
  init : φ
  boundary : φ
  merge : φ → φ → φ × Bool
  same : φ → φ → Bool
  transfer : Block → φ → φ

structure BlockFacts (φ : Type) where
  tag : Nat
  atEntry : Arena .block φ
  atExit : Arena .block φ

namespace Body

variable {φ : Type}

def codeToward (body : Body) : Direction → Block → List (Inst × Operation)
  | .forward, block => body.code block
  | .backward, block => body.codeRev block

def transferCode (body : Body) (direction : Direction) (step : Inst → Operation → φ → φ)
    (block : Block) (fact : φ) : φ :=
  (body.codeToward direction block).foldl (fun fact (inst, operation) => step inst operation fact) fact

def replay (step : Inst → Operation → φ → φ) : List (Inst × Operation) → φ → List (Inst × φ)
  | [], _ => []
  | (inst, operation) :: rest, fact =>
      let after := step inst operation fact
      (inst, after) :: replay step rest after

end Body

def BlockFacts.initial {φ : Type} (analysis : Analysis φ) (body : Body) : BlockFacts φ where
  tag := analysis.tag
  atEntry := .replicate body.blocks.size analysis.init
  atExit := .replicate body.blocks.size analysis.init

end ThreeAddress
