import ThreeAddress.Execution
import ThreeAddress.Proofs.Dataflow.Budget

/-!
Facts at the points of a body, and what they say about the paths that lead there: what is true of the boundary when
nothing has been done, and stays true from one instruction to the next, is true at every point of every path.
-/

set_option autoImplicit false

namespace ThreeAddress

variable {φ : Type}

inductive BlockFacts.At (facts : BlockFacts φ) (body : Body) (step : Inst → Operation → φ → φ) :
    Block → List (Inst × Operation) → φ → Prop
  | within (block : Block) (front back : List (Inst × Operation)) (fact : φ) (stored : facts.atEntry.get? block = some fact)
      (split : body.code block = front ++ back) :
      At facts body step block front (front.foldl (fun fact (inst, operation) => step inst operation fact) fact)
  | atEnd (block : Block) (fact : φ) (stored : facts.atExit.get? block = some fact) :
      At facts body step block (body.code block) fact

def Body.operationsTo (body : Body) (path : List Block) (front : List (Inst × Operation)) : List Operation :=
  body.operationsAlong path.dropLast ++ front.map Prod.snd

-- A reading of the facts of a forward analysis that lower facts share, and that every instruction carries on.
structure Analysis.Faithful (analysis : Analysis φ) (body : Body) (carrier : φ → Prop) (le : φ → φ → Prop)
    (step : Inst → Operation → φ → φ) (holds : List Operation → φ → Prop) : Prop where
  forward : analysis.direction = .forward
  transfers : analysis.transfer = body.transferCode .forward step
  start : holds [] analysis.boundary
  lower : ∀ done a b, carrier a → le a b → holds done b → holds done a
  carries : ∀ block inst operation, (inst, operation) ∈ body.code block → ∀ done fact, holds done fact →
    holds (done ++ [operation]) (step inst operation fact)

section Forward

variable (body : Body) (analysis : Analysis φ) (carrier : φ → Prop) (le : φ → φ → Prop)
  (laws : analysis.Lawful body carrier le) (facts : BlockFacts φ) (solved : body.Solved analysis carrier le facts)
  (accepted : body.check = .ok ()) (step : Inst → Operation → φ → φ) (holds : List Operation → φ → Prop)
  (faithful : analysis.Faithful body carrier le step holds)

include faithful

theorem code_holds (block : Block) (front : List (Inst × Operation)) (part : ∀ entry ∈ front, entry ∈ body.code block)
    (done : List Operation) (fact : φ) (known : holds done fact) :
    holds (done ++ front.map Prod.snd) (front.foldl (fun fact (inst, operation) => step inst operation fact) fact) := by
  induction front generalizing done fact with
  | nil =>
    rw [List.map_nil, List.append_nil]
    exact known
  | cons first rest ih =>
    obtain ⟨inst, operation⟩ := first
    obtain ⟨here, later⟩ := List.forall_mem_cons.mp part
    rw [List.map_cons, List.append_cons]
    exact ih later _ _ (faithful.carries block inst operation here done fact known)

include laws solved

theorem block_holds (block : Block) (inside : body.blocks.contains block = true) (done : List Operation)
    (known : holds done (Solver.inflow analysis facts block)) :
    holds (done ++ (body.code block).map Prod.snd) (Solver.outgoing analysis facts block) := by
  have through := code_holds body analysis carrier le step holds faithful block (body.code block) (fun _ member => member) done _ known
  have below := (Body.solved_bounds body analysis carrier le laws facts solved block inside).2.2
  rw [faithful.transfers] at below
  exact faithful.lower _ _ _ (Solver.outgoing_within analysis carrier facts solved.within laws.init block) below through

include accepted

theorem edge_holds (block succ : Block) (edge : succ ∈ body.succs block) (done : List Operation)
    (known : holds done (Solver.outgoing analysis facts block)) : holds done (Solver.inflow analysis facts succ) := by
  have edges := (Body.well_formed_of_check body accepted).edges
  have source : block ∈ Solver.sources analysis body succ := by
    simp only [Solver.sources, faithful.forward]
    exact (Body.edges_mem_iff body edges block succ).mp edge
  have below := (Body.solved_bounds body analysis carrier le laws facts solved succ (edges.succInside block succ edge)).2.1 block source
  exact faithful.lower _ _ _ (Solver.inflow_within analysis carrier facts solved.within laws.init succ) below known

theorem arrival_holds (source target : Block) (path : List Block) (leads : Path body source path target)
    (inside : body.blocks.contains source = true) (done : List Operation)
    (known : holds done (Solver.inflow analysis facts source)) :
    holds (done ++ body.operationsAlong path.dropLast) (Solver.inflow analysis facts target) := by
  have edges := (Body.well_formed_of_check body accepted).edges
  induction leads generalizing done with
  | here block =>
    rw [List.dropLast_singleton, Body.operationsAlong, List.flatMap_nil, List.append_nil]
    exact known
  | step source succ target path edge rest ih =>
    have more : path ≠ [] := List.ne_nil_of_mem (Path.source_mem succ target path rest)
    have left := block_holds body analysis carrier le laws facts solved step holds faithful source inside done known
    have entered := edge_holds body analysis carrier le laws facts solved accepted step holds faithful source succ edge _ left
    have arrived := ih (edges.succInside source succ edge) _ entered
    rw [List.append_assoc] at arrived
    rw [List.dropLast_cons_of_ne_nil more, Body.operationsAlong, List.flatMap_cons]
    exact arrived

theorem point_holds (path : List Block) (block : Block) (leads : Path body body.entry path block)
    (front : List (Inst × Operation)) (fact : φ) (here : facts.At body step block front fact) :
    holds (body.operationsTo path front) fact := by
  have wellFormed := Body.well_formed_of_check body accepted
  have begins : Solver.start analysis body body.entry = analysis.boundary := by
    simp only [Solver.start, faithful.forward, if_true]
  have first := (Body.solved_bounds body analysis carrier le laws facts solved body.entry wellFormed.entry).1
  rw [begins] at first
  have entered := faithful.lower [] _ _ (Solver.inflow_within analysis carrier facts solved.within laws.init body.entry) first
    faithful.start
  have arrived := arrival_holds body analysis carrier le laws facts solved accepted step holds faithful body.entry block path
    leads wellFormed.entry [] entered
  rw [List.nil_append] at arrived
  cases here with
  | within front back fact stored split =>
    have flows : Solver.inflow analysis facts block = fact := by
      simp only [Solver.inflow, faithful.forward, stored, Option.getD_some]
    rw [flows] at arrived
    have part : ∀ entry ∈ front, entry ∈ body.code block := fun entry member => split ▸ List.mem_append_left back member
    exact code_holds body analysis carrier le step holds faithful block front part _ fact arrived
  | atEnd fact stored =>
    have flows : Solver.outgoing analysis facts block = fact := by
      simp only [Solver.outgoing, faithful.forward, stored, Option.getD_some]
    have inside := Body.reaches_inside body wellFormed.edges body.entry block wellFormed.entry ⟨path, leads⟩
    exact flows ▸ block_holds body analysis carrier le laws facts solved step holds faithful block inside _ arrived

end Forward

end ThreeAddress
