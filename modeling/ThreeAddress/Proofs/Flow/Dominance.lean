import ThreeAddress.Proofs.Dataflow.Budget
import ThreeAddress.Proofs.Flow.Loops

/-!
What dominates a block is met on every path to it, and so a loop that does not start the body is entered from
outside only at its header.
-/

set_option autoImplicit false

namespace ThreeAddress

theorem Body.dominance_total (body : Body) (accepted : body.check = .ok ()) : ∃ dominance, body.dominance = .ok dominance ∧
    body.Solved body.dominatorAnalysis (OrderedSet.Over body.blocks.refs) (Meet.le .intersection) dominance.facts ∧
    dominance.order.Describes body := by
  have wellFormed := well_formed_of_check body accepted
  obtain ⟨facts, solved⟩ := dominators_solved body accepted
  obtain ⟨order, ordered, describes⟩ := flow_order_total body wellFormed.edges wellFormed.entry
  refine ⟨⟨facts, order⟩, ?_, solved, describes⟩
  rw [dominance, solved.found]
  simp only [bind, Except.bind, ordered]
  rfl

variable (body : Body) (accepted : body.check = .ok ()) (dominance : Dominance)
  (solved : body.Solved body.dominatorAnalysis (OrderedSet.Over body.blocks.refs) (Meet.le .intersection) dominance.facts)

section Paths

include accepted solved

theorem dominators_along (source target : Block) (path : List Block) (leads : Path body source path target)
    (inside : body.blocks.contains source = true) (block : Block)
    (above : block ∈ (Solver.outgoing body.dominatorAnalysis dominance.facts target).toList) :
    block ∈ path ∨ block ∈ (Solver.inflow body.dominatorAnalysis dominance.facts source).toList := by
  have wellFormed := Body.well_formed_of_check body accepted
  have laws := Body.dominator_lawful body wellFormed.entry body.blocks.refs fun _ member => member
  have flows := Solver.inflow_within body.dominatorAnalysis _ dominance.facts solved.within laws.init
  have bounds := body.solved_bounds _ _ _ laws dominance.facts solved
  induction leads with
  | here last =>
    have passed := (bounds last inside).2.2 block above
    rcases (OrderedSet.mem_adding _ (flows last).sound last block).mp passed with same | before
    · exact .inl (same ▸ List.mem_cons_self)
    · exact .inr before
  | step source succ target path edge _ ih =>
    have succInside := wellFormed.edges.succInside source succ edge
    rcases ih succInside above with later | before
    · exact .inl (List.mem_cons_of_mem _ later)
    · have leaves := (bounds succ succInside).2.1 source ((Body.edges_mem_iff body wellFormed.edges source succ).mp edge)
      have passed := (bounds source inside).2.2 block (leaves block before)
      rcases (OrderedSet.mem_adding _ (flows source).sound source block).mp passed with same | earlier
      · exact .inl (same ▸ List.mem_cons_self)
      · exact .inr earlier

theorem dominator_met (above target : Block) (dominates : dominance.dominates above target = true) (path : List Block)
    (leads : Path body body.entry path target) : above ∈ path := by
  have wellFormed := Body.well_formed_of_check body accepted
  have laws := Body.dominator_lawful body wellFormed.entry body.blocks.refs fun _ member => member
  have outs := Solver.outgoing_within body.dominatorAnalysis _ dominance.facts solved.within laws.init
  have member : above ∈ (Solver.outgoing body.dominatorAnalysis dominance.facts target).toList := by
    obtain ⟨dominators, found, contains⟩ := (Option.any_eq_true _ _).mp dominates
    have same : Solver.outgoing body.dominatorAnalysis dominance.facts target = dominators := by
      show (dominance.facts.atExit.get? target).getD _ = dominators
      rw [found]
      rfl
    rw [same]
    exact (OrderedSet.contains_iff _ (same ▸ (outs target).sound) above).mp contains
  rcases dominators_along body accepted dominance solved body.entry target path leads wellFormed.entry above member with
    here | before
  · exact here
  · have first := (body.solved_bounds _ _ _ laws dominance.facts solved body.entry wellFormed.entry).1 above before
    have only : Solver.start body.dominatorAnalysis body body.entry = .ofList [body.entry] := if_pos rfl
    rw [only, OrderedSet.mem_of_list, List.mem_singleton] at first
    exact first ▸ Path.source_mem body.entry target path leads

theorem entry_outside (loop : Loop) (natural : Loop.Natural body dominance loop) (apart : loop.header ≠ body.entry) :
    body.entry ∉ loop.blocks.toList := by
  intro member
  obtain ⟨latch, path, dominates, leads, avoids⟩ := natural.returns body.entry (.inl member) apart.symm
  exact avoids (dominator_met body accepted dominance solved loop.header latch dominates path leads)

end Paths

theorem loop_entered (loop : Loop) (natural : Loop.Natural body dominance loop) (preheader : Block)
    (enters : loop.preheader? body = some preheader) (edges : body.EdgesAgree) (block succ : Block)
    (reached : body.Reaches body.entry block) (edge : succ ∈ body.succs block) (member : succ ∈ loop.blocks.toList) :
    block ∈ loop.blocks.toList ∨ (succ = loop.header ∧ block = preheader) := by
  have pred := (Body.edges_mem_iff body edges block succ).mp edge
  by_cases header : succ = loop.header
  · by_cases inLoop : block ∈ loop.blocks.toList
    · exact .inl inLoop
    · have outside : loop.contains block = false := (OrderedSet.contains_eq_false_iff _ natural.sound block).mpr inLoop
      obtain ⟨_, _, alone, _⟩ := Loop.preheader_spec body loop preheader enters
      exact .inr ⟨header, alone block (header ▸ pred) outside⟩
  · exact .inl ((natural.closed succ member header block pred reached).resolve_right List.not_mem_nil)

end ThreeAddress
