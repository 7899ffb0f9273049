import ThreeAddress.Proofs.Flow.Preheaders

/-!
Which loops are found. There is one for each block that a back edge leads to. Its latches are the sources of these edges,
it holds just what leads to a latch without passing the header, and control enters it at the header only.
-/

set_option autoImplicit false

namespace ThreeAddress.Body

variable (body : Body)

theorem dominance_order (dominance : Dominance) (computed : body.dominance = .ok dominance) :
    body.flowOrder = .ok dominance.order := by
  obtain ⟨facts, _, rest⟩ := (bind_ok_iff _ _ _).mp computed
  obtain ⟨order, ordered, same⟩ := (bind_ok_iff _ _ _).mp rest
  cases same
  exact ordered

structure BackEdge (latch head : Block) : Prop where
  reached : body.Reaches body.entry latch
  edge : head ∈ body.succs latch
  dominates : body.Dominates head latch

open Classical in
noncomputable def latchesOf (order : FlowOrder) (head : Block) : List Block :=
  order.rpo.toList.flatMap fun latch =>
    if body.Dominates head latch then List.replicate ((body.succs latch).count head) latch else []

theorem loop_absorbs (loop : Loop) (closed : loop.Closed body) (edges : body.EdgesAgree) (source target : Block)
    (path : List Block) (leads : Path body source path target) (reached : body.Reaches body.entry source)
    (member : target ∈ loop.blocks.toList) (avoids : loop.header ∉ path.tail) : source ∈ loop.blocks.toList := by
  induction leads with
  | here => exact member
  | step source succ target path edge onward ih =>
    have inLoop := ih (body.reaches_succ source succ reached edge) member fun later => avoids (List.mem_of_mem_tail later)
    have apart : succ ≠ loop.header := fun same => avoids (same ▸ onward.source_mem succ target path)
    have pred := (edges_mem_iff body edges source succ).mp edge
    exact (closed.grown.closed succ inLoop apart source pred reached).resolve_right List.not_mem_nil

theorem mem_loop_iff (edges : body.EdgesAgree) (loop : Loop) (closed : loop.Closed body) (block : Block) :
    block ∈ loop.blocks.toList ↔ block = loop.header ∨ body.Reaches body.entry block ∧
      ∃ latch path, latch ∈ loop.latches ∧ Path body block path latch ∧ loop.header ∉ path := by
  constructor
  · intro member
    by_cases header : block = loop.header
    · exact .inl header
    · exact .inr ⟨closed.reached block member, closed.grown.returns block (.inl member) header⟩
  · intro either
    rcases either with header | ⟨reached, latch, path, isLatch, leads, avoids⟩
    · exact header ▸ closed.grown.entered
    · exact body.loop_absorbs loop closed edges block latch path leads reached (closed.latched latch isLatch) fun later =>
        avoids (List.mem_of_mem_tail later)

section Found

variable (accepted : body.check = .ok ()) (dominance : Dominance)
  (solved : body.Solved body.dominatorAnalysis (OrderedSet.Over body.blocks.refs) (Meet.le .intersection) dominance.facts)
  (describes : dominance.order.Describes body)

include accepted solved

theorem dominates_latch_iff (latch head : Block) (reached : body.Reaches body.entry latch) (edge : head ∈ body.succs latch) :
    dominance.dominates head latch = true ↔ body.Dominates head latch := by
  have wellFormed := well_formed_of_check body accepted
  have inside := reaches_inside body wellFormed.edges body.entry latch wellFormed.entry reached
  rw [body.dominates_iff accepted dominance solved head latch inside]
  exact and_iff_right (wellFormed.edges.succInside latch head edge)

include describes

theorem mem_back_edges_iff (latch head : Block) : (latch, head) ∈ body.backEdges dominance ↔ body.BackEdge latch head := by
  rw [back_edges_iff body dominance describes latch head]
  constructor
  · intro ⟨reached, edge, above⟩
    exact ⟨reached, edge, (body.dominates_latch_iff accepted dominance solved latch head reached edge).mp above⟩
  · intro ⟨reached, edge, dominates⟩
    exact ⟨reached, edge, (body.dominates_latch_iff accepted dominance solved latch head reached edge).mpr dominates⟩

theorem latches_gathered (head : Block) :
    ((body.backEdges dominance).filter (·.2 = head)).map Prod.fst = body.latchesOf dominance.order head := by
  rw [backEdges, List.filter_flatMap, List.map_flatMap, latchesOf]
  apply List.flatMap_congr
  intro latch listed
  rw [describes.reversed, List.mem_reverse, describes.listed] at listed
  have moved : (((body.succs latch).filter fun target => dominance.dominates target latch).map (latch, ·)).filter (·.2 = head) =
      (((body.succs latch).filter fun target => dominance.dominates target latch).filter (· = head)).map (latch, ·) :=
    List.filter_map
  have each (target : Block) (member : target ∈ List.replicate ((body.succs latch).count head) head) :
      dominance.dominates target latch = true ↔ body.Dominates head latch := by
    obtain ⟨some, same⟩ := List.mem_replicate.mp member
    rw [same]
    exact body.dominates_latch_iff accepted dominance solved latch head listed (List.count_pos_iff.mp (Nat.pos_of_ne_zero some))
  rw [moved, List.map_map, List.filter_comm, List.filter_eq]
  by_cases dominates : body.Dominates head latch
  · rw [if_pos dominates, List.filter_eq_self.mpr fun target member => (each target member).mpr dominates, List.map_replicate]
    rfl
  · rw [if_neg dominates, List.filter_eq_nil_iff.mpr fun target member above => dominates ((each target member).mp above)]
    rfl

end Found

-- There is just one loop for each block that a back edge leads to. It has a latch for every such edge, holds what leads to
-- one without passing the header, and the header dominates all of it; so a reached block outside leads to the header only.
theorem loops_are_exact (accepted : body.check = .ok ()) : ∃ dominance, body.dominance = .ok dominance ∧
    body.flowOrder = .ok dominance.order ∧ dominance.order.Describes body ∧
    ((body.loops dominance).map Loop.header).Nodup ∧
    (∀ head, (∃ loop ∈ body.loops dominance, loop.header = head) ↔ ∃ latch, body.BackEdge latch head) ∧
    ∀ loop ∈ body.loops dominance,
      loop.latches = body.latchesOf dominance.order loop.header ∧
      (∀ block, block ∈ loop.blocks.toList ↔ block = loop.header ∨ body.Reaches body.entry block ∧
        ∃ latch path, latch ∈ loop.latches ∧ Path body block path latch ∧ loop.header ∉ path) ∧
      (∀ block ∈ loop.blocks.toList, body.Dominates loop.header block) ∧
      ∀ source target, body.Reaches body.entry source → target ∈ body.succs source → source ∉ loop.blocks.toList →
        target ∈ loop.blocks.toList → target = loop.header := by
  obtain ⟨dominance, computed, solved, describes⟩ := body.dominance_total accepted
  have edges := (well_formed_of_check body accepted).edges
  obtain ⟨once, headers⟩ := loops_headers body dominance edges describes
  refine ⟨dominance, computed, body.dominance_order dominance computed, describes, once, fun head => ?_, fun loop member => ?_⟩
  · rw [← List.mem_map, headers]
    exact exists_congr fun latch => body.mem_back_edges_iff accepted dominance solved describes latch head
  · obtain ⟨made, _⟩ := loops_made body dominance edges describes loop member
    have natural := loops_natural body dominance edges describes loop member
    refine ⟨?_, body.mem_loop_iff edges loop made.closed, body.header_dominates accepted dominance solved loop natural, ?_⟩
    · rw [made.latches]
      exact body.latches_gathered accepted dominance solved describes loop.header
    · intro source target reached edge outside inside
      by_contra apart
      have pred := (edges_mem_iff body edges source target).mp edge
      exact outside ((made.closed.grown.closed target inside apart source pred reached).resolve_right List.not_mem_nil)

-- One loop around another, two edges from the last block back to the first, and a block that is not reached leads into both.
def tangle : Body where
  name := "tangle"
  entry := .nth 0
  blocks := .ofList [
    { succs := [.nth 1] },
    { succs := [.nth 2, .nth 5], preds := [.nth 0, .nth 3, .nth 3] },
    { succs := [.nth 3, .nth 2], preds := [.nth 1, .nth 2, .nth 4] },
    { succs := [.nth 1, .nth 1], preds := [.nth 2] },
    { succs := [.nth 2] },
    { preds := [.nth 1] }]
  cells := .empty
  vars := .empty

theorem tangle_loops_exact : tangle.check = .ok () ∧ ∃ dominance, tangle.dominance = .ok dominance ∧
    ∃ inner outer, tangle.loops dominance = [inner, outer] ∧ inner.header = .nth 2 ∧ inner.blocks.toList = [.nth 2] ∧
      outer.header = .nth 1 ∧ outer.blocks.toList = [.nth 1, .nth 2, .nth 3] ∧
      tangle.latchesOf dominance.order (.nth 1) = [.nth 3, .nth 3] ∧ tangle.Dominates (.nth 1) (.nth 3) ∧
      (∃ path, Path tangle (.nth 2) path (.nth 3) ∧ .nth 1 ∉ path) ∧ ¬ tangle.Reaches tangle.entry (.nth 4) := by
  have accepted : tangle.check = .ok () := by rfl
  obtain ⟨dominance, found, _, _, _, _, exactly⟩ := loops_are_exact tangle accepted
  have computed : tangle.dominance.toOption.map (fun dominance =>
      (tangle.loops dominance).map fun loop => (loop.header, loop.latches, loop.blocks.toList)) =
      some [(.nth 2, [.nth 2], [.nth 2]), (.nth 1, [.nth 3, .nth 3], [.nth 1, .nth 2, .nth 3])] := by decide +kernel
  rw [found] at computed
  obtain ⟨inner, rest, listed, innerIs, restIs⟩ := List.map_eq_cons_iff.mp (Option.some.inj computed)
  obtain ⟨outer, none, same, outerIs, noneIs⟩ := List.map_eq_cons_iff.mp restIs
  rw [same, List.map_eq_nil_iff.mp noneIs] at listed
  obtain ⟨innerHeader, innerRest⟩ := Prod.mk.inj innerIs
  obtain ⟨header, outerRest⟩ := Prod.mk.inj outerIs
  obtain ⟨latches, blocks⟩ := Prod.mk.inj outerRest
  obtain ⟨gathered, members, dominates, entered⟩ := exactly outer (listed ▸ List.mem_cons_of_mem _ List.mem_cons_self)
  rw [header] at gathered members dominates entered
  rw [blocks] at members dominates entered
  refine ⟨accepted, dominance, found, inner, outer, listed, innerHeader, (Prod.mk.inj innerRest).2, header, blocks,
    gathered.symm.trans latches, dominates (.nth 3) (by decide), ?_, ?_⟩
  · obtain ⟨_, latch, path, isLatch, leads, avoids⟩ := ((members (.nth 2)).mp (by decide)).resolve_left (by decide)
    have last : latch = .nth 3 := by simpa [latches] using isLatch
    exact ⟨path, last ▸ leads, avoids⟩
  · exact fun reached => absurd (entered (.nth 4) (.nth 2) reached (by decide) (by decide) (by decide)) (by decide)

end ThreeAddress.Body
