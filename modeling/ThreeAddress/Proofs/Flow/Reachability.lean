import ThreeAddress.Flow.Order
import ThreeAddress.Flow.Path
import ThreeAddress.Proofs.Flow.Search

/-!
The flow order of a body lists the blocks that some path from the entry leads to, each once, and tells them
from the others.
-/

set_option autoImplicit false

namespace ThreeAddress

structure FlowOrder.Describes (order : FlowOrder) (body : Body) : Prop where
  entry : order.entry = body.entry
  once : order.postorder.Nodup
  listed : ∀ block, block ∈ order.postorder ↔ body.Reaches body.entry block
  reversed : order.rpo.toList = order.postorder.reverse
  reachable : ∀ block, body.blocks.contains block = true →
    (order.isReachable block = true ↔ body.Reaches body.entry block)

theorem positions_read (entries : List (Position × Block)) (table : SideTable .block (Option Position)) (block : Block) :
    ((entries.foldl (fun table (place, block) => table.write block (some place)) table).read block).isSome = true ↔
      (∃ entry ∈ entries, entry.2.index = block.index) ∨ (table.read block).isSome = true := by
  induction entries generalizing table with
  | nil => simp
  | cons entry rest ih =>
    rw [List.foldl_cons, ih, SideTable.read_write]
    by_cases same : entry.2.index = block.index
    · simp [same]
    · simp [same]

theorem Ref.index_inj {entity : Entity} (a b : Ref entity) (aValid : a.isValid = true) (bValid : b.isValid = true)
    (same : a.index = b.index) : a = b := by
  cases a with
  | invalid => cases aValid
  | nth place =>
    cases b with
    | invalid => cases bValid
    | nth index => exact congrArg Ref.nth same

theorem Arena.contains_valid {entity : Entity} {α : Type} (arena : Arena entity α) (ref : Ref entity)
    (inside : arena.contains ref = true) : ref.isValid = true := by
  cases ref with
  | invalid => cases inside
  | nth index => rfl

namespace Body

theorem graph_get (body : Body) (block : Block) :
    body.graph.get? block = (body.blocks.get? block).map BasicBlock.succs := by
  cases block <;> simp [graph, Arena.map, Arena.get?]

theorem graph_contains (body : Body) (block : Block) : body.graph.contains block = body.blocks.contains block := by
  cases block <;> simp [graph, Arena.map, Arena.contains]

theorem graph_edge_iff (body : Body) (source target : Block) :
    Postorder.Edge body.graph source target ↔ target ∈ body.succs source := by
  rw [Postorder.Edge, graph_get, succs]
  cases body.blocks.get? source <;> simp

theorem reaches_iff (body : Body) (source target : Block) :
    body.Reaches source target ↔ Relation.ReflTransGen (Postorder.Edge body.graph) source target := by
  constructor
  · intro reaches
    obtain ⟨blocks, path⟩ := reaches
    induction path with
    | here => exact .refl
    | step source succ target _ edge _ ih => exact .head ((graph_edge_iff body source succ).mpr edge) ih
  · intro leads
    induction leads using Relation.ReflTransGen.head_induction_on with
    | refl => exact reaches_self body target
    | head edge _ ih => exact reaches_of_edge body _ _ target ((graph_edge_iff body _ _).mp edge) ih

theorem reaches_trans (body : Body) (source middle target : Block) (first : body.Reaches source middle)
    (second : body.Reaches middle target) : body.Reaches source target := by
  obtain ⟨front, frontPath⟩ := first
  obtain ⟨back, backPath⟩ := second
  exact ⟨_, Path.append source middle target front back frontPath backPath⟩

theorem reaches_succ (body : Body) (block succ : Block) (reached : body.Reaches body.entry block)
    (edge : succ ∈ body.succs block) : body.Reaches body.entry succ :=
  reaches_trans body _ block succ reached (reaches_of_edge body block succ succ edge (reaches_self body succ))

theorem reaches_inside (body : Body) (edges : body.EdgesAgree) (source target : Block)
    (inside : body.blocks.contains source = true) (reaches : body.Reaches source target) :
    body.blocks.contains target = true := by
  obtain ⟨blocks, path⟩ := reaches
  induction path with
  | here => exact inside
  | step source succ _ _ edge _ ih => exact ih (edges.succInside source succ edge)

theorem graph_closed (body : Body) (edges : body.EdgesAgree) : Postorder.Closed body.graph := by
  intro source target edge
  rw [graph_contains]
  exact edges.succInside source target ((graph_edge_iff body source target).mp edge)

theorem flow_order_total (body : Body) (edges : body.EdgesAgree) (inside : body.blocks.contains body.entry = true) :
    ∃ order, body.flowOrder = .ok order ∧ order.Describes body := by
  obtain ⟨postorder, computed, once, members⟩ :=
    Postorder.compute_total (graph_closed body edges) ((graph_contains body body.entry).trans inside)
  have listed (block : Block) : block ∈ postorder ↔ body.Reaches body.entry block :=
    (members block).trans (reaches_iff body body.entry block).symm
  refine ⟨_, by rw [flowOrder, computed]; rfl, rfl, once, listed, by simp [Arena.toList, Arena.ofList], ?_⟩
  intro block blockInside
  rw [FlowOrder.isReachable, FlowOrder.positions, positions_read, ← listed]
  have same : ((Arena.ofList postorder.reverse : Arena .rpo Block).entries.map Prod.snd) = postorder.reverse := by
    rw [Arena.entries, List.map_snd_zip (by simp [Arena.refs, Arena.toList, Arena.size])]
    simp [Arena.toList, Arena.ofList]
  constructor
  · intro found
    obtain ⟨entry, member, collide⟩ := found.resolve_right (by simp [SideTable.read_blank])
    have inOrder : entry.2 ∈ postorder := by
      rw [← List.mem_reverse, ← same]
      exact List.mem_map_of_mem member
    have entryInside := reaches_inside body edges _ _ inside ((listed _).mp inOrder)
    rw [Ref.index_inj entry.2 block (Arena.contains_valid _ _ entryInside) (Arena.contains_valid _ _ blockInside) collide]
      at inOrder
    exact inOrder
  · intro member
    rw [← List.mem_reverse, ← same] at member
    obtain ⟨entry, inEntries, here⟩ := List.mem_map.mp member
    exact .inl ⟨entry, inEntries, congrArg Ref.index here⟩

end Body

end ThreeAddress
