import ThreeAddress.Proofs.Flow.Dominators

/-!
What reverse postorder tells about edges and dominators. While the search runs, the blocks on its stack are a path from
the entry. So when a block is left, each of its successors was left before or leads back to it, and the stack is a way
to it around all the blocks that were left before. Blocks that every way passes are therefore left no sooner, and an edge
that does not advance in the reverse order has a path back.
-/

set_option autoImplicit false

namespace ThreeAddress

namespace Postorder

variable (graph : Arena .block (List Block)) (entry : Block)

-- The stack, from the top: an edge leads to each block from the one below it, and the entry is at the bottom.
inductive Spine : List Block → Prop where
  | done : Spine []
  | root : Spine [entry]
  | nest (above block : Block) (rest : List Block) (edge : Edge graph block above) (below : Spine (block :: rest)) :
      Spine (above :: block :: rest)

def Around (avoided : List Block) (block : Block) : Prop :=
  entry ∉ avoided ∧ Relation.ReflTransGen (fun source target => Edge graph source target ∧ target ∉ avoided) entry block

inductive Retired : List Block → Prop where
  | none : Retired []
  | leave (block : Block) (earlier : List Block) (before : Retired earlier)
      (ahead : ∀ succ, Edge graph block succ → succ ∈ earlier ∨ Relation.ReflTransGen (Edge graph) succ block)
      (around : Around graph entry earlier block) : Retired (block :: earlier)

variable {graph entry}

theorem spine_leads (top : Block) (rest : List Block) (spine : Spine graph entry (top :: rest)) (block : Block)
    (member : block ∈ top :: rest) : Relation.ReflTransGen (Edge graph) block top := by
  generalize whole : top :: rest = stack at spine member
  induction spine generalizing top rest with
  | done => cases member
  | root =>
    obtain ⟨rfl, rfl⟩ := List.cons.inj whole
    exact List.mem_singleton.mp member ▸ .refl
  | nest above below deeper edge _ ih =>
    obtain ⟨rfl, rfl⟩ := List.cons.inj whole
    rcases List.mem_cons.mp member with here | under
    · exact here ▸ .refl
    · exact (ih below deeper rfl under).tail edge

theorem spine_around (top : Block) (rest avoided : List Block) (spine : Spine graph entry (top :: rest))
    (apart : ∀ block ∈ top :: rest, block ∉ avoided) : Around graph entry avoided top := by
  generalize whole : top :: rest = stack at spine apart
  induction spine generalizing top rest with
  | done => cases whole
  | root =>
    obtain ⟨rfl, rfl⟩ := List.cons.inj whole
    exact ⟨apart top List.mem_cons_self, .refl⟩
  | nest above below deeper edge _ ih =>
    obtain ⟨rfl, rfl⟩ := List.cons.inj whole
    obtain ⟨topApart, restApart⟩ := List.forall_mem_cons.mp apart
    obtain ⟨entryApart, way⟩ := ih below deeper rfl restApart
    exact ⟨entryApart, way.tail ⟨edge, topApart⟩⟩

theorem spine_below (top : Block) (rest : List Block) (spine : Spine graph entry (top :: rest)) : Spine graph entry rest := by
  cases spine with
  | root => exact .done
  | nest _ _ _ _ below => exact below

theorem retired_leave (block : Block) (stack : List Frame) (seen : SideTable .block Bool) (left : List Block)
    (search : Search graph entry (⟨block, []⟩ :: stack) seen left)
    (spine : Spine graph entry ((⟨block, []⟩ :: stack : List Frame).map Frame.block)) (retired : Retired graph entry left) :
    Retired graph entry (block :: left) := by
  refine .leave block left retired (fun succ edge => ?_) (spine_around block (stack.map Frame.block) left spine ?_)
  · have later := (search.pending ⟨block, []⟩ List.mem_cons_self succ edge).resolve_left List.not_mem_nil
    obtain before | ⟨frame, member, rfl⟩ := later
    · exact .inl before
    · exact .inr (spine_leads block (stack.map Frame.block) spine frame.block (List.mem_map_of_mem (f := Frame.block) member))
  · exact fun other onStack before => (List.nodup_append.mp search.once).2.2 other before other onStack rfl

theorem visit_retires (closed : Closed graph) (steps : Nat) (stack : List Frame) (seen : SideTable .block Bool)
    (left order : List Block) (search : Search graph entry stack seen left)
    (spine : Spine graph entry (stack.map Frame.block)) (retired : Retired graph entry left)
    (done : visit graph steps stack seen left = .ok order) : Retired graph entry order.reverse := by
  fun_induction visit graph steps stack seen left with
  | case1 steps seen left =>
    cases done
    rwa [List.reverse_reverse]
  | case2 frame stack seen left => cases done
  | case3 steps block stack seen left ih =>
    exact ih (search_leave block stack seen left search) (spine_below block _ spine)
      (retired_leave block stack seen left search spine retired) done
  | case4 steps block succ rest stack seen left known ih =>
    have edge := search.untried ⟨block, succ :: rest⟩ List.mem_cons_self succ List.mem_cons_self
    have entered := (search.marked succ (closed block succ edge)).mp known
    exact ih (search_skip block succ rest stack seen left search entered) spine retired done
  | case5 steps block succ rest stack seen left unknown ih =>
    have edge := search.untried ⟨block, succ :: rest⟩ List.mem_cons_self succ List.mem_cons_self
    have inside := closed block succ edge
    have fresh := mt (search.marked succ inside).mpr unknown
    obtain ⟨succs, found⟩ := (Arena.contains_iff _ _).mp inside
    simp only [Arena.get_of_get _ _ _ found, bind, Except.bind] at done
    exact ih succs (search_enter block succ rest succs stack seen left search fresh found)
      (.nest succ block (stack.map Frame.block) edge spine) retired done

theorem compute_retires (closed : Closed graph) (order : List Block) (inside : graph.contains entry = true)
    (computed : compute graph entry = .ok order) : Retired graph entry order.reverse := by
  obtain ⟨succs, found⟩ := (Arena.contains_iff _ _).mp inside
  rw [compute, Arena.get_of_get _ _ _ found] at computed
  exact visit_retires closed _ _ _ _ order (search_start succs found) .root .none computed

theorem retired_split (front back : List Block) (block : Block) (retired : Retired graph entry (front ++ block :: back)) :
    (∀ succ, Edge graph block succ → succ ∈ back ∨ Relation.ReflTransGen (Edge graph) succ block) ∧
      Around graph entry back block := by
  induction front with
  | nil =>
    cases retired with
    | leave _ _ _ ahead around => exact ⟨ahead, around⟩
  | cons first rest ih =>
    cases retired with
    | leave _ _ before _ _ => exact ih before

end Postorder

theorem Arena.mem_entries_iff {entity : Entity} {α : Type} (arena : Arena entity α) (ref : Ref entity) (value : α) :
    (ref, value) ∈ arena.entries ↔ arena.get? ref = some value := by
  rw [entries, refs, List.mem_iff_getElem?]
  simp only [List.getElem?_zip_eq_some, List.getElem?_map, Option.map_eq_some_iff]
  cases ref with
  | invalid => simp [get?]
  | nth index =>
    constructor
    · rintro ⟨place, ⟨_, listed, same⟩, found⟩
      obtain ⟨_, rfl⟩ := List.getElem?_eq_some_iff.mp listed
      rw [← Ref.nth.inj same, List.getElem_range]
      simpa [get?, toList] using found
    · intro found
      refine ⟨index, ⟨index, List.getElem?_range (Array.getElem?_eq_some_iff.mp found).1, rfl⟩, ?_⟩
      simpa [get?, toList] using found

namespace FlowOrder

-- Blocks are written one after the other, so a block keeps its place as long as no other is written there.
theorem read_positions (entries : List (Position × Block)) (table : SideTable .block (Option Position)) (block : Block)
    (apart : entries.Pairwise fun a b => a.2.index ≠ b.2.index) (place : Position) :
    (entries.foldl (fun table (place, block) => table.write block (some place)) table).read block = some place ↔
      (∃ entry ∈ entries, entry.2.index = block.index ∧ entry.1 = place) ∨
        (∀ entry ∈ entries, entry.2.index ≠ block.index) ∧ table.read block = some place := by
  induction entries generalizing table with
  | nil => simp
  | cons entry rest ih =>
    obtain ⟨others, restApart⟩ := List.pairwise_cons.mp apart
    rw [List.foldl_cons, ih _ restApart, SideTable.read_write, List.exists_mem_cons_iff, List.forall_mem_cons]
    by_cases here : entry.2.index = block.index
    · have absent (other : Position × Block) (member : other ∈ rest) : other.2.index ≠ block.index :=
        fun same => others other member (here.trans same.symm)
      have gone : ¬ ∃ other ∈ rest, other.2.index = block.index ∧ other.1 = place :=
        fun ⟨other, member, same, _⟩ => absent other member same
      simp only [here, if_true, ne_eq, not_true_eq_false, false_and, or_false, true_and, or_iff_left gone, or_iff_right gone,
        Option.some.injEq, and_iff_right absent]
    · simp [here]

theorem read_positions_iff (rpo : Arena .rpo Block) (once : rpo.toList.Nodup)
    (valid : ∀ block ∈ rpo.toList, block.isValid = true) (block : Block) (blockValid : block.isValid = true)
    (place : Position) : (positions rpo).read block = some place ↔ rpo.get? place = some block := by
  have blocks : rpo.entries.map Prod.snd = rpo.toList := by
    rw [Arena.entries, List.map_snd_zip (by simp [Arena.refs, Arena.toList, Arena.size])]
  have listed (entry : Position × Block) (member : entry ∈ rpo.entries) : entry.2.isValid = true :=
    valid entry.2 (blocks ▸ List.mem_map_of_mem member)
  have apart : rpo.entries.Pairwise fun a b => a.2.index ≠ b.2.index := by
    rw [← blocks, List.nodup_iff_pairwise_ne, List.pairwise_map] at once
    exact once.imp_of_mem fun {a b} aListed bListed differ same =>
      differ (Ref.index_inj a.2 b.2 (listed a aListed) (listed b bListed) same)
  rw [positions, read_positions _ _ block apart, SideTable.read_blank, ← Arena.mem_entries_iff]
  constructor
  · rintro (⟨entry, member, same, rfl⟩ | ⟨_, absent⟩)
    · rwa [← Ref.index_inj entry.2 block (listed entry member) blockValid same]
    · cases absent
  · exact fun member => .inl ⟨_, member, rfl, rfl⟩

end FlowOrder

theorem mem_back_iff {α : Type} (front back : List α) (middle element : α) (once : (front ++ middle :: back).Nodup)
    (index : Nat) (found : (front ++ middle :: back)[index]? = some element) : element ∈ back ↔ front.length < index := by
  constructor
  · intro member
    obtain ⟨later, there⟩ := List.mem_iff_getElem?.mp member
    have again : (front ++ middle :: back)[front.length + (later + 1)]? = some element := by
      rw [List.getElem?_append_right (Nat.le_add_right _ _), Nat.add_sub_cancel_left, List.getElem?_cons_succ, there]
    obtain ⟨bound, here⟩ := List.getElem?_eq_some_iff.mp found
    obtain ⟨laterBound, thereAgain⟩ := List.getElem?_eq_some_iff.mp again
    have same := (List.Nodup.getElem_inj_iff once).mp (here.trans thereAgain.symm)
    omega
  · intro beyond
    obtain ⟨later, rfl⟩ := Nat.exists_eq_add_of_lt beyond
    rw [List.getElem?_append_right (by omega), show front.length + later + 1 - front.length = later + 1 by omega,
      List.getElem?_cons_succ] at found
    exact List.mem_of_getElem? found

namespace Body

variable (body : Body)

theorem path_around (avoided : List Block) (block : Block) (around : Postorder.Around body.graph body.entry avoided block) :
    ∃ path, Path body body.entry path block ∧ ∀ passed ∈ path, passed ∉ avoided := by
  obtain ⟨entryApart, way⟩ := around
  induction way with
  | refl => exact ⟨[body.entry], .here body.entry, fun passed member => List.mem_singleton.mp member ▸ entryApart⟩
  | tail _ edge ih =>
    obtain ⟨path, leads, apart⟩ := ih
    refine ⟨_, leads.extend body.entry _ _ path ((graph_edge_iff body _ _).mp edge.1), fun passed member => ?_⟩
    rcases List.mem_append.mp member with before | last
    · exact apart passed before
    · exact List.mem_singleton.mp last ▸ edge.2

section Order

variable (accepted : body.check = .ok ()) (order : FlowOrder) (found : body.flowOrder = .ok order)

include found in
theorem flow_order_parts : Postorder.compute body.graph body.entry = .ok order.postorder ∧
    order.position = FlowOrder.positions order.rpo := by
  obtain ⟨postorder, computed, made⟩ := (bind_ok_iff _ _ _).mp found
  cases made
  exact ⟨computed, rfl⟩

include accepted

omit order found in
theorem reached_valid (block : Block) (reached : body.Reaches body.entry block) : block.isValid = true := by
  have wellFormed := well_formed_of_check body accepted
  exact Arena.contains_valid body.blocks block (reaches_inside body wellFormed.edges _ _ wellFormed.entry reached)

include found

theorem flow_order_describes : order.Describes body := by
  have wellFormed := well_formed_of_check body accepted
  obtain ⟨other, again, describes⟩ := flow_order_total body wellFormed.edges wellFormed.entry
  exact Except.ok.inj (again.symm.trans found) ▸ describes

theorem flow_order_retires : Postorder.Retired body.graph body.entry order.rpo.toList := by
  have wellFormed := well_formed_of_check body accepted
  rw [(flow_order_describes body accepted order found).reversed]
  exact Postorder.compute_retires (graph_closed body wellFormed.edges) order.postorder
    ((graph_contains body body.entry).trans wellFormed.entry) (flow_order_parts body order found).1

theorem mem_rpo_iff (block : Block) : block ∈ order.rpo.toList ↔ body.Reaches body.entry block := by
  have describes := flow_order_describes body accepted order found
  rw [describes.reversed, List.mem_reverse, describes.listed]

theorem rpo_nodup : order.rpo.toList.Nodup := by
  have describes := flow_order_describes body accepted order found
  rw [describes.reversed, List.nodup_reverse]
  exact describes.once

theorem position_iff (block : Block) (valid : block.isValid = true) (place : Position) :
    order.position.read block = some place ↔ order.rpo.get? place = some block := by
  rw [(flow_order_parts body order found).2]
  refine FlowOrder.read_positions_iff order.rpo (rpo_nodup body accepted order found) (fun other member => ?_) block valid place
  exact reached_valid body accepted other ((mem_rpo_iff body accepted order found other).mp member)

theorem positioned_iff (block : Block) (valid : block.isValid = true) :
    (∃ place, order.position.read block = some place) ↔ body.Reaches body.entry block := by
  simp only [position_iff body accepted order found block valid, ← mem_rpo_iff body accepted order found]
  constructor
  · rintro ⟨place, stands⟩
    cases place with
    | invalid => cases stands
    | nth index => exact Array.mem_toList_iff.mpr (Array.mem_of_getElem? stands)
  · intro member
    obtain ⟨index, stands⟩ := List.mem_iff_getElem?.mp member
    exact ⟨.nth index, by simpa [Arena.get?, Arena.toList] using stands⟩

theorem rpo_split (block : Block) (place : Position) (stands : order.rpo.get? place = some block) :
    ∃ front back, order.rpo.toList = front ++ block :: back ∧ ∀ other otherPlace,
      order.rpo.get? otherPlace = some other → (other ∉ back ↔ (compare otherPlace place).isLE = true) := by
  have listed (place : Position) (block : Block) (stands : order.rpo.get? place = some block) :
      ∃ index, place = .nth index ∧ order.rpo.toList[index]? = some block := by
    cases place with
    | invalid => cases stands
    | nth index => exact ⟨index, rfl, by simpa [Arena.get?, Arena.toList] using stands⟩
  have once := rpo_nodup body accepted order found
  obtain ⟨index, rfl, here⟩ := listed place block stands
  obtain ⟨bound, same⟩ := List.getElem?_eq_some_iff.mp here
  have whole : order.rpo.toList = order.rpo.toList.take index ++ block :: order.rpo.toList.drop (index + 1) := by
    rw [← same, List.cons_getElem_drop_succ, List.take_append_drop]
  refine ⟨_, _, whole, fun other otherPlace otherStands => ?_⟩
  obtain ⟨otherIndex, rfl, there⟩ := listed otherPlace other otherStands
  rw [whole] at once there
  rw [mem_back_iff _ _ block other once otherIndex there, List.length_take, Nat.min_eq_left (by omega), Nat.not_lt]
  exact Nat.isLE_compare.symm

theorem dominator_precedes (above block : Block) (reached : body.Reaches body.entry block)
    (dominates : body.Dominates above block) : ∃ place later, order.position.read above = some place ∧
      order.position.read block = some later ∧ (compare place later).isLE = true := by
  obtain ⟨someway, leads⟩ := reached
  have aboveReached := (leads.between body.entry block someway above (dominates someway leads)).1
  have aboveValid := reached_valid body accepted above aboveReached
  have valid := reached_valid body accepted block ⟨someway, leads⟩
  obtain ⟨place, aboveStands⟩ := (positioned_iff body accepted order found above aboveValid).mpr aboveReached
  obtain ⟨later, stands⟩ := (positioned_iff body accepted order found block valid).mpr ⟨someway, leads⟩
  refine ⟨place, later, aboveStands, stands, ?_⟩
  rw [position_iff body accepted order found above aboveValid] at aboveStands
  rw [position_iff body accepted order found block valid] at stands
  obtain ⟨front, back, whole, ordered⟩ := rpo_split body accepted order found block later stands
  have retired := flow_order_retires body accepted order found
  rw [whole] at retired
  obtain ⟨path, around, apart⟩ := path_around body back block (Postorder.retired_split front back block retired).2
  exact (ordered above place aboveStands).mp (apart above (dominates path around))

theorem retreat_returns (source target : Block) (edge : target ∈ body.succs source)
    (retreats : order.isRetreating source target = true) : body.Reaches target source := by
  rw [FlowOrder.isRetreating] at retreats
  split at retreats
  · rename_i place earlier stands targetStands
    have edges := (well_formed_of_check body accepted).edges
    have targetValid := Arena.contains_valid body.blocks target (edges.succInside source target edge)
    have valid : source.isValid = true := by
      cases source with
      | invalid => cases edge
      | nth index => rfl
    rw [position_iff body accepted order found source valid] at stands
    rw [position_iff body accepted order found target targetValid] at targetStands
    obtain ⟨front, back, whole, ordered⟩ := rpo_split body accepted order found source place stands
    have retired := flow_order_retires body accepted order found
    rw [whole] at retired
    have ahead := (Postorder.retired_split front back source retired).1 target ((graph_edge_iff body source target).mpr edge)
    exact (reaches_iff body target source).mpr (ahead.resolve_left ((ordered target earlier targetStands).mpr retreats))
  · cases retreats

end Order

theorem reverse_postorder_respects_dominance (accepted : body.check = .ok ()) :
    ∃ dominance, body.dominance = .ok dominance ∧ body.flowOrder = .ok dominance.order ∧
      (∀ block, block.isValid = true →
        (∀ place, dominance.order.position.read block = some place ↔ dominance.order.rpo.get? place = some block) ∧
          (dominance.order.position.read block = none ↔ ¬ body.Reaches body.entry block)) ∧
      (∀ a b, body.Reaches body.entry b → dominance.dominates a b = true → ∃ place later,
        dominance.order.position.read a = some place ∧ dominance.order.position.read b = some later ∧
          (compare place later).isLE = true) ∧
      (∀ latch header, header ∈ body.succs latch → body.Reaches body.entry latch → dominance.dominates header latch = true →
        dominance.order.isRetreating latch header = true) ∧
      ∀ source target, target ∈ body.succs source → dominance.order.isRetreating source target = true →
        body.Reaches target source := by
  obtain ⟨dominance, computed, solved, _⟩ := body.dominance_total accepted
  have found : body.flowOrder = .ok dominance.order := by
    obtain ⟨facts, _, rest⟩ := (bind_ok_iff _ _ _).mp computed
    obtain ⟨order, ordered, made⟩ := (bind_ok_iff _ _ _).mp rest
    cases made
    exact ordered
  have wellFormed := well_formed_of_check body accepted
  have precedes (a b : Block) (reached : body.Reaches body.entry b) (dominates : dominance.dominates a b = true) :=
    dominator_precedes body accepted dominance.order found a b reached ((body.dominates_iff accepted dominance solved a b
      (reaches_inside body wellFormed.edges _ _ wellFormed.entry reached)).mp dominates).2
  refine ⟨dominance, computed, found, fun block valid => ?_, precedes, fun latch header _ reached dominates => ?_,
    retreat_returns body accepted dominance.order found⟩
  · refine ⟨position_iff body accepted dominance.order found block valid, ?_⟩
    rw [← positioned_iff body accepted dominance.order found block valid, ← Option.ne_none_iff_exists', not_not]
  · obtain ⟨place, later, headerStands, latchStands, notAfter⟩ := precedes header latch reached dominates
    rw [FlowOrder.isRetreating, latchStands, headerStands]
    exact notAfter

-- Two blocks that lead to each other can both be entered from outside, a block leads to itself, and one is not reached.
def crossed : Body where
  name := "crossed"
  entry := .nth 0
  blocks := .ofList [
    { succs := [.nth 1, .nth 2] },
    { succs := [.nth 2], preds := [.nth 0, .nth 2] },
    { succs := [.nth 1, .nth 3], preds := [.nth 0, .nth 1] },
    { succs := [.nth 3], preds := [.nth 2, .nth 3, .nth 4] },
    { succs := [.nth 3] }]
  cells := .empty
  vars := .empty

theorem crossed_order : crossed.check = .ok () ∧ ∃ dominance, crossed.dominance = .ok dominance ∧
    dominance.order.isRetreating (.nth 3) (.nth 3) = true ∧ dominance.dominates (.nth 1) (.nth 2) = false ∧
    dominance.order.isRetreating (.nth 2) (.nth 1) = true ∧ crossed.Reaches (.nth 1) (.nth 2) ∧
    ¬ crossed.Reaches crossed.entry (.nth 4) := by
  have accepted : crossed.check = .ok () := by rfl
  obtain ⟨dominance, computed, _, positions, _, backEdges, retreats⟩ := reverse_postorder_respects_dominance crossed accepted
  have evaluated : crossed.dominance.toOption.map (fun dominance => (dominance.dominates (.nth 3) (.nth 3),
      dominance.dominates (.nth 1) (.nth 2), dominance.order.isRetreating (.nth 2) (.nth 1),
      dominance.order.position.read (.nth 3), dominance.order.position.read (.nth 4))) =
        some (true, false, true, some (.nth 3), none) := by
    decide +kernel
  rw [computed] at evaluated
  simp only [Except.toOption, Option.map_some, Option.some.injEq, Prod.mk.injEq] at evaluated
  obtain ⟨loops, apart, retreating, stands, away⟩ := evaluated
  have reached : crossed.Reaches crossed.entry (.nth 3) := by
    by_contra unreached
    rw [(positions (.nth 3) rfl).2.mpr unreached] at stands
    cases stands
  refine ⟨accepted, dominance, computed, backEdges _ _ (by decide) reached loops, apart, retreating,
    retreats _ _ (by decide) retreating, (positions (.nth 4) rfl).2.mp away⟩

end Body

end ThreeAddress
