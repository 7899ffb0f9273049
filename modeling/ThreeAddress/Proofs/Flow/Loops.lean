import Mathlib.Algebra.Order.BigOperators.Group.List
import Mathlib.Algebra.Order.Group.Nat
import ThreeAddress.Flow.Loops
import ThreeAddress.Proofs.Flow.Reachability
import ThreeAddress.Proofs.OrderedSet.Membership

/-!
The loops of a body: control enters one at its header only, and every block of it leads to a back edge without
passing the header.
-/

set_option autoImplicit false

attribute [local instance] ThreeAddress.plainZero

namespace ThreeAddress

variable (body : Body) (order : FlowOrder) (head : Block)

namespace Loop

def Returns (latches : Block → Prop) (block : Block) : Prop :=
  ∃ latch blocks, latches latch ∧ Path body block blocks latch ∧ head ∉ blocks

-- A set of blocks while it grows, with the blocks that still have to be looked at.
structure Growing (latches : Block → Prop) (stack : List Block) (blocks : OrderedSet Block) : Prop where
  sound : blocks.Sound
  entered : head ∈ blocks.toList
  inside : ∀ block, block ∈ blocks.toList ∨ block ∈ stack → body.blocks.contains block = true
  closed : ∀ block ∈ blocks.toList, block ≠ head → ∀ pred ∈ body.preds block, body.Reaches body.entry pred →
    pred ∈ blocks.toList ∨ pred ∈ stack
  returns : ∀ block, block ∈ blocks.toList ∨ block ∈ stack → block ≠ head → Returns body head latches block

-- What it costs to look at a block that is not in the set: one step for each predecessor.
def ahead (blocks : OrderedSet Block) (block : Block) : Nat :=
  if blocks.contains block then 0 else (body.preds block).length

def stepsAhead (stack : List Block) (blocks : OrderedSet Block) : Nat :=
  stack.length + (body.blocks.refs.map (ahead body blocks)).sum

theorem steps_ahead_adding (block : Block) (stack : List Block) (blocks : OrderedSet Block) (sound : blocks.Sound)
    (inside : body.blocks.contains block = true) (fresh : blocks.contains block = false) :
    stepsAhead body ((body.preds block).reverse ++ stack) (blocks.adding block) + 1 = stepsAhead body (block :: stack) blocks := by
  have added (other : Block) : (blocks.adding block).contains other = true ↔ other = block ∨ blocks.contains other = true := by
    rw [OrderedSet.contains_iff _ (OrderedSet.sound_adding blocks sound block), OrderedSet.mem_adding blocks sound,
      OrderedSet.contains_iff blocks sound]
  have moves := sum_map_update body.blocks.refs block (ahead body blocks) (ahead body (blocks.adding block))
    (Arena.refs_nodup body.blocks) ((Arena.mem_refs_iff _ _).mpr inside) fun other _ apart => by
      have same : (blocks.adding block).contains other = blocks.contains other :=
        Bool.eq_iff_iff.mpr ((added other).trans (or_iff_right apart))
      rw [ahead, ahead, same]
  have before : ahead body blocks block = (body.preds block).length := by rw [ahead, fresh]; rfl
  have after : ahead body (blocks.adding block) block = 0 := by rw [ahead, (added block).mpr (.inl rfl)]; rfl
  rw [before, after] at moves
  simp only [stepsAhead, List.length_append, List.length_reverse, List.length_cons]
  omega

theorem growing_skip (latches : Block → Prop) (block : Block) (stack : List Block) (blocks : OrderedSet Block)
    (growing : Growing body head latches (block :: stack) blocks)
    (settled : block ∈ blocks.toList ∨ ¬ body.Reaches body.entry block) : Growing body head latches stack blocks where
  sound := growing.sound
  entered := growing.entered
  inside := fun other member => growing.inside other (member.imp_right (List.mem_cons_of_mem _))
  closed := fun other member apart pred edge reached => by
    rcases growing.closed other member apart pred edge reached with here | waits
    · exact .inl here
    · rcases List.mem_cons.mp waits with same | later
      · exact .inl (settled.elim (same ▸ id) fun unreached => (unreached (same ▸ reached)).elim)
      · exact .inr later
  returns := fun other member => growing.returns other (member.imp_right (List.mem_cons_of_mem _))

theorem growing_add (edges : body.EdgesAgree) (latches : Block → Prop) (block : Block) (stack : List Block)
    (blocks : OrderedSet Block) (growing : Growing body head latches (block :: stack) blocks) (fresh : block ∉ blocks.toList) :
    Growing body head latches ((body.preds block).reverse ++ stack) (blocks.adding block) := by
  have added := OrderedSet.mem_adding blocks growing.sound block
  have apart : block ≠ head := fun same => fresh (same ▸ growing.entered)
  have returns := growing.returns block (.inr List.mem_cons_self) apart
  refine ⟨OrderedSet.sound_adding blocks growing.sound block, (added head).mpr (.inr growing.entered), ?_, ?_, ?_⟩
  · intro other member
    rw [added, List.mem_append, List.mem_reverse] at member
    rcases member with (same | here) | edge | waits
    · exact same ▸ growing.inside block (.inr List.mem_cons_self)
    · exact growing.inside other (.inl here)
    · exact edges.predInside block other edge
    · exact growing.inside other (.inr (List.mem_cons_of_mem _ waits))
  · intro other member different pred edge reached
    rw [added, List.mem_append, List.mem_reverse]
    rcases (added other).mp member with same | here
    · exact .inr (.inl (same ▸ edge))
    · rcases growing.closed other here different pred edge reached with known | waits
      · exact .inl (.inr known)
      · rcases List.mem_cons.mp waits with same | later
        · exact .inl (.inl same)
        · exact .inr (.inr later)
  · intro other member different
    rw [added, List.mem_append, List.mem_reverse] at member
    rcases member with (same | here) | edge | waits
    · exact same ▸ returns
    · exact growing.returns other (.inl here) different
    · obtain ⟨latch, passed, isLatch, path, avoids⟩ := returns
      have leads := (Body.edges_mem_iff body edges other block).mpr edge
      refine ⟨latch, other :: passed, isLatch, .step other block latch passed leads path, fun member => ?_⟩
      exact (List.mem_cons.mp member).elim (fun same => different same.symm) avoids
    · exact growing.returns other (.inr (List.mem_cons_of_mem _ waits)) different

theorem settled_of_skipped (describes : order.Describes body) (block : Block) (blocks : OrderedSet Block)
    (sound : blocks.Sound) (inside : body.blocks.contains block = true)
    (stays : ¬ (order.isReachable block && !blocks.contains block) = true) :
    block ∈ blocks.toList ∨ ¬ body.Reaches body.entry block := by
  rw [← OrderedSet.contains_iff blocks sound, ← describes.reachable block inside]
  by_cases known : blocks.contains block = true
  · exact .inl known
  · refine .inr fun reachable => stays ?_
    simp [reachable, known]

theorem grow_complete (edges : body.EdgesAgree) (describes : order.Describes body) (latches : Block → Prop) (steps : Nat)
    (stack : List Block) (blocks : OrderedSet Block) (growing : Growing body head latches stack blocks)
    (enough : stepsAhead body stack blocks ≤ steps) :
    Growing body head latches [] (grow body order steps stack blocks) ∧
      ∀ block, block ∈ blocks.toList ∨ block ∈ stack ∧ body.Reaches body.entry block →
        block ∈ (grow body order steps stack blocks).toList := by
  fun_induction grow body order steps stack blocks with
  | case1 steps blocks => exact ⟨growing, fun block member => member.elim id fun waits => (List.not_mem_nil waits.1).elim⟩
  | case2 block stack blocks =>
    simp only [stepsAhead, List.length_cons] at enough
    omega
  | case3 steps block stack blocks grows ih =>
    obtain ⟨reachable, absent⟩ := (Bool.and_eq_true_iff).mp grows
    have fresh : blocks.contains block = false := by simpa using absent
    have outside := (OrderedSet.contains_eq_false_iff blocks growing.sound block).mp fresh
    have inside := growing.inside block (.inr List.mem_cons_self)
    have step := steps_ahead_adding body block stack blocks growing.sound inside fresh
    obtain ⟨done, keeps⟩ := ih (growing_add body head edges latches block stack blocks growing outside) (by omega)
    refine ⟨done, fun other member => keeps other ?_⟩
    rw [OrderedSet.mem_adding blocks growing.sound]
    rcases member with here | ⟨waits, reached⟩
    · exact .inl (.inr here)
    · rcases List.mem_cons.mp waits with same | later
      · exact .inl (.inl same)
      · exact .inr ⟨List.mem_append_right _ later, reached⟩
  | case4 steps block stack blocks stays ih =>
    have inside := growing.inside block (.inr List.mem_cons_self)
    have settled := settled_of_skipped body order describes block blocks growing.sound inside stays
    simp only [stepsAhead, List.length_cons] at enough
    obtain ⟨done, keeps⟩ := ih (growing_skip body head latches block stack blocks growing settled)
      (by simp only [stepsAhead]; omega)
    refine ⟨done, fun other member => keeps other ?_⟩
    rcases member with here | ⟨waits, reached⟩
    · exact .inl here
    · rcases List.mem_cons.mp waits with same | later
      · exact settled.elim (fun known => .inl (same ▸ known)) fun unreached => (unreached (same ▸ reached)).elim
      · exact .inr ⟨later, reached⟩

theorem grow_reached (describes : order.Describes body) (edges : body.EdgesAgree) (steps : Nat) (stack : List Block)
    (blocks : OrderedSet Block) (sound : blocks.Sound) (inside : ∀ block ∈ stack, body.blocks.contains block = true)
    (reached : ∀ block ∈ blocks.toList, body.Reaches body.entry block) :
    ∀ block ∈ (grow body order steps stack blocks).toList, body.Reaches body.entry block := by
  fun_induction grow body order steps stack blocks with
  | case1 => exact reached
  | case2 => exact reached
  | case3 steps block stack blocks grows ih =>
    obtain ⟨reachable, _⟩ := Bool.and_eq_true_iff.mp grows
    have here := (describes.reachable block (inside block List.mem_cons_self)).mp reachable
    refine ih (OrderedSet.sound_adding blocks sound block) (fun other member => ?_) fun other member => ?_
    · rcases List.mem_append.mp member with pred | later
      · exact edges.predInside block other (List.mem_reverse.mp pred)
      · exact inside other (List.mem_cons_of_mem _ later)
    · rcases (OrderedSet.mem_adding blocks sound block other).mp member with same | known
      · exact same ▸ here
      · exact reached other known
  | case4 steps block stack blocks _ ih => exact ih sound (fun other later => inside other (List.mem_cons_of_mem _ later)) reached

theorem steps_ahead_le (latch : Block) (blocks : OrderedSet Block) : stepsAhead body [latch] blocks ≤ growSteps body := by
  have same : body.blocks.refs.map (fun block => (body.preds block).length) =
      body.blocks.toList.map fun data => data.preds.length := by
    refine List.ext_getElem (by simp [Arena.refs, Arena.toList, Arena.size]) fun index bound _ => ?_
    have inside : index < body.blocks.slots.size := by simpa [Arena.refs, Arena.size] using bound
    simp [Arena.refs, Arena.toList, Body.preds, Arena.get?, inside]
  have fewer : (body.blocks.refs.map (ahead body blocks)).sum ≤ (body.blocks.refs.map fun block => (body.preds block).length).sum := by
    apply List.sum_le_sum
    intro block _
    rw [ahead]
    split
    · exact Nat.zero_le _
    · exact Nat.le_refl _
  rw [same] at fewer
  simp only [stepsAhead, growSteps, List.length_singleton]
  omega

structure Closed (loop : Loop) : Prop where
  grown : Growing body loop.header (· ∈ loop.latches) [] loop.blocks
  latched : ∀ latch ∈ loop.latches, latch ∈ loop.blocks.toList
  reached : ∀ block ∈ loop.blocks.toList, body.Reaches body.entry block

theorem growing_weaken (latches others : Block → Prop) (weaker : ∀ latch, latches latch → others latch) (stack : List Block)
    (blocks : OrderedSet Block) (growing : Growing body head latches stack blocks) : Growing body head others stack blocks where
  sound := growing.sound
  entered := growing.entered
  inside := growing.inside
  closed := growing.closed
  returns := fun block member apart => by
    obtain ⟨latch, path, isLatch, leads, avoids⟩ := growing.returns block member apart
    exact ⟨latch, path, weaker latch isLatch, leads, avoids⟩

def Natural (dominance : Dominance) (loop : Loop) : Prop :=
  Growing body loop.header (fun latch => dominance.dominates loop.header latch = true) [] loop.blocks

theorem preheader_spec (loop : Loop) (pre : Block) (found : loop.preheader? body = some pre) :
    pre ∈ body.preds loop.header ∧ loop.contains pre = false ∧
      (∀ pred ∈ body.preds loop.header, loop.contains pred = false → pred = pre) ∧
      ∀ succ ∈ body.succs pre, succ = loop.header := by
  rw [preheader?] at found
  split at found
  · cases found
  · rename_i first others outside
    split at found
    · rename_i alone
      cases found
      obtain ⟨same, flows⟩ := Bool.and_eq_true_iff.mp alone
      have listed (pred : Block) : pred ∈ body.preds loop.header ∧ loop.contains pred = false ↔ pred ∈ pre :: others := by
        rw [← outside, List.mem_filter, Bool.not_eq_true']
      have here := (listed pre).mpr List.mem_cons_self
      refine ⟨here.1, here.2, fun pred edge apart => ?_, fun succ edge => ?_⟩
      · rcases List.mem_cons.mp ((listed pred).mp ⟨edge, apart⟩) with first | other
        · exact first
        · exact beq_iff_eq.mp (List.all_eq_true.mp same pred other)
      · exact beq_iff_eq.mp (List.all_eq_true.mp flows succ edge)
    · cases found

end Loop

namespace Body

theorem insert_by_size_perm (loop : Loop) (loops : List Loop) : (insertBySize loop loops).Perm (loop :: loops) := by
  induction loops with
  | nil => exact .refl _
  | cons first rest ih =>
    rw [insertBySize]
    split
    · exact .refl _
    · exact (ih.cons first).trans (.swap loop first rest)

theorem sorted_perm (values sorted : List Loop) :
    (values.foldl (fun sorted loop => insertBySize loop sorted) sorted).Perm (values ++ sorted) := by
  induction values generalizing sorted with
  | nil => exact .refl _
  | cons first rest ih => exact (ih _).trans (((insert_by_size_perm first sorted).append_left rest).trans List.perm_middle)

theorem insert_by_size_sorted (loop : Loop) (loops : List Loop) (sorted : loops.Pairwise fun a b => a.blocks.size ≤ b.blocks.size) :
    (insertBySize loop loops).Pairwise fun a b => a.blocks.size ≤ b.blocks.size := by
  induction loops with
  | nil => exact List.pairwise_singleton _ loop
  | cons first rest ih =>
    obtain ⟨least, restSorted⟩ := List.pairwise_cons.mp sorted
    rw [insertBySize]
    split
    · rename_i smaller
      refine List.pairwise_cons.mpr ⟨fun other member => ?_, sorted⟩
      rcases List.mem_cons.mp member with same | later
      · exact same ▸ Nat.le_of_lt smaller
      · exact Nat.le_trans (Nat.le_of_lt smaller) (least other later)
    · rename_i larger
      refine List.pairwise_cons.mpr ⟨fun other member => ?_, ih restSorted⟩
      rcases List.mem_cons.mp ((insert_by_size_perm loop rest).mem_iff.mp member) with same | later
      · exact same ▸ Nat.le_of_not_lt larger
      · exact least other later

theorem loops_sorted (dominance : Dominance) : (body.loops dominance).Pairwise fun a b => a.blocks.size ≤ b.blocks.size := by
  rw [loops]
  generalize (List.foldl (body.extendLoop dominance.order) .empty (body.backEdges dominance)).values = values
  exact List.foldlRecOn (motive := fun sorted => sorted.Pairwise fun a b => a.blocks.size ≤ b.blocks.size) values _ .nil
    fun sorted before loop _ => insert_by_size_sorted loop sorted before

section Natural

variable (dominance : Dominance) (edges : body.EdgesAgree) (describes : dominance.order.Describes body)

theorem back_edges_iff (describes : dominance.order.Describes body) (latch head : Block) : (latch, head) ∈ body.backEdges dominance ↔
    body.Reaches body.entry latch ∧ head ∈ body.succs latch ∧ dominance.dominates head latch = true := by
  rw [backEdges, List.mem_flatMap, ← describes.listed latch]
  constructor
  · intro ⟨source, listed, made⟩
    obtain ⟨target, flows, same⟩ := List.mem_map.mp made
    cases same
    rw [describes.reversed, List.mem_reverse] at listed
    exact ⟨listed, List.mem_filter.mp flows⟩
  · intro ⟨listed, flows⟩
    refine ⟨latch, ?_, List.mem_map.mpr ⟨head, List.mem_filter.mpr flows, rfl⟩⟩
    rw [describes.reversed, List.mem_reverse]
    exact listed

structure LoopOf (made : List (Block × Block)) (head : Block) (loop : Loop) : Prop where
  named : loop.header = head
  closed : loop.Closed body
  latches : loop.latches = (made.filter (·.2 = head)).map Prod.fst

structure LoopsOf (made : List (Block × Block)) (loops : OrderedMap Block Loop) : Prop where
  sound : loops.Sound
  listed : ∀ latch head, (latch, head) ∈ made → ∃ loop, (head, loop) ∈ loops.toList
  each : ∀ head loop, (head, loop) ∈ loops.toList → LoopOf body made head loop
  returning : ∀ head loop, (head, loop) ∈ loops.toList → loop.latches ≠ []

theorem loops_of_none : LoopsOf body [] .empty where
  sound := OrderedMap.sound_empty
  listed := fun _ _ member => (List.not_mem_nil member).elim
  each := fun _ _ member => (List.not_mem_nil member).elim
  returning := fun _ _ member => (List.not_mem_nil member).elim

theorem loop_of_fresh (made : List (Block × Block)) (inside : body.blocks.contains head = true) (reached : body.Reaches body.entry head)
    (unmade : ∀ latch, (latch, head) ∉ made) : LoopOf body made head ⟨head, [], .ofList [head]⟩ := by
  have only (block : Block) (member : block ∈ (OrderedSet.ofList [head]).toList ∨ block ∈ []) : block = head := by
    have listed := member.resolve_right List.not_mem_nil
    rwa [OrderedSet.mem_of_list, List.mem_singleton] at listed
  refine ⟨rfl, ⟨⟨OrderedSet.sound_of_list _, (OrderedSet.mem_of_list _ _).mpr List.mem_cons_self, ?_, ?_, ?_⟩, ?_, ?_⟩, ?_⟩
  · exact fun block member => only block member ▸ inside
  · exact fun block member apart => (apart (only block (.inl member))).elim
  · exact fun block member apart => (apart (only block member)).elim
  · exact fun latch member => (List.not_mem_nil member).elim
  · exact fun block member => only block (.inl member) ▸ reached
  · have none : made.filter (·.2 = head) = [] := List.filter_eq_nil_iff.mpr fun edge member same =>
      unmade edge.1 (of_decide_eq_true same ▸ member)
    rw [none]
    rfl

theorem loop_of_known (made : List (Block × Block)) (loops : OrderedMap Block Loop) (before : LoopsOf body made loops)
    (inside : body.blocks.contains head = true) (reached : body.Reaches body.entry head) :
    LoopOf body made head ((loops.get? head).getD ⟨head, [], .ofList [head]⟩) := by
  cases found : loops.get? head with
  | some known => exact before.each head known ((OrderedMap.get_eq_some_iff loops before.sound head known).mp found)
  | none =>
    refine loop_of_fresh body head made inside reached fun latch earlier => ?_
    obtain ⟨other, listed⟩ := before.listed latch head earlier
    rw [(OrderedMap.get_eq_some_iff loops before.sound head other).mpr listed] at found
    cases found

include edges describes

theorem loop_of_grown (made : List (Block × Block)) (loop : Loop) (before : LoopOf body made head loop) (latch : Block)
    (reached : body.Reaches body.entry latch) (inside : body.blocks.contains latch = true) :
    LoopOf body (made ++ [(latch, head)]) head { loop with
      latches := loop.latches ++ [latch]
      blocks := Loop.grow body dominance.order (Loop.growSteps body) [latch] loop.blocks } := by
  obtain ⟨named, ⟨grown, latched, allReached⟩, latches⟩ := before
  have insideAll : ∀ block ∈ [latch], body.blocks.contains block = true := fun block member => List.mem_singleton.mp member ▸ inside
  have started : Loop.Growing body loop.header (· ∈ loop.latches ++ [latch]) [latch] loop.blocks := by
    refine ⟨grown.sound, grown.entered, ?_, ?_, ?_⟩
    · exact fun block member => member.elim (fun here => grown.inside block (.inl here)) (insideAll block)
    · exact fun block member apart pred edge reached => .inl ((grown.closed block member apart pred edge reached).resolve_right
        List.not_mem_nil)
    · intro block member apart
      rcases member with here | waits
      · obtain ⟨other, path, isLatch, leads, avoids⟩ := grown.returns block (.inl here) apart
        exact ⟨other, path, List.mem_append_left _ isLatch, leads, avoids⟩
      · have same := List.mem_singleton.mp waits
        rw [same] at apart ⊢
        exact ⟨latch, [latch], List.mem_append_right _ List.mem_cons_self, .here latch,
          fun member => apart (List.mem_singleton.mp member).symm⟩
  obtain ⟨complete, keeps⟩ := Loop.grow_complete body dominance.order loop.header edges describes _ (Loop.growSteps body) [latch]
    loop.blocks started (Loop.steps_ahead_le body latch loop.blocks)
  refine ⟨named, ⟨complete, fun other isLatch => ?_, ?_⟩, ?_⟩
  · rcases List.mem_append.mp isLatch with earlier | last
    · exact keeps other (.inl (latched other earlier))
    · exact keeps other (.inr ⟨last, List.mem_singleton.mp last ▸ reached⟩)
  · exact Loop.grow_reached body dominance.order describes edges (Loop.growSteps body) [latch] loop.blocks grown.sound insideAll
      allReached
  · have last : [(latch, head)].filter (·.2 = head) = [(latch, head)] := List.filter_cons_of_pos (decide_eq_true rfl)
    rw [latches, List.filter_append, last, List.map_append]
    rfl

theorem loops_of_extended (made : List (Block × Block)) (loops : OrderedMap Block Loop) (before : LoopsOf body made loops)
    (latch head : Block) (reached : body.Reaches body.entry latch) (edge : head ∈ body.succs latch) :
    LoopsOf body (made ++ [(latch, head)]) (body.extendLoop dominance.order loops (latch, head)) := by
  let loop := (loops.get? head).getD ⟨head, [], .ofList [head]⟩
  have pred := (edges_mem_iff body edges latch head).mp edge
  have headReached := body.reaches_succ latch head reached edge
  have known : LoopOf body made head loop :=
    loop_of_known body head made loops before (edges.succInside latch head edge) headReached
  have grown := loop_of_grown body head dominance edges describes made loop known latch reached (edges.predInside head latch pred)
  have entries := OrderedMap.mem_set loops before.sound head
    (some { loop with latches := loop.latches ++ [latch], blocks := Loop.grow body dominance.order (Loop.growSteps body) [latch] loop.blocks })
  refine ⟨OrderedMap.sound_insert loops before.sound head _, fun source target listed => ?_, fun other found member => ?_,
    fun other found member => ?_⟩
  · by_cases same : target = head
    · exact ⟨_, (entries target _).mpr (.inl ⟨same, rfl⟩)⟩
    · rcases List.mem_append.mp listed with earlier | last
      · obtain ⟨kept, present⟩ := before.listed source target earlier
        exact ⟨kept, (entries target kept).mpr (.inr ⟨same, present⟩)⟩
      · cases List.mem_singleton.mp last
        exact (same rfl).elim
  · rcases (entries other found).mp member with ⟨same, insert⟩ | ⟨apart, kept⟩
    · cases insert
      exact same ▸ grown
    · obtain ⟨named, closed, latches⟩ := before.each other found kept
      have none : [(latch, head)].filter (·.2 = other) = [] :=
        List.filter_cons_of_neg fun same => apart (of_decide_eq_true same).symm
      refine ⟨named, closed, ?_⟩
      rw [latches, List.filter_append, none, List.append_nil]
  · rcases (entries other found).mp member with ⟨_, insert⟩ | ⟨_, kept⟩
    · cases insert
      exact List.append_ne_nil_of_right_ne_nil _ (List.cons_ne_nil _ _)
    · exact before.returning other found kept

theorem loops_of_all (rest made : List (Block × Block)) (each : ∀ edge ∈ rest, edge ∈ body.backEdges dominance)
    (loops : OrderedMap Block Loop) (before : LoopsOf body made loops) :
    LoopsOf body (made ++ rest) (rest.foldl (body.extendLoop dominance.order) loops) := by
  induction rest generalizing made loops with
  | nil => exact (List.append_nil made).symm ▸ before
  | cons edge rest ih =>
    obtain ⟨reached, leads, _⟩ := (back_edges_iff body dominance describes edge.1 edge.2).mp (each edge List.mem_cons_self)
    rw [List.append_cons]
    exact ih _ (fun edge member => each edge (List.mem_cons_of_mem _ member)) _
      (loops_of_extended body dominance edges describes made loops before edge.1 edge.2 reached leads)

theorem loops_made (loop : Loop) (member : loop ∈ body.loops dominance) :
    LoopOf body (body.backEdges dominance) loop.header loop ∧ loop.latches ≠ [] := by
  have all := loops_of_all body dominance edges describes (body.backEdges dominance) [] (fun _ => id) .empty (loops_of_none body)
  have value := (sorted_perm _ []).mem_iff.mp member
  rw [List.append_nil] at value
  obtain ⟨entry, listed, same⟩ := List.mem_map.mp value
  have made := all.each entry.1 entry.2 listed
  have returning := all.returning entry.1 entry.2 listed
  rw [same] at made returning
  exact ⟨made.named ▸ made, returning⟩

theorem loops_listed (loop : Loop) (member : loop ∈ body.loops dominance) : loop.Closed body ∧ loop.latches ≠ [] ∧
    ∀ latch, latch ∈ loop.latches ↔
      body.Reaches body.entry latch ∧ loop.header ∈ body.succs latch ∧ dominance.dominates loop.header latch = true := by
  obtain ⟨made, returning⟩ := loops_made body dominance edges describes loop member
  refine ⟨made.closed, returning, fun latch => Iff.trans ?_ (back_edges_iff body dominance describes latch loop.header)⟩
  rw [made.latches, List.mem_map]
  constructor
  · rintro ⟨edge, listed, source⟩
    obtain ⟨isEdge, target⟩ := List.mem_filter.mp listed
    rwa [← source, ← of_decide_eq_true target]
  · exact fun isEdge => ⟨(latch, loop.header), List.mem_filter.mpr ⟨isEdge, decide_eq_true rfl⟩, rfl⟩

theorem loops_headers : ((body.loops dominance).map Loop.header).Nodup ∧
    ∀ head, head ∈ (body.loops dominance).map Loop.header ↔ ∃ latch, (latch, head) ∈ body.backEdges dominance := by
  have all := loops_of_all body dominance edges describes (body.backEdges dominance) [] (fun _ => id) .empty (loops_of_none body)
  have listed : ((body.loops dominance).map Loop.header).Perm
      ((((body.backEdges dominance).foldl (body.extendLoop dominance.order) .empty).values ++ []).map Loop.header) :=
    (sorted_perm _ []).map Loop.header
  generalize (body.backEdges dominance).foldl (body.extendLoop dominance.order) .empty = byHeader at all listed
  have keys : byHeader.values.map Loop.header = byHeader.keys := by
    rw [OrderedMap.values, OrderedMap.keys, List.map_map]
    exact List.map_congr_left fun entry member => (all.each entry.1 entry.2 member).named
  rw [List.append_nil, keys] at listed
  refine ⟨listed.nodup_iff.mpr (keys_nodup byHeader.toList all.sound.ascends), fun head => listed.mem_iff.trans ?_⟩
  rw [OrderedMap.keys, List.mem_map]
  constructor
  · rintro ⟨entry, member, same⟩
    obtain ⟨latch, isLatch⟩ := List.exists_mem_of_ne_nil _ (all.returning entry.1 entry.2 member)
    rw [(all.each entry.1 entry.2 member).latches, same] at isLatch
    obtain ⟨edge, isEdge, _⟩ := List.mem_map.mp isLatch
    obtain ⟨made, target⟩ := List.mem_filter.mp isEdge
    exact ⟨edge.1, of_decide_eq_true target ▸ made⟩
  · rintro ⟨latch, made⟩
    obtain ⟨loop, member⟩ := all.listed latch head made
    exact ⟨(head, loop), member, rfl⟩

theorem loops_natural (loop : Loop) (member : loop ∈ body.loops dominance) : Loop.Natural body dominance loop := by
  obtain ⟨closed, _, latches⟩ := loops_listed body dominance edges describes loop member
  exact Loop.growing_weaken body loop.header _ _ (fun latch isLatch => ((latches latch).mp isLatch).2.2) [] loop.blocks closed.grown

end Natural

end Body

end ThreeAddress
