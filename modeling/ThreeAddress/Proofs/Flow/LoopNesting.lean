import ThreeAddress.Proofs.Flow.LoopDiscovery

/-!
Loops around loops. A loop whose header is in another loop lies in that loop with all its blocks, so two loops that share
a block lie one in the other, and the smallest loop around a block is the innermost. Also a loop whose preheader is in
another loop lies in that loop, so whatever leaves the one and then the other has left a block of the outer one.
-/

set_option autoImplicit false

namespace ThreeAddress

namespace Loop

def Apart (first second : Loop) : Prop := ∀ block ∈ first.blocks.toList, block ∉ second.blocks.toList

structure Inside (inner outer : Loop) : Prop where
  part : inner.blocks.Subset outer.blocks
  more : ∃ block ∈ outer.blocks.toList, block ∉ inner.blocks.toList

structure Innermost (loops : List Loop) (block : Block) (loop : Loop) : Prop where
  listed : loop ∈ loops
  around : block ∈ loop.blocks.toList
  least : ∀ other ∈ loops, block ∈ other.blocks.toList → loop.blocks.Subset other.blocks

end Loop

namespace Body

variable (body : Body)

section Found

variable (accepted : body.check = .ok ()) (dominance : Dominance)
  (solved : body.Solved body.dominatorAnalysis (OrderedSet.Over body.blocks.refs) (Meet.le .intersection) dominance.facts)
  (describes : dominance.order.Describes body)

include accepted solved describes

theorem loop_returns (loop : Loop) (listed : loop ∈ body.loops dominance) (block : Block) (member : block ∈ loop.blocks.toList) :
    ∃ latch ∈ loop.latches, ∃ back, Path body block (block :: back) latch ∧ loop.header ∉ back := by
  have edges := (well_formed_of_check body accepted).edges
  obtain ⟨closed, some, latches⟩ := loops_listed body dominance edges describes loop listed
  by_cases header : block = loop.header
  · obtain ⟨latch, isLatch⟩ := List.exists_mem_of_ne_nil _ some
    obtain ⟨⟨path, leads⟩, _, dominates⟩ := (latches latch).mp isLatch
    have passed := dominator_met body accepted dominance solved loop.header latch dominates path leads
    obtain ⟨_, back, _, gone, onward⟩ := leads.last_time body.entry latch loop.header path passed
    exact ⟨latch, isLatch, back, header ▸ onward, gone⟩
  · obtain ⟨latch, path, isLatch, leads, avoids⟩ := closed.grown.returns block (.inl member) header
    obtain ⟨back, rfl⟩ := leads.starts
    exact ⟨latch, isLatch, back, leads, fun later => avoids (List.mem_cons_of_mem _ later)⟩

section Pair

variable (inner outer : Loop) (innerListed : inner ∈ body.loops dominance) (outerListed : outer ∈ body.loops dominance)

include innerListed outerListed

theorem header_outside (apart : inner.header ≠ outer.header) (header : inner.header ∈ outer.blocks.toList) :
    outer.header ∉ inner.blocks.toList := by
  intro back
  have edges := (well_formed_of_check body accepted).edges
  obtain ⟨outerClosed, _⟩ := loops_listed body dominance edges describes outer outerListed
  have below := body.header_dominates accepted dominance solved inner
    (loops_natural body dominance edges describes inner innerListed) outer.header back
  have above := body.header_dominates accepted dominance solved outer
    (loops_natural body dominance edges describes outer outerListed) inner.header header
  exact apart (body.dominates_antisymm inner.header outer.header (outerClosed.reached _ outerClosed.grown.entered) below above)

-- A loop whose header is in another loop lies in that loop: its blocks all lead back to the header, and meet the outer header
-- nowhere on the way.
theorem loop_within (apart : inner.header ≠ outer.header) (header : inner.header ∈ outer.blocks.toList) (block : Block)
    (member : block ∈ inner.blocks.toList) : block ∈ outer.blocks.toList := by
  have edges := (well_formed_of_check body accepted).edges
  obtain ⟨innerClosed, _, latches⟩ := loops_listed body dominance edges describes inner innerListed
  obtain ⟨outerClosed, _⟩ := loops_listed body dominance edges describes outer outerListed
  obtain ⟨latch, isLatch, back, leads, avoids⟩ := body.loop_returns accepted dominance solved describes inner innerListed block member
  have around := leads.extend block latch inner.header (block :: back) ((latches latch).mp isLatch).2.1
  apply body.loop_absorbs outer outerClosed edges block inner.header _ around (innerClosed.reached block member) header
  intro met
  rcases List.mem_append.mp met with early | last
  · obtain ⟨front, rest, whole⟩ := List.append_of_mem early
    rw [whole] at leads avoids
    have onward := (leads.cut block outer.header latch (block :: front) rest).2
    have headerReached := outerClosed.reached outer.header outerClosed.grown.entered
    have inInner := body.loop_absorbs inner innerClosed edges outer.header latch _ onward headerReached
      (innerClosed.latched latch isLatch) fun later => avoids (List.mem_append_right front (List.mem_cons_of_mem _ later))
    exact body.header_outside accepted dominance solved describes inner outer innerListed outerListed apart header inInner
  · exact apart (List.mem_singleton.mp last).symm

section Inner

variable (pre : Block) (enters : inner.preheader? body = some pre) (inside : pre ∈ outer.blocks.toList)

include enters inside

theorem nested_apart : inner.header ≠ outer.header := by
  intro same
  have edges := (well_formed_of_check body accepted).edges
  obtain ⟨innerClosed, _, latches⟩ := loops_listed body dominance edges describes inner innerListed
  obtain ⟨outerClosed, _⟩ := loops_listed body dominance edges describes outer outerListed
  obtain ⟨pred, outside, _⟩ := Loop.preheader_spec body inner pre enters
  have natural := loops_natural body dominance edges describes outer outerListed
  have above := body.header_dominates accepted dominance solved outer natural pre inside
  have headerInside := outerClosed.grown.inside outer.header (.inl outerClosed.grown.entered)
  have dominates := (body.dominates_iff accepted dominance solved outer.header pre (outerClosed.grown.inside pre (.inl inside))).mpr
    ⟨headerInside, above⟩
  have latch := (latches pre).mpr ⟨outerClosed.reached pre inside, (edges_mem_iff body edges pre inner.header).mpr pred, same ▸ dominates⟩
  exact (OrderedSet.contains_eq_false_iff _ innerClosed.grown.sound pre).mp outside (innerClosed.latched pre latch)

theorem nested_header : inner.header ∈ outer.blocks.toList := by
  have edges := (well_formed_of_check body accepted).edges
  obtain ⟨closed, _, latches⟩ := loops_listed body dominance edges describes outer outerListed
  obtain ⟨_, _, _, flows⟩ := Loop.preheader_spec body inner pre enters
  obtain ⟨latch, isLatch, back, leads, avoids⟩ := body.loop_returns accepted dominance solved describes outer outerListed pre inside
  cases leads with
  | here =>
    have same := flows outer.header ((latches pre).mp isLatch).2.1
    exact (body.nested_apart accepted dominance solved describes inner outer innerListed outerListed pre enters inside same.symm).elim
  | step _ succ _ _ edge onward =>
    have reached := body.reaches_succ pre succ (closed.reached pre inside) edge
    exact flows succ edge ▸ body.loop_absorbs outer closed edges succ latch back onward reached (closed.latched latch isLatch)
      fun later => avoids (List.mem_of_mem_tail later)

theorem loop_nested (block : Block) (member : block ∈ inner.blocks.toList) : block ∈ outer.blocks.toList := by
  have apart := body.nested_apart accepted dominance solved describes inner outer innerListed outerListed pre enters inside
  have header := body.nested_header accepted dominance solved describes inner outer innerListed outerListed pre enters inside
  exact body.loop_within accepted dominance solved describes inner outer innerListed outerListed apart header block member

end Inner

theorem shared_header (apart : inner.header ≠ outer.header) (above : body.Dominates outer.header inner.header) (block : Block)
    (inInner : block ∈ inner.blocks.toList) (inOuter : block ∈ outer.blocks.toList) : inner.header ∈ outer.blocks.toList := by
  have edges := (well_formed_of_check body accepted).edges
  obtain ⟨innerClosed, _⟩ := loops_listed body dominance edges describes inner innerListed
  obtain ⟨outerClosed, _⟩ := loops_listed body dominance edges describes outer outerListed
  have dominates := body.header_dominates accepted dominance solved inner
    (loops_natural body dominance edges describes inner innerListed) block inInner
  obtain ⟨path, leads⟩ := innerClosed.reached block inInner
  obtain ⟨_, back, _, gone, onward⟩ := leads.last_time body.entry block inner.header path (dominates path leads)
  apply body.loop_absorbs outer outerClosed edges inner.header block _ onward
    (innerClosed.reached inner.header innerClosed.grown.entered) inOuter
  -- On the way from the one header to the block the other cannot come again, for it would be dominated there.
  intro met
  obtain ⟨front, rest, whole⟩ := List.append_of_mem met
  rw [List.tail_cons] at whole
  rw [whole] at onward gone
  have fromOuter := (onward.cut inner.header outer.header block (inner.header :: front) rest).2
  have below := body.dominates_before inner.header block outer.header rest dominates fromOuter fun later =>
    gone (List.mem_append_right front (List.mem_cons_of_mem _ later))
  have outerReached := outerClosed.reached outer.header outerClosed.grown.entered
  exact apart (body.dominates_antisymm inner.header outer.header outerReached below above)

theorem inside_of_shared (apart : inner.header ≠ outer.header) (above : body.Dominates outer.header inner.header) (block : Block)
    (inInner : block ∈ inner.blocks.toList) (inOuter : block ∈ outer.blocks.toList) : inner.Inside outer := by
  obtain ⟨outerClosed, _⟩ := loops_listed body dominance (well_formed_of_check body accepted).edges describes outer outerListed
  have header := body.shared_header accepted dominance solved describes inner outer innerListed outerListed apart above block
    inInner inOuter
  constructor
  · exact body.loop_within accepted dominance solved describes inner outer innerListed outerListed apart header
  · have outside := body.header_outside accepted dominance solved describes inner outer innerListed outerListed apart header
    exact ⟨outer.header, outerClosed.grown.entered, outside⟩

omit accepted solved in
theorem size_lt_of_inside (edges : body.EdgesAgree) (inside : inner.Inside outer) : inner.blocks.size < outer.blocks.size := by
  obtain ⟨innerClosed, _⟩ := loops_listed body dominance edges describes inner innerListed
  obtain ⟨outerClosed, _⟩ := loops_listed body dominance edges describes outer outerListed
  obtain ⟨block, member, outside⟩ := inside.more
  exact OrderedSet.size_lt_of_subset inner.blocks outer.blocks innerClosed.grown.sound outerClosed.grown.sound inside.part
    fun back => outside (back block member)

end Pair

theorem loops_overlap (first second : Loop) (firstListed : first ∈ body.loops dominance) (secondListed : second ∈ body.loops dominance)
    (apart : first.header ≠ second.header) : first.Apart second ∨ first.Inside second ∨ second.Inside first := by
  have edges := (well_formed_of_check body accepted).edges
  by_cases shared : ∃ block ∈ first.blocks.toList, block ∈ second.blocks.toList
  · obtain ⟨block, inFirst, inSecond⟩ := shared
    obtain ⟨closed, _⟩ := loops_listed body dominance edges describes first firstListed
    have firstAbove := body.header_dominates accepted dominance solved first
      (loops_natural body dominance edges describes first firstListed) block inFirst
    have secondAbove := body.header_dominates accepted dominance solved second
      (loops_natural body dominance edges describes second secondListed) block inSecond
    rcases body.dominators_chain first.header second.header block (closed.reached block inFirst) firstAbove secondAbove with
      above | above
    · exact .inr (.inr (body.inside_of_shared accepted dominance solved describes second first secondListed firstListed
        apart.symm above block inSecond inFirst))
    · exact .inr (.inl (body.inside_of_shared accepted dominance solved describes first second firstListed secondListed apart
        above block inFirst inSecond))
  · exact .inl fun block inFirst inSecond => shared ⟨block, inFirst, inSecond⟩

omit solved in
theorem same_loop (first second : Loop) (firstListed : first ∈ body.loops dominance) (secondListed : second ∈ body.loops dominance)
    (header : first.header = second.header) : first = second := by
  obtain ⟨once, _⟩ := loops_headers body dominance (well_formed_of_check body accepted).edges describes
  exact List.inj_on_of_nodup_map once firstListed secondListed header

theorem innermost_of_found (block : Block) (loop : Loop) (found : loopOf? (body.loops dominance) block = some loop) :
    Loop.Innermost (body.loops dominance) block loop := by
  have edges := (well_formed_of_check body accepted).edges
  rw [loopOf?] at found
  have listed := List.mem_of_find?_eq_some found
  have matched := List.find?_some found
  have around (other : Loop) (member : other ∈ body.loops dominance) : other.contains block = true ↔ block ∈ other.blocks.toList :=
    OrderedSet.contains_iff _ (loops_listed body dominance edges describes other member).1.grown.sound block
  have here := (around loop listed).mp matched
  refine ⟨listed, here, fun other member there => ?_⟩
  by_cases header : loop.header = other.header
  · rw [body.same_loop accepted dominance describes loop other listed member header]
    exact fun _ inOther => inOther
  rcases body.loops_overlap accepted dominance solved describes loop other listed member header with apart | inside | inside
  · exact (apart block here there).elim
  · exact inside.part
  · have smaller := body.size_lt_of_inside dominance describes other loop member listed edges inside
    obtain ⟨_, front, back, whole, before⟩ := List.find?_eq_some_iff_append.mp found
    have sorted := body.loops_sorted dominance
    rw [whole] at member sorted
    rcases List.mem_append.mp member with early | late
    · have passed := before other early
      rw [(around other (whole ▸ member)).mpr there] at passed
      cases passed
    · rcases List.mem_cons.mp late with same | behind
      · exact (header (congrArg Loop.header same.symm)).elim
      · have larger := (List.pairwise_cons.mp (List.pairwise_append.mp sorted).2.1).1 other behind
        exact (Nat.not_lt_of_le larger smaller).elim

theorem found_iff_innermost (block : Block) (loop : Loop) :
    loopOf? (body.loops dominance) block = some loop ↔ Loop.Innermost (body.loops dominance) block loop := by
  have edges := (well_formed_of_check body accepted).edges
  refine ⟨body.innermost_of_found accepted dominance solved describes block loop, fun innermost => ?_⟩
  obtain ⟨listed, around, least⟩ := innermost
  obtain ⟨closed, _⟩ := loops_listed body dominance edges describes loop listed
  have here : loop.contains block = true := (OrderedSet.contains_iff _ closed.grown.sound block).mpr around
  obtain ⟨other, found⟩ : ∃ other, loopOf? (body.loops dominance) block = some other :=
    Option.isSome_iff_exists.mp (List.find?_isSome.mpr ⟨loop, listed, here⟩)
  obtain ⟨member, there, otherLeast⟩ := body.innermost_of_found accepted dominance solved describes block other found
  obtain ⟨otherClosed, _⟩ := loops_listed body dominance edges describes other member
  -- Each of the two loops contains the other, with its header.
  have header : other.header = loop.header := by
    by_contra apart
    have inLoop := otherLeast loop listed around other.header otherClosed.grown.entered
    have inOther := least other member there loop.header closed.grown.entered
    exact body.header_outside accepted dominance solved describes other loop member listed apart inLoop inOther
  rw [← body.same_loop accepted dominance describes other loop member listed header]
  exact found

end Found

-- Two loops are apart or one is strictly inside the other, and the inner one is listed first. A block that is in a loop
-- belongs to just one innermost loop, and that is the loop found for it.
theorem loops_nest (body : Body) (accepted : body.check = .ok ()) : ∃ dominance, body.dominance = .ok dominance ∧
    (∀ (i j : Nat) (first second : Loop), (body.loops dominance)[i]? = some first → (body.loops dominance)[j]? = some second →
      i ≠ j → first.Apart second ∨ first.Inside second ∨ second.Inside first) ∧
    (∀ (i j : Nat) (inner outer : Loop), (body.loops dominance)[i]? = some inner → (body.loops dominance)[j]? = some outer →
      inner.Inside outer → i < j) ∧
    ∀ block,
      (loopOf? (body.loops dominance) block = none ↔ ∀ loop ∈ body.loops dominance, block ∉ loop.blocks.toList) ∧
      ∀ loop, loopOf? (body.loops dominance) block = some loop ↔ Loop.Innermost (body.loops dominance) block loop := by
  obtain ⟨dominance, computed, solved, describes⟩ := body.dominance_total accepted
  have edges := (well_formed_of_check body accepted).edges
  refine ⟨dominance, computed, ?_, ?_, fun block => ⟨?_, ?_⟩⟩
  · intro i j first second atFirst atSecond apart
    obtain ⟨once, _⟩ := loops_headers body dominance edges describes
    obtain ⟨iBound, rfl⟩ := List.getElem?_eq_some_iff.mp atFirst
    obtain ⟨jBound, rfl⟩ := List.getElem?_eq_some_iff.mp atSecond
    have distinct := List.pairwise_iff_getElem.mp (List.pairwise_map.mp once)
    apply body.loops_overlap accepted dominance solved describes _ _ (List.getElem_mem iBound) (List.getElem_mem jBound)
    rcases Nat.lt_or_gt_of_ne apart with before | behind
    · exact distinct i j iBound jBound before
    · exact (distinct j i jBound iBound behind).symm
  · intro i j inner outer atInner atOuter inside
    obtain ⟨iBound, rfl⟩ := List.getElem?_eq_some_iff.mp atInner
    obtain ⟨jBound, rfl⟩ := List.getElem?_eq_some_iff.mp atOuter
    have smaller := body.size_lt_of_inside dominance describes _ _ (List.getElem_mem iBound) (List.getElem_mem jBound) edges inside
    by_contra behind
    rcases Nat.lt_or_eq_of_le (Nat.le_of_not_lt behind) with before | same
    · exact Nat.not_lt_of_le (List.pairwise_iff_getElem.mp (body.loops_sorted dominance) j i jBound iBound before) smaller
    · subst same
      exact Nat.lt_irrefl _ smaller
  · rw [loopOf?, List.find?_eq_none]
    refine forall₂_congr fun loop member => ?_
    obtain ⟨closed, _⟩ := loops_listed body dominance edges describes loop member
    exact not_congr (OrderedSet.contains_iff _ closed.grown.sound block)
  · exact body.found_iff_innermost accepted dominance solved describes block

-- Two loops with one latch between them, a cycle with two ways in that is no loop, and a block that is not reached.
def knot : Body where
  name := "knot"
  entry := .nth 0
  blocks := .ofList [
    { succs := [.nth 1] },
    { succs := [.nth 2], preds := [.nth 0, .nth 3] },
    { succs := [.nth 3], preds := [.nth 1, .nth 3, .nth 6] },
    { succs := [.nth 2, .nth 1, .nth 4, .nth 5], preds := [.nth 2] },
    { succs := [.nth 5], preds := [.nth 3, .nth 5] },
    { succs := [.nth 4], preds := [.nth 3, .nth 4] },
    { succs := [.nth 2] }]
  cells := .empty
  vars := .empty

theorem knot_loops_nest : knot.check = .ok () ∧ ∃ dominance, knot.dominance = .ok dominance ∧
    ∃ inner outer, knot.loops dominance = [inner, outer] ∧ inner.blocks.toList = [.nth 2, .nth 3] ∧
      outer.blocks.toList = [.nth 1, .nth 2, .nth 3] ∧ inner.Inside outer ∧
      Loop.Innermost (knot.loops dominance) (.nth 3) inner ∧ Loop.Innermost (knot.loops dominance) (.nth 1) outer ∧
      ∀ loop ∈ knot.loops dominance, .nth 4 ∉ loop.blocks.toList := by
  have accepted : knot.check = .ok () := by rfl
  obtain ⟨dominance, found, overlap, order, around⟩ := loops_nest knot accepted
  have computed : knot.dominance.toOption.map (fun dominance =>
      ((knot.loops dominance).map fun loop => loop.blocks.toList, [3, 1, 4].map fun index =>
        (loopOf? (knot.loops dominance) (.nth index)).map fun loop => loop.blocks.toList)) =
      some ([[.nth 2, .nth 3], [.nth 1, .nth 2, .nth 3]], [some [.nth 2, .nth 3], some [.nth 1, .nth 2, .nth 3], none]) := by
    decide +kernel
  rw [found] at computed
  obtain ⟨lists, lookups⟩ := Prod.mk.inj (Option.some.inj computed)
  obtain ⟨inner, rest, listed, innerBlocks, restIs⟩ := List.map_eq_cons_iff.mp lists
  obtain ⟨outer, none, same, outerBlocks, noneIs⟩ := List.map_eq_cons_iff.mp restIs
  rw [same, List.map_eq_nil_iff.mp noneIs] at listed
  obtain ⟨atThree, later⟩ := List.cons.inj lookups
  obtain ⟨atOne, last⟩ := List.cons.inj later
  have innermost (block : Block) (blocks : List Block)
      (shown : (loopOf? (knot.loops dominance) block).map (fun loop => loop.blocks.toList) = some blocks) :
      ∃ loop, Loop.Innermost (knot.loops dominance) block loop ∧ (loop = inner ∨ loop = outer) ∧ loop.blocks.toList = blocks := by
    obtain ⟨loop, loopFound, made⟩ := Option.map_eq_some_iff.mp shown
    have here := ((around block).2 loop).mp loopFound
    exact ⟨loop, here, List.mem_pair.mp (listed ▸ here.listed), made⟩
  refine ⟨accepted, dominance, found, inner, outer, listed, innerBlocks, outerBlocks, ?_, ?_, ?_, ?_⟩
  · rcases overlap 0 1 inner outer (by rw [listed]; rfl) (by rw [listed]; rfl) (by decide) with apart | inside | inside
    · exact absurd (by rw [outerBlocks]; decide) (apart (.nth 2) (by rw [innerBlocks]; decide))
    · exact inside
    · exact absurd (order 1 0 outer inner (by rw [listed]; rfl) (by rw [listed]; rfl) inside) (by decide)
  · obtain ⟨loop, here, same | same, blocks⟩ := innermost (.nth 3) _ atThree
    · exact same ▸ here
    · cases outerBlocks.symm.trans (same ▸ blocks)
  · obtain ⟨loop, here, same | same, blocks⟩ := innermost (.nth 1) _ atOne
    · cases innerBlocks.symm.trans (same ▸ blocks)
    · exact same ▸ here
  · exact (around (.nth 4)).1.mp (Option.map_eq_none_iff.mp (List.cons.inj last).1)

end Body

end ThreeAddress
