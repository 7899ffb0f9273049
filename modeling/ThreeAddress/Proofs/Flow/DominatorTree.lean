import Mathlib.Logic.Relation
import ThreeAddress.Proofs.Flow.Dominators

/-!
The dominator tree. The blocks that dominate a reached block form a chain, each with more dominators than the one before
it. So the closest strict dominator is the one with the most dominators, and going from a block to the closest one again
and again meets all its strict dominators and ends at the entry.
-/

set_option autoImplicit false

namespace ThreeAddress

namespace Body

variable (body : Body)

theorem entry_dominates (block : Block) : body.Dominates body.entry block :=
  fun path leads => leads.source_mem body.entry block path

theorem dominates_trans (a b c : Block) (first : body.Dominates a b) (second : body.Dominates b c) : body.Dominates a c := by
  intro path leads
  obtain ⟨front, back, whole, _, upTo⟩ := leads.first_time body.entry c b path (second path leads)
  rw [whole, List.append_cons]
  exact List.mem_append_left back (first _ upTo)

theorem dominator_reached (above block : Block) (reached : body.Reaches body.entry block) (dominates : body.Dominates above block) :
    body.Reaches body.entry above := by
  obtain ⟨path, leads⟩ := reached
  exact (leads.between body.entry block path above (dominates path leads)).1

theorem dominates_antisymm (a b : Block) (reached : body.Reaches body.entry b) (ab : body.Dominates a b)
    (ba : body.Dominates b a) : a = b := by
  obtain ⟨path, leads⟩ := reached
  obtain ⟨front, _, _, fresh, upTo⟩ := leads.first_time body.entry b b path (leads.target_mem body.entry b path)
  rcases List.mem_append.mp (ab _ upTo) with early | last
  · obtain ⟨before, after, whole⟩ := List.append_of_mem early
    rw [whole, List.append_assoc] at upTo
    have passed := ba _ (upTo.cut body.entry a b before (after ++ [b])).1
    refine (fresh ?_).elim
    rw [whole, List.append_cons]
    exact List.mem_append_left after passed
  · exact List.mem_singleton.mp last

theorem dominators_chain (a c block : Block) (reached : body.Reaches body.entry block) (above : body.Dominates a block)
    (other : body.Dominates c block) : body.Dominates a c ∨ body.Dominates c a := by
  obtain ⟨path, leads⟩ := reached
  obtain ⟨_, back, _, gone, onward⟩ := leads.last_time body.entry block a path (above path leads)
  by_cases later : c ∈ back
  · left
    obtain ⟨front, rest, whole, _, fromOther⟩ := onward.last_time a block c (a :: back) (List.mem_cons_of_mem a later)
    refine body.dominates_before a block c rest above fromOther fun met => ?_
    cases front with
    | nil =>
      obtain ⟨_, same⟩ := List.cons.inj whole
      exact gone (same ▸ met)
    | cons _ front =>
      obtain ⟨_, same⟩ := List.cons.inj whole
      exact gone (same ▸ List.mem_append_right front (List.mem_cons_of_mem c met))
  · exact .inr (body.dominates_before c block a back other onward later)

end Body

namespace Dominance

def depth (dominance : Dominance) (block : Block) : Nat := (dominance.facts.atExit.get? block).elim 0 OrderedSet.size

theorem deepest_spec (dominance : Dominance) (candidates : List Block) :
    (dominance.deepest candidates = none → candidates = []) ∧
      ∀ best, dominance.deepest candidates = some best →
        best ∈ candidates ∧ ∀ other ∈ candidates, dominance.depth other ≤ dominance.depth best := by
  rw [deepest]
  induction candidates using List.reverseRecOn with
  | nil => exact ⟨fun _ => rfl, nofun⟩
  | append_singleton front last ih =>
    rw [List.foldl_append, List.foldl_cons, List.foldl_nil]
    obtain ⟨empties, chosen⟩ := ih
    split
    · rename_i known found
      obtain ⟨member, highest⟩ := chosen known found
      split
      · rename_i lower
        refine ⟨nofun, fun best same => ?_⟩
        cases same
        refine ⟨List.mem_append_left _ member, fun other listed => ?_⟩
        rcases List.mem_append.mp listed with early | final
        · exact highest other early
        · rw [List.mem_singleton.mp final]
          exact Nat.le_of_lt lower
      · rename_i higher
        refine ⟨nofun, fun best same => ?_⟩
        cases same
        refine ⟨List.mem_append_right _ List.mem_cons_self, fun other listed => ?_⟩
        rcases List.mem_append.mp listed with early | final
        · exact (highest other early).trans (Nat.le_of_not_lt higher)
        · rw [List.mem_singleton.mp final]
    · rename_i none
      refine ⟨nofun, fun best same => ?_⟩
      cases same
      rw [empties none]
      exact ⟨List.mem_cons_self, fun other listed => by rw [List.mem_singleton.mp listed]⟩

def Above (dominance : Dominance) (above block : Block) : Prop := dominance.dominates above block = true ∧ above ≠ block

structure Closest (dominance : Dominance) (closest block : Block) : Prop where
  above : dominance.Above closest block
  below : ∀ other, dominance.Above other block → dominance.dominates other closest = true

def Parent (dominance : Dominance) (block parent : Block) : Prop := dominance.idom? block = some parent

end Dominance

namespace Body

section Tree

variable (body : Body) (accepted : body.check = .ok ()) (dominance : Dominance)
  (solved : body.Solved body.dominatorAnalysis (OrderedSet.Over body.blocks.refs) (Meet.le .intersection) dominance.facts)

include accepted solved

theorem above_iff (above block : Block) (inside : body.blocks.contains block = true) :
    dominance.Above above block ↔ body.blocks.contains above = true ∧ body.Dominates above block ∧ above ≠ block := by
  rw [Dominance.Above, body.dominates_iff accepted dominance solved above block inside, and_assoc]

theorem above_trans (a b c : Block) (inside : body.blocks.contains c = true) (reached : body.Reaches body.entry c)
    (first : dominance.Above a b) (second : dominance.Above b c) : dominance.Above a c := by
  obtain ⟨bInside, bc, apart⟩ := (body.above_iff accepted dominance solved b c inside).mp second
  obtain ⟨aInside, ab, _⟩ := (body.above_iff accepted dominance solved a b bInside).mp first
  have ac := body.dominates_trans a b c ab bc
  refine (body.above_iff accepted dominance solved a c inside).mpr ⟨aInside, ac, fun same => apart ?_⟩
  exact body.dominates_antisymm b c reached bc (same ▸ ab)

theorem depth_lt (above block : Block) (inside : body.blocks.contains block = true) (reached : body.Reaches body.entry block)
    (higher : dominance.Above above block) : dominance.depth above < dominance.depth block := by
  obtain ⟨aboveInside, dominates, apart⟩ := (body.above_iff accepted dominance solved above block inside).mp higher
  obtain ⟨fewer, _, foundFewer, fewerSound, inFewer⟩ := body.dominators_found accepted dominance solved above aboveInside
  obtain ⟨more, _, foundMore, moreSound, inMore⟩ := body.dominators_found accepted dominance solved block inside
  rw [Dominance.depth, Dominance.depth, foundFewer, foundMore]
  refine OrderedSet.size_lt_of_subset fewer more fewerSound moreSound (fun other listed => ?_) fun all => apart ?_
  · obtain ⟨otherInside, met⟩ := (inFewer other).mp listed
    exact (inMore other).mpr ⟨otherInside, body.dominates_trans other above block met dominates⟩
  · have self := (inMore block).mpr ⟨inside, body.dominates_refl block⟩
    exact body.dominates_antisymm above block reached dominates ((inFewer block).mp (all block self)).2

theorem above_chain (a c block : Block) (inside : body.blocks.contains block = true) (reached : body.Reaches body.entry block)
    (first : dominance.Above a block) (second : dominance.Above c block) (apart : a ≠ c) :
    dominance.Above a c ∨ dominance.Above c a := by
  obtain ⟨aInside, aDominates, _⟩ := (body.above_iff accepted dominance solved a block inside).mp first
  obtain ⟨cInside, cDominates, _⟩ := (body.above_iff accepted dominance solved c block inside).mp second
  rcases body.dominators_chain a c block reached aDominates cDominates with ac | ca
  · exact .inl ((body.above_iff accepted dominance solved a c cInside).mpr ⟨aInside, ac, apart⟩)
  · exact .inr ((body.above_iff accepted dominance solved c a aInside).mpr ⟨cInside, ca, apart.symm⟩)

theorem depth_ne (a c block : Block) (inside : body.blocks.contains block = true) (reached : body.Reaches body.entry block)
    (first : dominance.Above a block) (second : dominance.Above c block) (apart : a ≠ c) :
    dominance.depth a ≠ dominance.depth c := by
  obtain ⟨aInside, aDominates, _⟩ := (body.above_iff accepted dominance solved a block inside).mp first
  obtain ⟨cInside, cDominates, _⟩ := (body.above_iff accepted dominance solved c block inside).mp second
  rcases body.above_chain accepted dominance solved a c block inside reached first second apart with ac | ca
  · exact (body.depth_lt accepted dominance solved a c cInside (body.dominator_reached c block reached cDominates) ac).ne
  · exact (body.depth_lt accepted dominance solved c a aInside (body.dominator_reached a block reached aDominates) ca).ne'

theorem closest_unique (closest other block : Block) (inside : body.blocks.contains block = true)
    (reached : body.Reaches body.entry block) (here : dominance.Closest closest block) (there : dominance.Closest other block) :
    other = closest := by
  by_contra apart
  have up : dominance.Above other closest := ⟨here.below other there.above, apart⟩
  have down : dominance.Above closest other := ⟨there.below closest here.above, Ne.symm apart⟩
  obtain ⟨closestInside, dominates, _⟩ := (body.above_iff accepted dominance solved closest block inside).mp here.above
  have reachedClosest := body.dominator_reached closest block reached dominates
  exact (body.above_trans accepted dominance solved closest other closest closestInside reachedClosest down up).2 rfl

variable (describes : dominance.order.Describes body)

include describes

omit accepted solved in
theorem idom_none_of_unreached (block : Block) (inside : body.blocks.contains block = true)
    (away : ¬ body.Reaches body.entry block) : dominance.idom? block = none := by
  have unreachable : ¬ dominance.isReachable block = true := fun reachable =>
    away ((describes.reachable block inside).mp reachable)
  rw [Dominance.idom?, if_neg unreachable]

theorem idom_of_reached (block : Block) (inside : body.blocks.contains block = true) (reached : body.Reaches body.entry block) :
    ∃ strict : List Block, dominance.idom? block = dominance.deepest strict ∧ ∀ other, other ∈ strict ↔ dominance.Above other block := by
  obtain ⟨dominators, _, found, sound, _⟩ := body.dominators_found accepted dominance solved block inside
  have reachable : dominance.isReachable block = true := (describes.reachable block inside).mpr reached
  refine ⟨dominators.toList.filter (· ≠ block), ?_, fun other => ?_⟩
  · rw [Dominance.idom?, if_pos reachable, found]
    rfl
  · rw [List.mem_filter, decide_eq_true_iff, Dominance.Above, Dominance.dominates, found]
    exact and_congr_left' (OrderedSet.contains_iff dominators sound other).symm

theorem idom_entry (inside : body.blocks.contains body.entry = true) : dominance.idom? body.entry = none := by
  obtain ⟨strict, same, members⟩ := body.idom_of_reached accepted dominance solved describes body.entry inside
    (body.reaches_self body.entry)
  rw [same]
  by_contra found
  obtain ⟨closest, chosen⟩ := Option.ne_none_iff_exists'.mp found
  have higher := (members closest).mp (((dominance.deepest_spec strict).2 closest chosen).1)
  obtain ⟨_, dominates, apart⟩ := (body.above_iff accepted dominance solved closest body.entry inside).mp higher
  exact apart (body.dominates_entry closest dominates)

theorem idom_closest (block : Block) (inside : body.blocks.contains block = true) (reached : body.Reaches body.entry block)
    (apart : block ≠ body.entry) : ∃ closest, dominance.idom? block = some closest ∧ dominance.Closest closest block := by
  obtain ⟨strict, same, members⟩ := body.idom_of_reached accepted dominance solved describes block inside reached
  obtain ⟨empties, chosen⟩ := dominance.deepest_spec strict
  have entryInside := (well_formed_of_check body accepted).entry
  have entryAbove : dominance.Above body.entry block :=
    (body.above_iff accepted dominance solved body.entry block inside).mpr ⟨entryInside, body.entry_dominates block, apart.symm⟩
  have some : dominance.deepest strict ≠ none := fun none => by
    have listed := (members body.entry).mpr entryAbove
    rw [empties none] at listed
    cases listed
  obtain ⟨closest, found⟩ := Option.ne_none_iff_exists'.mp some
  obtain ⟨member, highest⟩ := chosen closest found
  have here := (members closest).mp member
  obtain ⟨closestInside, dominates, _⟩ := (body.above_iff accepted dominance solved closest block inside).mp here
  refine ⟨closest, same.trans found, here, fun other above => ?_⟩
  by_cases equal : other = closest
  · rw [equal]
    exact (body.dominates_iff accepted dominance solved closest closest closestInside).mpr ⟨closestInside, body.dominates_refl closest⟩
  · rcases body.above_chain accepted dominance solved other closest block inside reached above here equal with up | down
    · exact up.1
    · obtain ⟨otherInside, otherDominates, _⟩ := (body.above_iff accepted dominance solved other block inside).mp above
      have deeper := body.depth_lt accepted dominance solved closest other otherInside
        (body.dominator_reached other block reached otherDominates) down
      exact (Nat.not_lt_of_le (highest other ((members other).mpr above)) deeper).elim

theorem parent_above (block parent : Block) (inside : body.blocks.contains block = true) (reached : body.Reaches body.entry block)
    (up : dominance.Parent block parent) : dominance.Closest parent block := by
  by_cases apart : block = body.entry
  · rw [Dominance.Parent, apart, body.idom_entry accepted dominance solved describes (apart ▸ inside)] at up
    cases up
  · obtain ⟨closest, found, here⟩ := body.idom_closest accepted dominance solved describes block inside reached apart
    rw [Dominance.Parent, found] at up
    cases up
    exact here

theorem above_of_climb (block : Block) (inside : body.blocks.contains block = true) (reached : body.Reaches body.entry block)
    (above : Block) (climbs : Relation.TransGen dominance.Parent block above) : dominance.Above above block := by
  induction climbs with
  | single up => exact (body.parent_above accepted dominance solved describes block _ inside reached up).above
  | @tail middle last _ up ih =>
    obtain ⟨middleInside, dominates, _⟩ := (body.above_iff accepted dominance solved middle block inside).mp ih
    have middleReached := body.dominator_reached middle block reached dominates
    have step := (body.parent_above accepted dominance solved describes middle last middleInside middleReached up).above
    exact body.above_trans accepted dominance solved last middle block inside reached step ih

theorem climb_of_above (block : Block) (inside : body.blocks.contains block = true) (reached : body.Reaches body.entry block)
    (above : Block) (higher : dominance.Above above block) : Relation.TransGen dominance.Parent block above := by
  -- Each step up leaves fewer dominators.
  induction measure : dominance.depth block using Nat.strong_induction_on generalizing block with
  | _ depth ih =>
    have apart : block ≠ body.entry := by
      intro entry
      obtain ⟨_, dominates, differs⟩ := (body.above_iff accepted dominance solved above block inside).mp higher
      rw [entry] at dominates differs
      exact differs (body.dominates_entry above dominates)
    obtain ⟨closest, found, here⟩ := body.idom_closest accepted dominance solved describes block inside reached apart
    by_cases same : above = closest
    · exact .single (same ▸ found)
    · obtain ⟨closestInside, dominates, _⟩ := (body.above_iff accepted dominance solved closest block inside).mp here.above
      have shallower := body.depth_lt accepted dominance solved closest block inside reached here.above
      exact .head found (ih _ (measure ▸ shallower) closest closestInside (body.dominator_reached closest block reached dominates)
        ⟨here.below above higher, same⟩ rfl)

end Tree

-- The closest dominators form a tree. A block has none exactly if it is the entry or is not reached; otherwise it is the one
-- strict dominator that all strict dominators dominate. No two of these have equally many dominators, they are met by going
-- to the closest dominator again and again, and that ends at the entry.
theorem closest_dominators_form_tree (body : Body) (accepted : body.check = .ok ()) :
    ∃ dominance, body.dominance = .ok dominance ∧ ∀ block, body.blocks.contains block = true →
      (dominance.idom? block = none ↔ block = body.entry ∨ ¬ body.Reaches body.entry block) ∧
      (body.Reaches body.entry block →
        (block ≠ body.entry → ∃ closest, dominance.idom? block = some closest ∧ dominance.Closest closest block ∧
          ∀ other, dominance.Closest other block → other = closest) ∧
        (∀ a c, dominance.Above a block → dominance.Above c block → a ≠ c → ∃ dominators others,
          dominance.dominators a = .ok dominators ∧ dominance.dominators c = .ok others ∧ dominators.size ≠ others.size) ∧
        (∀ above, dominance.Above above block ↔ Relation.TransGen dominance.Parent block above) ∧
        Relation.ReflTransGen dominance.Parent block body.entry) := by
  obtain ⟨dominance, computed, solved, describes⟩ := body.dominance_total accepted
  have entryInside := (well_formed_of_check body accepted).entry
  refine ⟨dominance, computed, fun block inside => ⟨⟨fun none => ?_, fun either => ?_⟩, fun reached => ⟨fun apart => ?_, ?_, ?_, ?_⟩⟩⟩
  · by_contra neither
    obtain ⟨apart, reached⟩ := not_or.mp neither
    obtain ⟨closest, found, _⟩ := body.idom_closest accepted dominance solved describes block inside (not_not.mp reached) apart
    rw [none] at found
    cases found
  · rcases either with entry | away
    · rw [entry]
      exact body.idom_entry accepted dominance solved describes entryInside
    · exact body.idom_none_of_unreached dominance describes block inside away
  · obtain ⟨closest, found, here⟩ := body.idom_closest accepted dominance solved describes block inside reached apart
    exact ⟨closest, found, here, fun other => body.closest_unique accepted dominance solved closest other block inside reached here⟩
  · intro a c first second apart
    obtain ⟨aInside, _⟩ := (body.above_iff accepted dominance solved a block inside).mp first
    obtain ⟨cInside, _⟩ := (body.above_iff accepted dominance solved c block inside).mp second
    obtain ⟨dominators, readA, foundA, _⟩ := body.dominators_found accepted dominance solved a aInside
    obtain ⟨others, readC, foundC, _⟩ := body.dominators_found accepted dominance solved c cInside
    have differ := body.depth_ne accepted dominance solved a c block inside reached first second apart
    rw [Dominance.depth, Dominance.depth, foundA, foundC] at differ
    exact ⟨dominators, others, readA, readC, differ⟩
  · exact fun above => ⟨body.climb_of_above accepted dominance solved describes block inside reached above,
      body.above_of_climb accepted dominance solved describes block inside reached above⟩
  · by_cases entry : block = body.entry
    · exact entry ▸ .refl
    · have above : dominance.Above body.entry block :=
        (body.above_iff accepted dominance solved body.entry block inside).mpr
          ⟨entryInside, body.entry_dominates block, Ne.symm entry⟩
      exact (body.climb_of_above accepted dominance solved describes block inside reached body.entry above).to_reflTransGen

-- Two ways meet again behind a loop, and a block that is not reached leads to where they meet.
def braid : Body where
  name := "braid"
  entry := .nth 0
  blocks := .ofList [
    { succs := [.nth 1] },
    { succs := [.nth 2, .nth 3], preds := [.nth 0, .nth 4] },
    { succs := [.nth 4], preds := [.nth 1] },
    { succs := [.nth 4], preds := [.nth 1] },
    { succs := [.nth 1], preds := [.nth 2, .nth 3, .nth 5] },
    { succs := [.nth 4] }]
  cells := .empty
  vars := .empty

theorem braid_climbs : braid.check = .ok () ∧ braid.Reaches braid.entry (.nth 4) ∧
    ∃ dominance, braid.dominance = .ok dominance ∧ dominance.idom? (.nth 4) = some (.nth 1) ∧
      dominance.Closest (.nth 1) (.nth 4) ∧ dominance.idom? (.nth 5) = none ∧
      Relation.ReflTransGen dominance.Parent (.nth 4) (.nth 0) := by
  have accepted : braid.check = .ok () := by rfl
  have reached : braid.Reaches braid.entry (.nth 4) :=
    ⟨[.nth 0, .nth 1, .nth 2, .nth 4], .step _ (.nth 1) _ _ (by decide) (.step _ (.nth 2) _ _ (by decide)
      (.step _ (.nth 4) _ _ (by decide) (.here _)))⟩
  obtain ⟨dominance, found, tree⟩ := closest_dominators_form_tree braid accepted
  have computed : braid.dominance.toOption.map (fun dominance => (dominance.idom? (.nth 4), dominance.idom? (.nth 5))) =
      some (some (.nth 1), none) := by decide +kernel
  rw [found] at computed
  obtain ⟨meets, none⟩ := Prod.mk.inj (Option.some.inj computed)
  obtain ⟨closest, _, _, climbs⟩ := (tree (.nth 4) rfl).2 reached
  obtain ⟨parent, same, here, _⟩ := closest (by decide)
  rw [meets] at same
  cases same
  exact ⟨accepted, reached, dominance, found, meets, here, none, climbs⟩

end Body

end ThreeAddress
