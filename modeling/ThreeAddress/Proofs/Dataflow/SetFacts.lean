import Mathlib.Data.List.Nodup
import ThreeAddress.Dataflow.Copies
import ThreeAddress.Dataflow.Liveness
import ThreeAddress.Flow.Dominance
import ThreeAddress.Proofs.Dataflow.Descent
import ThreeAddress.Proofs.Dataflow.Elementwise

/-!
Facts that are sets keep the laws: sets over a scope, ordered by inclusion or by its converse, with the
intersection or the union for the meet. Block sets, reaching copies and liveness are of this kind.
-/

set_option autoImplicit false

namespace ThreeAddress

section Sets

variable {κ : Type} [Ord κ]

structure OrderedSet.Over (scope : List κ) (set : OrderedSet κ) : Prop where
  sound : set.Sound
  inside : ∀ element ∈ set.toList, element ∈ scope

def OrderedSet.Subset (a b : OrderedSet κ) : Prop := ∀ element ∈ a.toList, element ∈ b.toList

-- Top is all elements for an intersection and no element for a union.
def Meet.le (meet : Meet) (a b : OrderedSet κ) : Prop :=
  match meet with
  | .intersection => a.Subset b
  | .union => b.Subset a

omit [Ord κ] in
theorem Meet.le_refl (meet : Meet) (a : OrderedSet κ) : meet.le a a := by
  cases meet with
  | intersection => exact fun _ member => member
  | union => exact fun _ member => member

omit [Ord κ] in
theorem Meet.le_trans (meet : Meet) (a b c : OrderedSet κ) (first : meet.le a b) (second : meet.le b c) : meet.le a c := by
  cases meet with
  | intersection => exact fun element member => second element (first element member)
  | union => exact fun element member => first element (second element member)

instance [DecidableEq κ] (a b : OrderedSet κ) : Decidable (a.Subset b) :=
  inferInstanceAs (Decidable (∀ element ∈ a.toList, element ∈ b.toList))

instance [DecidableEq κ] (meet : Meet) (a b : OrderedSet κ) : Decidable (meet.le a b) :=
  match meet with
  | .intersection => inferInstanceAs (Decidable (a.Subset b))
  | .union => inferInstanceAs (Decidable (b.Subset a))

instance [DecidableEq κ] (meet : Meet) (a b : OrderedSet κ) : Decidable (flip meet.le a b) :=
  inferInstanceAs (Decidable (meet.le b a))

variable [Std.TransOrd κ] [Std.LawfulEqOrd κ] (scope : List κ)

namespace OrderedSet

theorem over_adding (set : OrderedSet κ) (inScope : set.Over scope) (element : κ) (member : element ∈ scope) :
    (set.adding element).Over scope := by
  refine ⟨sound_adding set inScope.sound element, fun other inSet => ?_⟩
  cases (mem_adding set inScope.sound element other).mp inSet with
  | inl same => exact same ▸ member
  | inr before => exact inScope.inside other before

theorem over_removing (set : OrderedSet κ) (inScope : set.Over scope) (element : κ) :
    (set.removing element).Over scope :=
  ⟨sound_removing set inScope.sound element,
    fun other inSet => inScope.inside other ((mem_removing set inScope.sound element other).mp inSet).2⟩

theorem over_insert_many (set : OrderedSet κ) (inScope : set.Over scope) (elements : List κ)
    (members : ∀ element ∈ elements, element ∈ scope) : (set.insertMany elements).Over scope := by
  refine ⟨sound_insert_many set inScope.sound elements, fun other inSet => ?_⟩
  cases (mem_insert_many set inScope.sound elements other).mp inSet with
  | inl listed => exact members other listed
  | inr before => exact inScope.inside other before

omit [Std.TransOrd κ] [Std.LawfulEqOrd κ] in
theorem over_empty : (.empty : OrderedSet κ).Over scope :=
  ⟨sound_empty, fun _ member => nomatch member⟩

theorem over_of_list (elements : List κ) (members : ∀ element ∈ elements, element ∈ scope) :
    (ofList elements).Over scope :=
  over_insert_many scope .empty (over_empty scope) elements members

theorem size_le_of_over (set : OrderedSet κ) (inScope : set.Over scope) : set.size ≤ scope.length := by
  rw [← length_to_list set inScope.sound]
  exact (List.subperm_of_subset (nodup_to_list set inScope.sound) inScope.inside).length_le

theorem size_lt_of_subset (a b : OrderedSet κ) (aSound : a.Sound) (bSound : b.Sound) (subset : a.Subset b)
    (strict : ¬ b.Subset a) : a.size < b.size := by
  rw [← length_to_list a aSound, ← length_to_list b bSound]
  have part := List.subperm_of_subset (nodup_to_list a aSound) subset
  by_contra notLess
  have permuted := part.perm_of_length_le (Nat.le_of_not_lt notLess)
  exact strict fun element member => permuted.mem_iff.mpr member

end OrderedSet

def Meet.rank (meet : Meet) (scope : List κ) (set : OrderedSet κ) : Nat :=
  match meet with
  | .intersection => set.size
  | .union => scope.length - set.size

theorem Meet.rank_le (meet : Meet) (set : OrderedSet κ) (inScope : set.Over scope) :
    meet.rank scope set ≤ scope.length := by
  cases meet with
  | intersection => exact OrderedSet.size_le_of_over scope set inScope
  | union => exact Nat.sub_le _ _

theorem Meet.rank_lt (meet : Meet) (a b : OrderedSet κ) (below : Solver.Below (OrderedSet.Over scope) meet.le a b) :
    meet.rank scope a < meet.rank scope b := by
  obtain ⟨aOver, bOver, less, strict⟩ := below
  cases meet with
  | intersection => exact OrderedSet.size_lt_of_subset a b aOver.sound bOver.sound less strict
  | union =>
    have fewer := OrderedSet.size_lt_of_subset b a bOver.sound aOver.sound less strict
    have bound := OrderedSet.size_le_of_over scope a aOver
    simp only [rank]
    omega

theorem Meet.descends (meet : Meet) : WellFounded (Solver.Below (OrderedSet.Over scope) meet.le) :=
  Subrelation.wf (fun {a b} below => meet.rank_lt scope a b below) (InvImage.wf (meet.rank scope) Nat.lt_wfRel.wf)

-- Upward chains end as well, since they are the downward chains of the other meet.
theorem Meet.ascends (meet : Meet) : WellFounded (Solver.Below (OrderedSet.Over scope) (flip meet.le)) := by
  cases meet with
  | union => exact Meet.intersection.descends scope
  | intersection => exact Meet.union.descends scope

namespace Meet

theorem beq_iff_le [BEq κ] [LawfulBEq κ] (meet : Meet) (a b : OrderedSet κ) (aSound : a.Sound) (bSound : b.Sound) :
    (a == b) = true ↔ meet.le a b ∧ meet.le b a := by
  rw [OrderedSet.beq_iff a b aSound bSound]
  cases meet with
  | intersection =>
    exact ⟨fun same => ⟨fun x => (same x).mp, fun x => (same x).mpr⟩, fun both x => ⟨both.1 x, both.2 x⟩⟩
  | union =>
    exact ⟨fun same => ⟨fun x => (same x).mpr, fun x => (same x).mp⟩, fun both x => ⟨both.2 x, both.1 x⟩⟩

variable (meet : Meet) (a b : OrderedSet κ) (aOver : a.Over scope) (bOver : b.Over scope)

include aOver bOver

theorem over_apply : (meet.apply a b).1.Over scope := by
  cases meet with
  | intersection =>
    refine ⟨OrderedSet.sound_inter a b aOver.sound, fun element member => ?_⟩
    exact aOver.inside element ((OrderedSet.mem_inter a b aOver.sound bOver.sound element).mp member).1
  | union =>
    refine ⟨OrderedSet.sound_union a b aOver.sound bOver.sound, fun element member => ?_⟩
    cases (OrderedSet.mem_union a b aOver.sound bOver.sound element).mp member with
    | inl left => exact aOver.inside element left
    | inr right => exact bOver.inside element right

theorem apply_le : meet.le (meet.apply a b).1 a ∧ meet.le (meet.apply a b).1 b := by
  cases meet with
  | intersection =>
    have members := OrderedSet.mem_inter a b aOver.sound bOver.sound
    exact ⟨fun element member => ((members element).mp member).1, fun element member => ((members element).mp member).2⟩
  | union =>
    have members := OrderedSet.mem_union a b aOver.sound bOver.sound
    exact ⟨fun element member => (members element).mpr (.inl member),
      fun element member => (members element).mpr (.inr member)⟩

theorem le_apply (c : OrderedSet κ) (first : meet.le c a) (second : meet.le c b) : meet.le c (meet.apply a b).1 := by
  cases meet with
  | intersection =>
    intro element member
    exact (OrderedSet.mem_inter a b aOver.sound bOver.sound element).mpr ⟨first element member, second element member⟩
  | union =>
    intro element member
    cases (OrderedSet.mem_union a b aOver.sound bOver.sound element).mp member with
    | inl left => exact first element left
    | inr right => exact second element right

end Meet

theorem sets_lawful [BEq κ] [LawfulBEq κ] (meet : Meet) (analysis : Analysis (OrderedSet κ)) (body : Body)
    (mergeIs : analysis.merge = meet.apply) (sameIs : analysis.same = (· == ·))
    (initOver : analysis.init.Over scope) (boundaryOver : analysis.boundary.Over scope)
    (transferOver : ∀ block fact, body.blocks.contains block = true → fact.Over scope →
      (analysis.transfer block fact).Over scope)
    (monotone : ∀ block a b, body.blocks.contains block = true → a.Over scope → b.Over scope → a.Subset b →
      (analysis.transfer block a).Subset (analysis.transfer block b)) :
    analysis.Lawful body (OrderedSet.Over scope) meet.le where
  init := initOver
  boundary := boundaryOver
  transfer := transferOver
  merge := fun a b aOver bOver => mergeIs ▸ meet.over_apply scope a b aOver bOver
  refl := fun a _ => meet.le_refl a
  trans := fun a b c _ _ _ => meet.le_trans a b c
  lower := fun a b aOver bOver => mergeIs ▸ meet.apply_le scope a b aOver bOver
  greatest := fun a b c aOver bOver _ => mergeIs ▸ meet.le_apply scope a b aOver bOver c
  monotone := by
    intro block a b inside aOver bOver less
    cases meet with
    | intersection => exact monotone block a b inside aOver bOver less
    | union => exact monotone block b a inside bOver aOver less
  same_iff := by
    intro a b aOver bOver
    rw [sameIs]
    exact meet.beq_iff_le a b aOver.sound bOver.sound

end Sets

namespace Body

variable {φ : Type}

theorem mem_code_toward (body : Body) (direction : Direction) (block : Block) (inst : Inst) (operation : Operation)
    (member : (inst, operation) ∈ body.codeToward direction block) : body.operation? inst = some operation := by
  have read (insts : List Inst)
      (listed : (inst, operation) ∈ insts.filterMap fun inst => (body.operation? inst).map (inst, ·)) :
      body.operation? inst = some operation := by
    obtain ⟨other, _, found⟩ := List.mem_filterMap.mp listed
    obtain ⟨known, present, same⟩ := Option.map_eq_some_iff.mp found
    cases same
    exact present
  cases direction with
  | forward =>
    rw [codeToward, code] at member
    split at member
    · exact read _ member
    · cases member
  | backward =>
    rw [codeToward, codeRev] at member
    split at member
    · exact read _ member
    · cases member

theorem transfer_code_related (body : Body) (direction : Direction) (step : Inst → Operation → φ → φ) (block : Block)
    (rel : φ → φ → Prop)
    (keeps : ∀ inst operation a b, body.operation? inst = some operation → rel a b →
      rel (step inst operation a) (step inst operation b)) (a b : φ) (related : rel a b) :
    rel (body.transferCode direction step block a) (body.transferCode direction step block b) := by
  unfold transferCode
  have present := mem_code_toward body direction block
  generalize body.codeToward direction block = code at present
  induction code generalizing a b with
  | nil => exact related
  | cons head rest ih =>
    obtain ⟨inst, operation⟩ := head
    exact ih _ _ (keeps inst operation a b (present inst operation List.mem_cons_self) related)
      fun other known member => present other known (List.mem_cons_of_mem _ member)

theorem elementwise_lawful {κ : Type} [Ord κ] [Std.TransOrd κ] [Std.LawfulEqOrd κ] [BEq κ] [LawfulBEq κ] (body : Body)
    (scope : List κ) (meet : Meet) (analysis : Analysis (OrderedSet κ)) (step : Inst → Operation → OrderedSet κ → OrderedSet κ)
    (gains keeps : Inst × Operation → κ → Prop) (elementwise : Elementwise step gains keeps)
    (transfers : analysis.transfer = body.transferCode analysis.direction step) (mergeIs : analysis.merge = meet.apply)
    (sameIs : analysis.same = (· == ·)) (initOver : analysis.init.Over scope) (boundaryOver : analysis.boundary.Over scope)
    (confined : ∀ inst operation, body.operation? inst = some operation → ∀ element, gains (inst, operation) element →
      element ∈ scope) : analysis.Lawful body (OrderedSet.Over scope) meet.le := by
  refine sets_lawful scope meet analysis body mergeIs sameIs initOver boundaryOver ?_ ?_
  · intro block set _ inScope
    rw [transfers]
    refine ⟨elementwise.sound_fold _ set inScope.sound, fun element member => ?_⟩
    rcases (elementwise.mem_fold _ set inScope.sound element).mp member with ⟨front, entry, back, whole, gained, _⟩ | ⟨_, before⟩
    · have inCode : entry ∈ body.codeToward analysis.direction block := whole ▸ List.mem_append_right front List.mem_cons_self
      exact confined entry.1 entry.2 (mem_code_toward body _ block entry.1 entry.2 inCode) element gained
    · exact inScope.inside element before
  · intro block a b _ aOver bOver subset
    rw [transfers]
    exact elementwise.fold_mono _ a b aOver.sound bOver.sound subset

theorem sound_all_blocks (body : Body) : body.allBlocks.Sound := by
  refine OrderedSet.sound_of_ascending _ (List.pairwise_map.mpr ?_)
  exact List.pairwise_lt_range.imp fun {a b} less => Nat.compare_eq_lt.mpr less

theorem mem_all_blocks (body : Body) (block : Block) :
    block ∈ body.allBlocks.toList ↔ body.blocks.contains block = true := by
  rw [allBlocks, OrderedSet.to_list_of_ascending, Arena.mem_refs_iff]

theorem block_sets_lawful (body : Body) (scope : List Block) (blocks : ∀ block ∈ body.blocks.refs, block ∈ scope)
    (direction : Direction) (tag : Nat) (meet : Meet) (init boundary : OrderedSet Block) (initOver : init.Over scope)
    (boundaryOver : boundary.Over scope) :
    (blockSets direction tag meet init boundary).Lawful body (OrderedSet.Over scope) meet.le := by
  refine sets_lawful scope meet _ body rfl rfl initOver boundaryOver ?_ ?_
  · intro block fact inside inScope
    exact OrderedSet.over_adding scope fact inScope block (blocks block ((Arena.mem_refs_iff _ _).mpr inside))
  · intro block a b _ aOver bOver subset element member
    refine (OrderedSet.mem_adding b bOver.sound block element).mpr ?_
    exact ((OrderedSet.mem_adding a aOver.sound block element).mp member).imp id (subset element)

theorem dominator_lawful (body : Body) (entry : body.blocks.contains body.entry = true) (scope : List Block)
    (blocks : ∀ block ∈ body.blocks.refs, block ∈ scope) :
    body.dominatorAnalysis.Lawful body (OrderedSet.Over scope) (Meet.le .intersection) := by
  refine block_sets_lawful body scope blocks _ _ _ _ _ ⟨sound_all_blocks body, fun block member => ?_⟩ ?_
  · exact blocks block ((Arena.mem_refs_iff _ _).mpr ((mem_all_blocks body block).mp member))
  · refine OrderedSet.over_of_list scope _ fun block member => ?_
    rw [List.mem_singleton.mp member]
    exact blocks _ ((Arena.mem_refs_iff _ _).mpr entry)

end Body

namespace Liveness

theorem mem_step (inst : Inst) (operation : Operation) (live : OrderedSet Var) (sound : live.Sound) (var : Var) :
    var ∈ (step inst operation live).toList ↔
      var ∈ operation.usedVars ∨ operation.def? ≠ some var ∧ var ∈ live.toList := by
  unfold step
  cases defined : operation.def? with
  | none => simp [OrderedSet.mem_insert_many live sound]
  | some dst =>
    rw [OrderedSet.mem_insert_many _ (OrderedSet.sound_removing live sound dst), OrderedSet.mem_removing live sound dst]
    simp [eq_comm]

theorem sound_step (inst : Inst) (operation : Operation) (live : OrderedSet Var) (sound : live.Sound) :
    (step inst operation live).Sound := by
  rw [step]
  apply OrderedSet.sound_insert_many
  cases operation.def? with
  | none => exact sound
  | some dst => exact OrderedSet.sound_removing live sound dst

theorem elementwise : Elementwise step (fun entry var => var ∈ entry.2.usedVars) (fun entry var => entry.2.def? ≠ some var) where
  sound := sound_step
  members := mem_step

end Liveness

theorem Body.liveness_lawful (body : Body) (scope : List Var)
    (used : ∀ inst operation, body.operation? inst = some operation → ∀ var ∈ operation.usedVars, var ∈ scope) :
    body.livenessAnalysis.Lawful body (OrderedSet.Over scope) (Meet.le .union) := by
  exact elementwise_lawful body scope .union _ _ _ _ Liveness.elementwise rfl rfl rfl (OrderedSet.over_empty scope)
    (OrderedSet.over_empty scope) used

namespace Copies

theorem mem_kill (copies : Copies) (which : Copy → Bool) (holding : OrderedSet Inst) (sound : holding.Sound) (inst : Inst) :
    inst ∈ (copies.kill which holding).toList ↔
      (∀ copy ∈ copies.list, which copy = true → copy.inst ≠ inst) ∧ inst ∈ holding.toList := by
  rw [kill, OrderedSet.mem_erase_many holding sound]
  refine and_congr_left fun _ => ?_
  simp only [List.mem_map, List.mem_filter, not_exists, not_and, and_imp]

def ends (copies : Copies) (operation : Operation) (copy : Copy) : Bool :=
  operation.def?.any copy.mentions || operation.clobbersMemory && copies.inMemory copy

def unwritten (copies : Copies) (operation : Operation) (holding : OrderedSet Inst) : OrderedSet Inst :=
  match operation.def? with
  | some dst => copies.kill (·.mentions dst) holding
  | none => holding

def surviving (copies : Copies) (operation : Operation) (holding : OrderedSet Inst) : OrderedSet Inst :=
  if operation.clobbersMemory then copies.kill copies.inMemory (copies.unwritten operation holding)
  else copies.unwritten operation holding

theorem step_eq (copies : Copies) (inst : Inst) (operation : Operation) (holding : OrderedSet Inst) :
    copies.step inst operation holding =
      if (copies.find? inst).isSome then (copies.surviving operation holding).adding inst
      else copies.surviving operation holding := by
  unfold step surviving unwritten
  cases operation.def? <;> rfl

theorem sound_unwritten (copies : Copies) (operation : Operation) (holding : OrderedSet Inst) (sound : holding.Sound) :
    (copies.unwritten operation holding).Sound := by
  unfold unwritten
  cases operation.def? with
  | none => exact sound
  | some dst => exact OrderedSet.sound_erase_many holding sound _

theorem sound_surviving (copies : Copies) (operation : Operation) (holding : OrderedSet Inst) (sound : holding.Sound) :
    (copies.surviving operation holding).Sound := by
  have unwritten := sound_unwritten copies operation holding sound
  unfold surviving
  cases operation.clobbersMemory with
  | false => exact unwritten
  | true => exact OrderedSet.sound_erase_many _ unwritten _

theorem mem_surviving (copies : Copies) (operation : Operation) (holding : OrderedSet Inst) (sound : holding.Sound)
    (inst : Inst) :
    inst ∈ (copies.surviving operation holding).toList ↔
      (∀ copy ∈ copies.list, copies.ends operation copy = true → copy.inst ≠ inst) ∧ inst ∈ holding.toList := by
  have unwrittenSound := sound_unwritten copies operation holding sound
  have unwrittenMembers : inst ∈ (copies.unwritten operation holding).toList ↔
      (∀ copy ∈ copies.list, operation.def?.any copy.mentions = true → copy.inst ≠ inst) ∧ inst ∈ holding.toList := by
    unfold unwritten
    cases operation.def? with
    | none => simp
    | some dst => exact mem_kill copies _ holding sound inst
  unfold surviving
  cases clobbers : operation.clobbersMemory with
  | false => simpa [ends, clobbers] using unwrittenMembers
  | true =>
    rw [if_pos rfl, mem_kill copies copies.inMemory _ unwrittenSound, unwrittenMembers, ← and_assoc]
    refine and_congr_left fun _ => ?_
    simp only [ends, clobbers, Bool.true_and, Bool.or_eq_true]
    constructor
    · exact fun both copy listed ended => ended.elim (both.2 copy listed) (both.1 copy listed)
    · exact fun all => ⟨fun copy listed inMemory => all copy listed (.inr inMemory),
        fun copy listed mentions => all copy listed (.inl mentions)⟩

theorem mem_step (copies : Copies) (inst : Inst) (operation : Operation) (holding : OrderedSet Inst)
    (sound : holding.Sound) (other : Inst) :
    other ∈ (copies.step inst operation holding).toList ↔
      other = inst ∧ (copies.find? inst).isSome = true ∨
        (∀ copy ∈ copies.list, copies.ends operation copy = true → copy.inst ≠ other) ∧ other ∈ holding.toList := by
  have survivingSound := sound_surviving copies operation holding sound
  have members := mem_surviving copies operation holding sound other
  rw [step_eq]
  by_cases listed : (copies.find? inst).isSome = true
  · rw [if_pos listed, OrderedSet.mem_adding _ survivingSound, members]
    simp [listed]
  · rw [if_neg listed, members]
    simp [listed]

theorem sound_step (copies : Copies) (inst : Inst) (operation : Operation) (holding : OrderedSet Inst) (sound : holding.Sound) :
    (copies.step inst operation holding).Sound := by
  have surviving := sound_surviving copies operation holding sound
  rw [step_eq]
  by_cases listed : (copies.find? inst).isSome = true
  · rw [if_pos listed]
    exact OrderedSet.sound_adding _ surviving inst
  · rw [if_neg listed]
    exact surviving

def Makes (copies : Copies) (entry : Inst × Operation) (inst : Inst) : Prop :=
  inst = entry.1 ∧ (copies.find? entry.1).isSome = true

def Spares (copies : Copies) (entry : Inst × Operation) (inst : Inst) : Prop :=
  ∀ copy ∈ copies.list, copies.ends entry.2 copy = true → copy.inst ≠ inst

theorem elementwise (copies : Copies) : Elementwise copies.step copies.Makes copies.Spares where
  sound := sound_step copies
  members := mem_step copies

theorem find_is_some_iff (copies : Copies) (inst : Inst) :
    (copies.find? inst).isSome = true ↔ ∃ copy ∈ copies.list, copy.inst = inst := by
  rw [find?, List.find?_isSome]
  simp only [beq_iff_eq]

theorem lawful (copies : Copies) (body : Body) (scope : List Inst) (allOver : copies.all.Over scope)
    (listed : ∀ copy ∈ copies.list, copy.inst ∈ scope) :
    (copies.analysis body).Lawful body (OrderedSet.Over scope) (Meet.le .intersection) := by
  apply Body.elementwise_lawful body scope .intersection _ _ _ _ copies.elementwise rfl rfl rfl allOver (OrderedSet.over_empty scope)
  intro inst operation _ made ⟨own, tracked⟩
  obtain ⟨copy, member, same⟩ := (copies.find_is_some_iff inst).mp tracked
  rw [own, ← same]
  exact listed copy member

end Copies

end ThreeAddress
