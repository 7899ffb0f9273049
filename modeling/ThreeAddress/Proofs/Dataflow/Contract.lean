import Mathlib.Order.WithBot
import ThreeAddress.Proofs.Dataflow.Settling
import ThreeAddress.Proofs.OrderedMap.Changes

/-!
What the solver asks of an analysis, and that the analyses of a body give it: facts form a meet semilattice with the
initial fact on top, merging tells of every change, transfer is monotone, and no chain of facts falls for ever.
-/

set_option autoImplicit false

namespace ThreeAddress

variable {φ : Type}

-- Facts are told apart by the test of the analysis, which does not look at the shape of a tree.
structure Analysis.Contract (analysis : Analysis φ) (body : Body) (carrier : φ → Prop) (le : φ → φ → Prop) : Prop
    extends analysis.Lawful body carrier le where
  idempotent : ∀ a, carrier a → analysis.same (analysis.merge a a).1 a = true
  commutative : ∀ a b, carrier a → carrier b → analysis.same (analysis.merge a b).1 (analysis.merge b a).1 = true
  associative : ∀ a b c, carrier a → carrier b → carrier c →
    analysis.same (analysis.merge (analysis.merge a b).1 c).1 (analysis.merge a (analysis.merge b c).1).1 = true
  identity : ∀ a, carrier a → analysis.same (analysis.merge analysis.init a).1 a = true ∧
    analysis.same (analysis.merge a analysis.init).1 a = true
  tells : ∀ a b, carrier a → carrier b →
    ((analysis.merge a b).2 = true ↔ analysis.same (analysis.merge a b).1 a = false)
  descends : WellFounded (Solver.Below carrier le)

section Semilattice

variable (analysis : Analysis φ) (body : Body) (carrier : φ → Prop) (le : φ → φ → Prop)
  (laws : analysis.Lawful body carrier le)

include laws

theorem same_of_lower_iff (a b : φ) (aIn : carrier a) (bIn : carrier b)
    (lower : ∀ low, carrier low → (le low a ↔ le low b)) : analysis.same a b = true :=
  (laws.same_iff a b aIn bIn).mpr ⟨(lower a aIn).mp (laws.refl a aIn), (lower b bIn).mpr (laws.refl b bIn)⟩

theorem le_merge_iff (a b low : φ) (aIn : carrier a) (bIn : carrier b) (lowIn : carrier low) :
    le low (analysis.merge a b).1 ↔ le low a ∧ le low b := by
  have mergeIn := laws.merge a b aIn bIn
  obtain ⟨left, right⟩ := laws.lower a b aIn bIn
  constructor
  · intro below
    exact ⟨laws.trans _ _ _ lowIn mergeIn aIn below left, laws.trans _ _ _ lowIn mergeIn bIn below right⟩
  · exact fun both => laws.greatest a b low aIn bIn lowIn both.1 both.2

theorem contract_of_lawful (top : ∀ a, carrier a → le a analysis.init)
    (tells : ∀ a b, carrier a → carrier b →
      ((analysis.merge a b).2 = true ↔ analysis.same (analysis.merge a b).1 a = false))
    (descends : WellFounded (Solver.Below carrier le)) : analysis.Contract body carrier le := by
  have merges := laws.merge
  have meets := le_merge_iff analysis body carrier le laws
  have same := same_of_lower_iff analysis body carrier le laws
  refine ⟨laws, ?_, ?_, ?_, ?_, tells, descends⟩
  · intro a aIn
    refine same _ a (merges a a aIn aIn) aIn fun low lowIn => ?_
    rw [meets a a low aIn aIn lowIn, and_self]
  · intro a b aIn bIn
    refine same _ _ (merges a b aIn bIn) (merges b a bIn aIn) fun low lowIn => ?_
    rw [meets a b low aIn bIn lowIn, meets b a low bIn aIn lowIn, and_comm]
  · intro a b c aIn bIn cIn
    have abIn := merges a b aIn bIn
    have bcIn := merges b c bIn cIn
    refine same _ _ (merges _ c abIn cIn) (merges a _ aIn bcIn) fun low lowIn => ?_
    rw [meets _ c low abIn cIn lowIn, meets a b low aIn bIn lowIn, meets a _ low aIn bcIn lowIn,
      meets b c low bIn cIn lowIn, and_assoc]
  · intro a aIn
    have below (low : φ) (lowIn : carrier low) (lower : le low a) : le low analysis.init :=
      laws.trans low a _ lowIn aIn laws.init lower (top a aIn)
    constructor
    · refine same _ a (merges _ a laws.init aIn) aIn fun low lowIn => ?_
      rw [meets _ a low laws.init aIn lowIn, and_iff_right_of_imp (below low lowIn)]
    · refine same _ a (merges a _ aIn laws.init) aIn fun low lowIn => ?_
      rw [meets a _ low aIn laws.init lowIn, and_iff_left_of_imp (below low lowIn)]

end Semilattice

-- Laws that hold over every small carrier hold over a large one that is covered by them.
theorem lawful_of_cover {ι : Type} (analysis : Analysis φ) (body : Body) (small : ι → φ → Prop) (carrier : φ → Prop)
    (le : φ → φ → Prop) (laws : ∀ index, analysis.Lawful body (small index) le)
    (inside : ∀ index a, small index a → carrier a)
    (covers : ∀ a b c, carrier a → carrier b → carrier c → ∃ index, small index a ∧ small index b ∧ small index c)
    (some : ι) : analysis.Lawful body carrier le where
  init := inside some _ (laws some).init
  boundary := inside some _ (laws some).boundary
  merge := fun a b aIn bIn =>
    have ⟨index, aSmall, bSmall, _⟩ := covers a b b aIn bIn bIn
    inside index _ ((laws index).merge a b aSmall bSmall)
  transfer := fun block a here aIn =>
    have ⟨index, aSmall, _, _⟩ := covers a a a aIn aIn aIn
    inside index _ ((laws index).transfer block a here aSmall)
  refl := fun a aIn =>
    have ⟨index, aSmall, _, _⟩ := covers a a a aIn aIn aIn
    (laws index).refl a aSmall
  trans := fun a b c aIn bIn cIn =>
    have ⟨index, aSmall, bSmall, cSmall⟩ := covers a b c aIn bIn cIn
    (laws index).trans a b c aSmall bSmall cSmall
  lower := fun a b aIn bIn =>
    have ⟨index, aSmall, bSmall, _⟩ := covers a b b aIn bIn bIn
    (laws index).lower a b aSmall bSmall
  greatest := fun a b c aIn bIn cIn =>
    have ⟨index, aSmall, bSmall, cSmall⟩ := covers a b c aIn bIn cIn
    (laws index).greatest a b c aSmall bSmall cSmall
  monotone := fun block a b here aIn bIn =>
    have ⟨index, aSmall, bSmall, _⟩ := covers a b b aIn bIn bIn
    (laws index).monotone block a b here aSmall bSmall
  same_iff := fun a b aIn bIn =>
    have ⟨index, aSmall, bSmall, _⟩ := covers a b b aIn bIn bIn
    (laws index).same_iff a b aSmall bSmall

section Tells

variable {κ ν : Type} [Ord κ] [Std.TransOrd κ] [Std.LawfulEqOrd κ] [BEq κ] [LawfulBEq κ]

theorem OrderedMap.changed_iff [BEq ν] [LawfulBEq ν] (map merged : OrderedMap κ ν) (sound : map.Sound)
    (mergedSound : merged.Sound) (changed : Bool) (exact : changed = true ↔ merged.toList ≠ map.toList) :
    changed = true ↔ (merged == map) = false := by
  rw [exact, ← Bool.not_eq_true, OrderedMap.beq_iff merged map mergedSound sound]

theorem Meet.tells_change (meet : Meet) (a b : OrderedSet κ) (aSound : a.Sound) (bSound : b.Sound) :
    (meet.apply a b).2 = true ↔ ((meet.apply a b).1 == a) = false := by
  cases meet with
  | union =>
    exact OrderedMap.changed_iff a.map _ aSound (OrderedMap.sound_union a.map b.map aSound bSound) _
      (OrderedMap.union_changed_iff a.map b.map)
  | intersection =>
    exact OrderedMap.changed_iff a.map _ aSound (OrderedMap.sound_inter a.map b.map aSound) _
      (OrderedMap.inter_changed_iff a.map b.map)

theorem Bindings.tells_change [BEq ν] [LawfulBEq ν] (a b : Bindings κ ν) (aSound : a.Sound) (bSound : b.Sound) :
    (a.meet b).2 = true ↔ ((a.meet b).1 == a) = false := by
  cases b with
  | top =>
    cases a with
    | top => exact ⟨nofun, nofun⟩
    | known map =>
      have itself : (known map == known map) = true := beq_self_eq_true map
      exact ⟨nofun, fun differs => absurd (itself.symm.trans differs) nofun⟩
  | known other =>
    cases a with
    | top => exact ⟨fun _ => rfl, fun _ => rfl⟩
    | known map =>
      exact OrderedMap.changed_iff map _ (aSound map rfl) (OrderedMap.sound_agreeing map other (aSound map rfl)) _
        (OrderedMap.agreeing_changed_iff map other (aSound map rfl))

end Tells

theorem sets_contract {κ : Type} [Ord κ] [Std.TransOrd κ] [Std.LawfulEqOrd κ] [BEq κ] [LawfulBEq κ] (scope : List κ)
    (meet : Meet) (analysis : Analysis (OrderedSet κ)) (body : Body) (mergeIs : analysis.merge = meet.apply)
    (sameIs : analysis.same = (· == ·)) (laws : analysis.Lawful body (OrderedSet.Over scope) meet.le)
    (top : ∀ set : OrderedSet κ, set.Over scope → meet.le set analysis.init) :
    analysis.Contract body (OrderedSet.Over scope) meet.le := by
  refine contract_of_lawful analysis body _ _ laws top (fun a b aOver bOver => ?_) (meet.descends scope)
  rw [mergeIs, sameIs]
  exact meet.tells_change a b aOver.sound bOver.sound

namespace Bindings

variable {κ ν : Type} [Ord κ]

def height : Bindings κ ν → WithTop Nat
  | top => ⊤
  | known map => .some map.size

def keys : Bindings κ ν → List κ
  | top => []
  | known map => map.keys

theorem over_of_keys (scope : List κ) (fact : Bindings κ ν) (sound : fact.Sound) (inside : ∀ key ∈ fact.keys, key ∈ scope) :
    fact.Over scope := by
  cases fact with
  | top => trivial
  | known map => exact ⟨sound map rfl, inside⟩

theorem sound_of_over (scope : List κ) (fact : Bindings κ ν) (covered : fact.Over scope) : fact.Sound := by
  intro map known
  subst known
  exact covered.1

variable [Std.TransOrd κ] [Std.LawfulEqOrd κ]

theorem height_lt (a b : Bindings κ ν) (below : Solver.Below Sound le a b) : a.height < b.height := by
  obtain ⟨aSound, bSound, less, strict⟩ := below
  have aOver := over_of_keys (a.keys ++ b.keys) a aSound fun key => List.mem_append_left b.keys
  have bOver := over_of_keys (a.keys ++ b.keys) b bSound fun key => List.mem_append_right a.keys
  have ranks := rank_lt (a.keys ++ b.keys) a b ⟨aOver, bOver, less, strict⟩
  cases b with
  | top =>
    cases a with
    | top => exact (strict trivial).elim
    | known map => exact WithTop.coe_lt_top map.size
  | known other =>
    cases a with
    | top => exact less.elim
    | known map => exact WithTop.coe_lt_coe.mpr ranks

theorem sound_descends : WellFounded (Solver.Below Sound (le : Bindings κ ν → Bindings κ ν → Prop)) :=
  Subrelation.wf (fun {a b} below => height_lt a b below) (InvImage.wf height wellFounded_lt)

end Bindings

namespace Constants

theorem sound_lawful (pinned : OrderedSet Var) (body : Body) :
    (analysis pinned body).Lawful body Bindings.Sound Bindings.le := by
  refine lawful_of_cover (analysis pinned body) body (fun scope : List Var => Bindings.Over (body.definedScope ++ scope))
    Bindings.Sound Bindings.le (fun scope => ?_) (fun scope => Bindings.sound_of_over _) (fun a b c aSound bSound cSound => ?_) []
  · refine lawful pinned body _ fun inst operation found dst defined => ?_
    exact List.mem_append_left scope (Body.mem_defined_scope body inst operation found dst defined)
  · refine ⟨a.keys ++ b.keys ++ c.keys, ?_, ?_, ?_⟩
    · exact Bindings.over_of_keys _ a aSound fun key bound => by simp [bound]
    · exact Bindings.over_of_keys _ b bSound fun key bound => by simp [bound]
    · exact Bindings.over_of_keys _ c cSound fun key bound => by simp [bound]

theorem contract (pinned : OrderedSet Var) (body : Body) :
    (analysis pinned body).Contract body Bindings.Sound Bindings.le := by
  refine contract_of_lawful (analysis pinned body) body _ _ (sound_lawful pinned body) (fun fact _ => ?_)
    (fun a b aSound bSound => Bindings.tells_change a b aSound bSound) Bindings.sound_descends
  cases fact <;> trivial

end Constants

namespace Body

variable (body : Body)

theorem dominator_contract (entry : body.blocks.contains body.entry = true) :
    body.dominatorAnalysis.Contract body (OrderedSet.Over body.blocks.refs) (Meet.le .intersection) := by
  have laws := dominator_lawful body entry body.blocks.refs fun _ member => member
  refine sets_contract body.blocks.refs .intersection _ body rfl rfl laws fun set covered block member => ?_
  exact (mem_all_blocks body block).mpr ((Arena.mem_refs_iff _ block).mp (covered.inside block member))

theorem liveness_contract (scope : List Var) (used : ∀ var ∈ body.usedScope, var ∈ scope) :
    body.livenessAnalysis.Contract body (OrderedSet.Over scope) (Meet.le .union) := by
  have laws := liveness_lawful body scope fun inst operation found var member =>
    used var (mem_used_scope body inst operation found var member)
  exact sets_contract scope .union _ body rfl rfl laws fun set _ var member => nomatch member

theorem copies_contract (layout : Block → List Inst) (copies : Copies) (copiesOf : CopiesOf body layout copies) :
    (copies.analysis body).Contract body (OrderedSet.Over copies.all.toList) (Meet.le .intersection) := by
  have laws := tracked_lawful body layout copies copiesOf
  exact sets_contract copies.all.toList .intersection _ body rfl rfl laws fun set covered inst member => covered.inside inst member

-- Sets of blocks, of tracked copies, of any variables that include those that are read, and any bindings at all.
theorem analyses_meet_contract (accepted : body.check = .ok ()) :
    body.dominatorAnalysis.Contract body (OrderedSet.Over body.blocks.refs) (Meet.le .intersection) ∧
    (∃ copies, body.copies = .ok copies ∧
      (copies.analysis body).Contract body (OrderedSet.Over copies.all.toList) (Meet.le .intersection)) ∧
    (∃ constants, body.constantAnalysis = .ok constants ∧ constants.Contract body Bindings.Sound Bindings.le) ∧
    ∀ scope, (∀ var ∈ body.usedScope, var ∈ scope) →
      body.livenessAnalysis.Contract body (OrderedSet.Over scope) (Meet.le .union) := by
  have wellFormed := well_formed_of_check body accepted
  refine ⟨dominator_contract body wellFormed.entry, ?_, ?_, liveness_contract body⟩
  · obtain ⟨copies, found, copiesOf⟩ := copies_total body body.layout wellFormed.laid
    exact ⟨copies, found, copies_contract body body.layout copies copiesOf⟩
  · obtain ⟨pinned, taken, _⟩ := address_taken_total body body.layout wellFormed.laid
    refine ⟨Constants.analysis pinned body, ?_, Constants.contract pinned body⟩
    rw [constantAnalysis, taken]
    rfl

-- A copy, then a store through a pointer to its source and a division, in a block that loops.
def churn : Body where
  name := "churn"
  entry := .nth 0
  blocks := .ofList [{ chain := ⟨.nth 0, .nth 1, 2⟩, succs := [.nth 1] },
    { chain := ⟨.nth 2, .nth 4, 3⟩, succs := [.nth 1], preds := [.nth 0, .nth 1] }]
  cells := .ofList [
    { operation := .param (.nth 0), block := .nth 0, next := .nth 1 },
    { operation := .assign (.nth 1) (.var (.nth 0)), block := .nth 0, prev := .nth 0 },
    { operation := .addrOf (.nth 2) (.nth 0), block := .nth 1, next := .nth 3 },
    { operation := .store (.var (.nth 2)) (.var (.nth 1)), block := .nth 1, prev := .nth 2, next := .nth 4 },
    { operation := .binary .div (.nth 3) (.var (.nth 1)) (.var (.nth 0)), block := .nth 1, prev := .nth 3 }]
  vars := .ofList [some "x", some "y", some "p", some "q"]

theorem churn_meets_contract : churn.check = .ok () ∧
    churn.dominatorAnalysis.Contract churn (OrderedSet.Over churn.blocks.refs) (Meet.le .intersection) ∧
    (∃ copies, churn.copies = .ok copies ∧
      (copies.analysis churn).Contract churn (OrderedSet.Over copies.all.toList) (Meet.le .intersection)) ∧
    (∃ constants, churn.constantAnalysis = .ok constants ∧ constants.Contract churn Bindings.Sound Bindings.le) ∧
    churn.livenessAnalysis.Contract churn (OrderedSet.Over churn.usedScope) (Meet.le .union) := by
  have accepted : churn.check = .ok () := by rfl
  obtain ⟨dominators, copies, constants, liveness⟩ := analyses_meet_contract churn accepted
  exact ⟨accepted, dominators, copies, constants, liveness churn.usedScope fun _ member => member⟩

end Body

end ThreeAddress
