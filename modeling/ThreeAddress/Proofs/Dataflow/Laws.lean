import ThreeAddress.Proofs.Dataflow.Worklist
import ThreeAddress.Proofs.Body.WellFormed

/-!
The laws of an analysis. Facts are ordered from little to much, paths join in the meet of two facts, and a
block turns larger facts into larger ones. A carrier says which values are facts at all.
-/

set_option autoImplicit false

namespace ThreeAddress

variable {φ : Type}

namespace Solver

def start (analysis : Analysis φ) (body : Body) (block : Block) : φ :=
  match analysis.direction with
  | .forward => if block = body.entry then analysis.boundary else analysis.init
  | .backward => if (body.succs block).isEmpty then analysis.boundary else analysis.init

def sources (analysis : Analysis φ) (body : Body) (block : Block) : List Block :=
  match analysis.direction with
  | .forward => body.preds block
  | .backward => body.succs block

def meetFrom (analysis : Analysis φ) (outs : Block → φ) (fact : φ) (blocks : List Block) : φ :=
  blocks.foldl (fun fact block => (analysis.merge fact (outs block)).1) fact

def joined (analysis : Analysis φ) (body : Body) (outs : Block → φ) (block : Block) : φ :=
  meetFrom analysis outs (start analysis body block) (sources analysis body block)

def recomputed (analysis : Analysis φ) (body : Body) (outs : Block → φ) (block : Block) : φ :=
  analysis.transfer block (joined analysis body outs block)

theorem incoming_eq_joined (analysis : Analysis φ) (body : Body) (facts : BlockFacts φ) (block : Block) :
    incoming analysis body facts block = joined analysis body (outgoing analysis facts) block := by
  unfold incoming joined start sources meetFrom outgoing
  cases analysis.direction <;> rfl

theorem meet_from_congr (analysis : Analysis φ) (outs others : Block → φ) (fact : φ) (blocks : List Block)
    (same : ∀ block ∈ blocks, outs block = others block) :
    meetFrom analysis outs fact blocks = meetFrom analysis others fact blocks := by
  induction blocks generalizing fact with
  | nil => rfl
  | cons block rest ih =>
    simp only [meetFrom, List.foldl_cons, same block List.mem_cons_self]
    exact ih _ fun other member => same other (List.mem_cons_of_mem _ member)

theorem sources_inside (analysis : Analysis φ) (body : Body) (edges : body.EdgesAgree) (block source : Block)
    (member : source ∈ sources analysis body block) : body.blocks.contains source = true := by
  unfold sources at member
  cases direction : analysis.direction with
  | forward =>
    simp only [direction] at member
    exact edges.predInside block source member
  | backward =>
    simp only [direction] at member
    exact edges.succInside block source member

theorem mem_readers_iff (analysis : Analysis φ) (body : Body) (edges : body.EdgesAgree) (source block : Block) :
    block ∈ readers analysis body source ↔ source ∈ sources analysis body block := by
  unfold readers sources
  cases analysis.direction with
  | forward => exact Body.edges_mem_iff body edges source block
  | backward => exact (Body.edges_mem_iff body edges block source).symm

end Solver

structure Analysis.Carries (analysis : Analysis φ) (body : Body) (carrier : φ → Prop) : Prop where
  init : carrier analysis.init
  boundary : carrier analysis.boundary
  merge : ∀ a b, carrier a → carrier b → carrier (analysis.merge a b).1
  transfer : ∀ block fact, body.blocks.contains block = true → carrier fact → carrier (analysis.transfer block fact)

structure Analysis.Lawful (analysis : Analysis φ) (body : Body) (carrier : φ → Prop) (le : φ → φ → Prop) : Prop
    extends analysis.Carries body carrier where
  refl : ∀ a, carrier a → le a a
  trans : ∀ a b c, carrier a → carrier b → carrier c → le a b → le b c → le a c
  lower : ∀ a b, carrier a → carrier b → le (analysis.merge a b).1 a ∧ le (analysis.merge a b).1 b
  greatest : ∀ a b c, carrier a → carrier b → carrier c → le c a → le c b → le c (analysis.merge a b).1
  monotone : ∀ block a b, body.blocks.contains block = true → carrier a → carrier b → le a b →
    le (analysis.transfer block a) (analysis.transfer block b)
  same_iff : ∀ a b, carrier a → carrier b → (analysis.same a b = true ↔ le a b ∧ le b a)

namespace Solver

section Carrier

variable (analysis : Analysis φ) (body : Body) (carrier : φ → Prop) (carries : analysis.Carries body carrier)

include carries

theorem start_carried (block : Block) : carrier (start analysis body block) := by
  unfold start
  cases analysis.direction with
  | forward =>
    by_cases entry : block = body.entry
    · simpa [entry] using carries.boundary
    · simpa [entry] using carries.init
  | backward =>
    cases (body.succs block).isEmpty with
    | true => exact carries.boundary
    | false => exact carries.init

theorem meet_from_carried (outs : Block → φ) (fact : φ) (blocks : List Block) (factIn : carrier fact)
    (outsIn : ∀ block, carrier (outs block)) : carrier (meetFrom analysis outs fact blocks) := by
  induction blocks generalizing fact with
  | nil => exact factIn
  | cons block rest ih => exact ih _ (carries.merge fact (outs block) factIn (outsIn block))

theorem joined_carried (outs : Block → φ) (outsIn : ∀ block, carrier (outs block)) (block : Block) :
    carrier (joined analysis body outs block) :=
  meet_from_carried analysis body carrier carries outs _ _ (start_carried analysis body carrier carries block) outsIn

theorem recomputed_carried (outs : Block → φ) (outsIn : ∀ block, carrier (outs block)) (block : Block)
    (inside : body.blocks.contains block = true) : carrier (recomputed analysis body outs block) :=
  carries.transfer block _ inside (joined_carried analysis body carrier carries outs outsIn block)

end Carrier

section Order

variable (analysis : Analysis φ) (body : Body) (carrier : φ → Prop) (le : φ → φ → Prop)
  (laws : analysis.Lawful body carrier le)

include laws

theorem le_meet_from_iff (outs : Block → φ) (fact low : φ) (blocks : List Block) (factIn : carrier fact)
    (lowIn : carrier low) (outsIn : ∀ block, carrier (outs block)) :
    le low (meetFrom analysis outs fact blocks) ↔ le low fact ∧ ∀ block ∈ blocks, le low (outs block) := by
  induction blocks generalizing fact with
  | nil => simp [meetFrom]
  | cons block rest ih =>
    have mergeIn := laws.merge fact (outs block) factIn (outsIn block)
    have below := laws.lower fact (outs block) factIn (outsIn block)
    have split : le low (analysis.merge fact (outs block)).1 ↔ le low fact ∧ le low (outs block) := by
      constructor
      · intro low_le
        exact ⟨laws.trans _ _ _ lowIn mergeIn factIn low_le below.1,
          laws.trans _ _ _ lowIn mergeIn (outsIn block) low_le below.2⟩
      · exact fun both => laws.greatest _ _ _ factIn (outsIn block) lowIn both.1 both.2
    rw [meetFrom, List.foldl_cons, ← meetFrom, ih _ mergeIn, split, List.forall_mem_cons, and_assoc]

theorem joined_le (outs : Block → φ) (outsIn : ∀ block, carrier (outs block)) (block : Block) :
    le (joined analysis body outs block) (start analysis body block) ∧
      ∀ source ∈ sources analysis body block, le (joined analysis body outs block) (outs source) := by
  have joinedIn := joined_carried analysis body carrier laws.toCarries outs outsIn block
  exact (le_meet_from_iff analysis body carrier le laws outs _ _ _
    (start_carried analysis body carrier laws.toCarries block) joinedIn outsIn).mp (laws.refl _ joinedIn)

theorem joined_mono (outs others : Block → φ) (outsIn : ∀ block, carrier (outs block))
    (othersIn : ∀ block, carrier (others block)) (block : Block)
    (below : ∀ source ∈ sources analysis body block, le (outs source) (others source)) :
    le (joined analysis body outs block) (joined analysis body others block) := by
  have joinedIn := joined_carried analysis body carrier laws.toCarries outs outsIn block
  obtain ⟨first, each⟩ := joined_le analysis body carrier le laws outs outsIn block
  refine (le_meet_from_iff analysis body carrier le laws others _ _ _
    (start_carried analysis body carrier laws.toCarries block) joinedIn othersIn).mpr ⟨first, fun source member => ?_⟩
  exact laws.trans _ _ _ joinedIn (outsIn source) (othersIn source) (each source member) (below source member)

theorem recomputed_mono (outs others : Block → φ) (outsIn : ∀ block, carrier (outs block))
    (othersIn : ∀ block, carrier (others block)) (block : Block) (inside : body.blocks.contains block = true)
    (below : ∀ source ∈ sources analysis body block, le (outs source) (others source)) :
    le (recomputed analysis body outs block) (recomputed analysis body others block) :=
  laws.monotone block _ _ inside (joined_carried analysis body carrier laws.toCarries outs outsIn block)
    (joined_carried analysis body carrier laws.toCarries others othersIn block)
    (joined_mono analysis body carrier le laws outs others outsIn othersIn block below)

end Order

end Solver

end ThreeAddress
