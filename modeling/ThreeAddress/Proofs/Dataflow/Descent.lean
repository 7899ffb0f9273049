import Mathlib.Data.DFinsupp.WellFounded
import ThreeAddress.Proofs.Dataflow.Runs

/-!
From facts that no visit moves up, every visit moves facts down, so the worklist runs empty. The same holds
with the order turned round.
-/

set_option autoImplicit false

namespace ThreeAddress.Solver

variable {φ : Type}

-- What makes visits follow a relation between facts: it is read both as an order and as its converse.
structure Steers (analysis : Analysis φ) (body : Body) (carrier : φ → Prop) (rel : φ → φ → Prop) : Prop where
  refl : ∀ a, carrier a → rel a a
  trans : ∀ a b c, carrier a → carrier b → carrier c → rel a b → rel b c → rel a c
  same_iff : ∀ a b, carrier a → carrier b → (analysis.same a b = true ↔ rel a b ∧ rel b a)
  recomputed : ∀ outs others, (∀ block, carrier (outs block)) → (∀ block, carrier (others block)) →
    ∀ block, body.blocks.contains block = true →
      (∀ source ∈ sources analysis body block, rel (outs source) (others source)) →
      rel (recomputed analysis body outs block) (recomputed analysis body others block)

theorem steers_down (analysis : Analysis φ) (body : Body) (carrier : φ → Prop) (le : φ → φ → Prop)
    (laws : analysis.Lawful body carrier le) : Steers analysis body carrier le where
  refl := laws.refl
  trans := laws.trans
  same_iff := laws.same_iff
  recomputed := fun outs others outsIn othersIn block inside below =>
    recomputed_mono analysis body carrier le laws outs others outsIn othersIn block inside below

theorem steers_up (analysis : Analysis φ) (body : Body) (carrier : φ → Prop) (le : φ → φ → Prop)
    (laws : analysis.Lawful body carrier le) : Steers analysis body carrier (flip le) where
  refl := laws.refl
  trans := fun a b c aIn bIn cIn first second => laws.trans c b a cIn bIn aIn second first
  same_iff := fun a b aIn bIn => (laws.same_iff a b aIn bIn).trans and_comm
  recomputed := fun outs others outsIn othersIn block inside above =>
    recomputed_mono analysis body carrier le laws others outs othersIn outsIn block inside above

def OneSided (analysis : Analysis φ) (body : Body) (rel : φ → φ → Prop) (outs : Block → φ) : Prop :=
  ∀ block, body.blocks.contains block = true → rel (recomputed analysis body outs block) (outs block)

instance (analysis : Analysis φ) (body : Body) (rel : φ → φ → Prop) (outs : Block → φ)
    [∀ a b, Decidable (rel a b)] : Decidable (OneSided analysis body rel outs) :=
  decidable_of_iff (∀ block ∈ body.blocks.refs, rel (recomputed analysis body outs block) (outs block))
    (forall_congr' fun _ => imp_congr_left (Arena.mem_refs_iff _ _))

def Below (carrier : φ → Prop) (rel : φ → φ → Prop) (a b : φ) : Prop := carrier a ∧ carrier b ∧ rel a b ∧ ¬ rel b a

-- A visit that is counted as an update moves the fact of one block strictly down; any other only shortens the queue.
inductive Falls (analysis : Analysis φ) (body : Body) (carrier : φ → Prop) (rel : φ → φ → Prop)
    (state next : State φ) : Prop where
  | kept (outs : outgoing analysis next.facts = outgoing analysis state.facts)
      (queue : next.queue.length + 1 = state.queue.length) (updates : next.stats.updates = state.stats.updates)
  | lowered (block : Block) (waits : block ∈ state.queue) (inside : body.blocks.contains block = true)
      (below : Below carrier rel (outgoing analysis next.facts block) (outgoing analysis state.facts block))
      (others : ∀ other, other ≠ block → outgoing analysis next.facts other = outgoing analysis state.facts other)
      (updates : next.stats.updates = state.stats.updates + 1)

section Steering

variable (analysis : Analysis φ) (body : Body) (edges : body.EdgesAgree) (carrier : φ → Prop)
  (carries : analysis.Carries body carrier) (rel : φ → φ → Prop) (steers : Steers analysis body carrier rel)

include steers in
theorem same_self (fact : φ) (factIn : carrier fact) : analysis.same fact fact = true :=
  (steers.same_iff fact fact factIn factIn).mpr ⟨steers.refl fact factIn, steers.refl fact factIn⟩

include carries steers

theorem visits_falls (state next : State φ) (proper : Proper analysis body carrier state)
    (oneSided : OneSided analysis body rel (outgoing analysis state.facts)) (visits : Visits analysis body state next) :
    Falls analysis body carrier rel state next := by
  cases visits with
  | take front back block facts stats =>
    have waits : block ∈ front ++ block :: back := List.mem_append_right front List.mem_cons_self
    have inside := proper.queued block waits
    have visited := visit_visited analysis body block ⟨front ++ back, facts, stats⟩ proper.fits inside
    cases visited.outcome with
    | inl kept =>
      obtain ⟨_, outs, queue, counted⟩ := kept
      refine .kept outs ?_ (by rw [counted])
      rw [queue]
      simp only [List.length_append, List.length_cons]
      omega
    | inr changed =>
      obtain ⟨differs, outs, queue, counted⟩ := changed
      have newIn := recomputed_carried analysis body carrier carries _ proper.outs block inside
      have down := oneSided block inside
      refine .lowered block waits inside ?_ ?_ (by rw [counted])
      · rw [outs, Function.update_self]
        refine ⟨newIn, proper.outs block, down, fun up => ?_⟩
        rw [(steers.same_iff _ _ newIn (proper.outs block)).mpr ⟨down, up⟩] at differs
        cases differs
      · intro other apart
        rw [outs, Function.update_of_ne apart]

theorem visits_moves (state next : State φ) (proper : Proper analysis body carrier state)
    (oneSided : OneSided analysis body rel (outgoing analysis state.facts)) (visits : Visits analysis body state next)
    (block : Block) : rel (outgoing analysis next.facts block) (outgoing analysis state.facts block) := by
  cases visits_falls analysis body carrier carries rel steers state next proper oneSided visits with
  | kept outs =>
    rw [outs]
    exact steers.refl _ (proper.outs block)
  | lowered changed _ _ below others =>
    by_cases here : block = changed
    · rw [here]
      exact below.2.2.1
    · rw [others block here]
      exact steers.refl _ (proper.outs block)

include edges

theorem visits_one_sided (state next : State φ) (proper : Proper analysis body carrier state)
    (oneSided : OneSided analysis body rel (outgoing analysis state.facts)) (visits : Visits analysis body state next) :
    OneSided analysis body rel (outgoing analysis next.facts) := by
  have nextProper := visits_proper analysis body edges carrier carries state next proper visits
  have moves := visits_moves analysis body carrier carries rel steers state next proper oneSided visits
  intro block inside
  have nextIn := recomputed_carried analysis body carrier carries _ nextProper.outs block inside
  have stateIn := recomputed_carried analysis body carrier carries _ proper.outs block inside
  have lower := steers.recomputed _ _ nextProper.outs proper.outs block inside fun source _ => moves source
  cases visits with
  | take front back visited facts stats =>
    have visitedInside := proper.queued visited (List.mem_append_right front List.mem_cons_self)
    cases (visit_visited analysis body visited ⟨front ++ back, facts, stats⟩ proper.fits visitedInside).outcome with
    | inl kept =>
      rw [kept.2.1]
      exact oneSided block inside
    | inr changed =>
      by_cases here : block = visited
      · have stored : outgoing analysis (visit analysis body visited ⟨front ++ back, facts, stats⟩).facts block =
            recomputed analysis body (outgoing analysis facts) block := by
          rw [changed.2.1, here, Function.update_self]
        rw [stored]
        exact lower
      · have stored : outgoing analysis (visit analysis body visited ⟨front ++ back, facts, stats⟩).facts block =
            outgoing analysis facts block := by
          rw [changed.2.1, Function.update_of_ne here]
        rw [stored]
        exact steers.trans _ _ _ nextIn stateIn (proper.outs block) lower (oneSided block inside)

omit edges in
theorem visits_well_founded (descends : WellFounded (Below carrier rel)) :
    WellFounded fun next state => Proper analysis body carrier state ∧
      OneSided analysis body rel (outgoing analysis state.facts) ∧ Visits analysis body state next := by
  let facts (state : State φ) (index : Fin body.blocks.size) : φ := outgoing analysis state.facts (.nth index)
  -- Either one of the finitely many outgoing facts falls, or all stay and the queue gets shorter.
  have lex := WellFounded.prod_lex (Pi.Lex.wellFounded (ι := Fin body.blocks.size) (· < ·) fun _ => descends)
    Nat.lt_wfRel.wf
  refine Subrelation.wf ?_ (InvImage.wf (fun state : State φ => (facts state, state.queue.length)) lex)
  intro next state ⟨proper, oneSided, visits⟩
  cases visits_falls analysis body carrier carries rel steers state next proper oneSided visits with
  | kept outs queue =>
    have stays : facts next = facts state := funext fun index => congrFun outs _
    simp only [InvImage, stays]
    exact .right _ (by change next.queue.length < state.queue.length; omega)
  | lowered block _ inside below others =>
    refine .left _ _ ?_
    cases block with
    | invalid => cases inside
    | nth index =>
      have bound : index < body.blocks.size := of_decide_eq_true inside
      refine ⟨⟨index, bound⟩, fun other before => others _ ?_, below⟩
      intro same
      exact absurd (Ref.nth.inj same) (Nat.ne_of_lt before)

theorem iterate_settles (descends : WellFounded (Below carrier rel)) (state : State φ)
    (proper : Proper analysis body carrier state) (oneSided : OneSided analysis body rel (outgoing analysis state.facts)) :
    ∃ budget last, iterate analysis body budget state = some last := by
  have ordered := visits_well_founded analysis body carrier carries rel steers descends
  induction state using ordered.induction with
  | _ state ih =>
    obtain ⟨queue, facts, stats⟩ := state
    cases queue with
    | nil => exact ⟨0, _, rfl⟩
    | cons block rest =>
      have visits : Visits analysis body ⟨block :: rest, facts, stats⟩ (visit analysis body block ⟨rest, facts, stats⟩) :=
        .take [] rest block facts stats
      obtain ⟨budget, last, settles⟩ := ih _ ⟨proper, oneSided, visits⟩
        (visits_proper analysis body edges carrier carries _ _ proper visits)
        (visits_one_sided analysis body edges carrier carries rel steers _ _ proper oneSided visits)
      exact ⟨budget + 1, last, settles⟩

end Steering

end ThreeAddress.Solver
