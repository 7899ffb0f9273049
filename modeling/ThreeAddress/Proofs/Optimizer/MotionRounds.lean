import ThreeAddress.Proofs.Optimizer.InvariantMotion

/-!
Hoisting comes to an end by itself. Each move uses up a destination, so a round that moves nothing comes before the
rounds run out, and what is found with that many rounds is what is found with no bound on them.
-/

set_option autoImplicit false

namespace ThreeAddress

namespace HoistPlan

variable (plan : HoistPlan)

inductive Settles : State → State → Prop
  | still (state after : State) (ran : plan.hoistRound plan.loop.blocks.toList state = .ok after)
      (same : after.tally.count = state.tally.count) : Settles state after
  | again (state middle after : State) (ran : plan.hoistRound plan.loop.blocks.toList state = .ok middle)
      (moved : middle.tally.count ≠ state.tally.count) (onward : Settles middle after) : Settles state after

-- Destinations are traded for moves.
structure Spends (state after : State) : Prop where
  whole : after.tally.count + after.defs.length = state.tally.count + state.defs.length
  counted : state.tally.count ≤ after.tally.count

theorem spends_refl (state : State) : Spends state state := ⟨rfl, Nat.le_refl _⟩

theorem spends_trans (state middle after : State) (first : Spends state middle) (second : Spends middle after) :
    Spends state after := ⟨second.whole.trans first.whole, first.counted.trans second.counted⟩

theorem hoist_inst_spends (block : Block) (state after : State) (inst : Inst)
    (ran : plan.hoistInst block state inst = .ok after) : Spends state after := by
  obtain ⟨operation, _, ran⟩ := (bind_ok_iff _ _ _).mp ran
  cases defines : operation.def? with
  | none =>
    rw [defines] at ran
    cases ran
    exact spends_refl _
  | some dst =>
    simp only [defines] at ran
    split at ran
    · rename_i moves
      have once := (plan.may_move_spec state.defs block operation dst (Bool.and_eq_true_iff.mp moves).2).once
      have present : dst ∈ state.defs := List.count_pos_iff.mp (by omega)
      split at ran
      · rename_i granted
        obtain ⟨body, _, ran⟩ := (bind_ok_iff _ _ _).mp ran
        cases ran
        have counted : state.tally.pay.2.count = state.tally.count + 1 := by
          simp only [Tally.pay] at granted ⊢
          simp [granted]
        have fewer := List.length_erase_add_one present
        exact ⟨by simp only [counted]; omega, by simp only [counted]; omega⟩
      · rename_i denied
        cases ran
        have counted : state.tally.pay.2.count = state.tally.count := by
          simp only [Tally.pay] at denied ⊢
          simp [denied]
        exact ⟨by simp only [counted], by simp only [counted]; exact Nat.le_refl _⟩
    · cases ran
      exact spends_refl _

theorem insts_spend (block : Block) (insts : List Inst) (state after : State)
    (ran : insts.foldlM (plan.hoistInst block) state = .ok after) : Spends state after := by
  induction insts generalizing state with
  | nil =>
    cases ran
    exact spends_refl _
  | cons inst rest ih =>
    rw [List.foldlM_cons] at ran
    obtain ⟨middle, visited, ran⟩ := (bind_ok_iff _ _ _).mp ran
    exact spends_trans state middle after (plan.hoist_inst_spends block state middle inst visited) (ih middle ran)

theorem round_spends (blocks : List Block) (state after : State) (ran : plan.hoistRound blocks state = .ok after) :
    Spends state after := by
  induction blocks generalizing state with
  | nil =>
    cases ran
    exact spends_refl _
  | cons block rest ih =>
    obtain ⟨insts, _, ran⟩ := (bind_ok_iff _ _ _).mp ran
    obtain ⟨middle, visited, ran⟩ := (bind_ok_iff _ _ _).mp ran
    exact spends_trans state middle after (plan.insts_spend block insts state middle visited) (ih middle ran)

theorem hoist_settles (rounds : Nat) (state after : State) (ran : plan.hoist rounds state = .ok after)
    (enough : state.defs.length < rounds) : plan.Settles state after := by
  induction rounds generalizing state with
  | zero => exact (Nat.not_lt_zero _ enough).elim
  | succ rounds ih =>
    obtain ⟨middle, visited, ran⟩ := (bind_ok_iff _ _ _).mp ran
    split at ran
    · rename_i same
      cases ran
      exact .still state _ visited same
    · rename_i moved
      have spends := plan.round_spends _ state middle visited
      have fewer : middle.defs.length < rounds := by
        have whole := spends.whole
        have counted := spends.counted
        omega
      exact .again state middle after visited moved (ih middle ran fewer)

end HoistPlan

namespace Body

variable (dominance : Dominance) (pinned : OrderedSet Var)

inductive Hoists : List Loop → Tally → Body → Tally → Body → Prop
  | done (tally : Tally) (body : Body) : Hoists [] tally body tally body
  | skip (loop : Loop) (rest : List Loop) (tally left : Tally) (body last : Body) (bare : loop.preheader? body = none)
      (onward : Hoists rest tally body left last) : Hoists (loop :: rest) tally body left last
  | settle (loop : Loop) (rest : List Loop) (tally left : Tally) (body last : Body) (preheader : Block)
      (entered : loop.preheader? body = some preheader) (live : BlockFacts (OrderedSet Var)) (known : body.liveness = .ok live)
      (defs : List Var) (defined : body.definitions loop.blocks.toList = .ok defs) (after : HoistPlan.State)
      (settles : HoistPlan.Settles ⟨loop, preheader, loop.exits body, live, dominance, pinned⟩ ⟨body, tally, defs⟩ after)
      (onward : Hoists rest after.tally after.body left last) : Hoists (loop :: rest) tally body left last

theorem hoist_loops_hoists (loops : List Loop) (tally left : Tally) (body last : Body)
    (ran : body.hoistLoops dominance pinned tally loops = .ok (left, last)) : Hoists dominance pinned loops tally body left last := by
  induction loops generalizing tally body with
  | nil =>
    cases ran
    exact .done left last
  | cons loop rest ih =>
    obtain ⟨⟨middle, other⟩, hoisted, ran⟩ := (bind_ok_iff _ _ _).mp ran
    rw [hoistLoop] at hoisted
    split at hoisted
    · rename_i bare
      cases hoisted
      exact .skip loop rest tally left body last bare (ih tally body ran)
    · rename_i preheader entered
      obtain ⟨live, known, hoisted⟩ := (bind_ok_iff _ _ _).mp hoisted
      obtain ⟨defs, defined, hoisted⟩ := (bind_ok_iff _ _ _).mp hoisted
      obtain ⟨after, settled, hoisted⟩ := (bind_ok_iff _ _ _).mp hoisted
      cases hoisted
      exact .settle loop rest tally left body last preheader entered live known defs defined after
        (HoistPlan.hoist_settles _ _ _ after settled (Nat.lt_succ_self _)) (ih _ _ ran)

theorem hoist_invariants_hoists (body : Body) (fuel : Fuel) (left : Tally) (last : Body)
    (computed : body.dominance = .ok dominance) (taken : body.addressTaken = .ok pinned)
    (ran : body.hoistInvariants fuel = .ok (left, last)) :
    Hoists dominance pinned (body.loops dominance) ⟨fuel, 0⟩ body left last := by
  rw [hoistInvariants, computed] at ran
  simp only [bind, Except.bind, taken] at ran
  exact hoist_loops_hoists dominance pinned _ _ left body last ran

end Body

end ThreeAddress
