import ThreeAddress.Optimizer.InvariantMotion
import ThreeAddress.Proofs.Execution.Steps

/-!
Running a computation early. A machine that is ahead holds the result before the other machine has computed it;
the two agree on everything else, and on the result wherever it may still be read.
-/

set_option autoImplicit false

namespace ThreeAddress

-- Whether code reads a variable before it writes it, or leaves it to what follows.
def LiveBefore (var : Var) (after : Prop) : List Operation → Prop
  | [] => after
  | operation :: rest => var ∈ operation.usedVars ∨ (operation.def? ≠ some var ∧ LiveBefore var after rest)

section LiveBefore

variable (var : Var)

theorem live_before_append (after : Prop) (front back : List Operation) :
    LiveBefore var after (front ++ back) ↔ LiveBefore var (LiveBefore var after back) front := by
  induction front with
  | nil => exact Iff.rfl
  | cons operation rest ih => exact or_congr_right (and_congr_right fun _ => ih)

theorem live_before_mono (after more : Prop) (code : List Operation) (weaker : after → more)
    (live : LiveBefore var after code) : LiveBefore var more code := by
  induction code with
  | nil => exact weaker live
  | cons operation rest ih => exact live.imp_right fun ⟨kept, later⟩ => ⟨kept, ih later⟩

theorem live_before_insert (after : Prop) (front back : List Operation) (operation : Operation)
    (unread : var ∉ operation.usedVars) (unwritten : operation.def? ≠ some var) :
    LiveBefore var after (front ++ operation :: back) ↔ LiveBefore var after (front ++ back) := by
  rw [live_before_append, live_before_append]
  have skips : LiveBefore var after (operation :: back) ↔ LiveBefore var after back :=
    (or_iff_right unread).trans (and_iff_right unwritten)
  exact ⟨live_before_mono var _ _ front skips.mp, live_before_mono var _ _ front skips.mpr⟩

theorem live_before_unread (after : Prop) (code : List Operation) (unread : ∀ operation ∈ code, var ∉ operation.usedVars)
    (live : LiveBefore var after code) : after := by
  induction code with
  | nil => exact live
  | cons operation rest ih =>
    have later := live.resolve_left (unread operation List.mem_cons_self)
    exact ih (fun other member => unread other (List.mem_cons_of_mem _ member)) later.2

end LiveBefore

namespace Machine

variable (around : Surroundings) (dst : Var)

abbrev AgreeBut (live : Prop) (a b : Machine) : Prop := AgreeOn (fun var => var ≠ dst ∨ live) a b

theorem run_unread (live : Prop) (code : List Operation) (a b : Machine) (agree : AgreeBut dst (LiveBefore dst live code) a b) :
    Alike (AgreeBut dst live) (a.run around code) (b.run around code) := by
  induction code generalizing a b with
  | nil => exact .on [] a b agree
  | cons operation rest ih =>
    have reads (var : Var) (used : var ∈ operation.usedVars) : var ≠ dst ∨ LiveBefore dst live (operation :: rest) := by
      by_cases same : var = dst
      · exact .inr (.inl (same ▸ used))
      · exact .inl same
    rw [run_cons, run_cons]
    refine alike_and_then _ _ _ _ (step_agree around _ a b agree operation reads) _ _ fun a b agree => ih a b ?_
    refine agree_mono _ _ a b agree fun var member => ?_
    by_cases same : var = dst
    · by_cases defines : operation.def? = some dst
      · exact .inr (same ▸ defines)
      · exact .inl (.inr (.inr ⟨defines, member.resolve_left fun apart => apart same⟩))
    · exact .inl (.inl same)

structure Computes (operation : Operation) (value : Machine → Int64) : Prop where
  steps : ∀ machine : Machine, machine.step around operation = ([], some (machine.assign dst (value machine)))
  reads : ∀ a b : Machine, (∀ var ∈ operation.usedVars, a.env var = b.env var) → value a = value b

theorem value_agree (operation : Operation) (a b : Machine) (same : ∀ var ∈ operation.usedVars, a.env var = b.env var)
    (src : Operand) (used : src ∈ operation.uses) : a.value src = b.value src := by
  cases src with
  | lit value => rfl
  | var name => exact same name (List.mem_filterMap.mpr ⟨.var name, used, rfl⟩)

theorem binary_computes (op : BinaryOperator) (lhs rhs : Operand)
    (safe : (Operation.binary op dst lhs rhs).canTrap = false) :
    Computes around dst (.binary op dst lhs rhs) fun machine => (op.eval? (machine.value lhs) (machine.value rhs)).getD 0 where
  steps machine := by
    have goesOn := step_of_not_can_trap around machine _ safe
    simp only [step] at goesOn ⊢
    cases result : op.eval? (machine.value lhs) (machine.value rhs) with
    | none =>
      rw [result] at goesOn
      cases goesOn
    | some value => rfl
  reads a b same := by
    have agree := value_agree _ a b same
    rw [agree lhs List.mem_cons_self, agree rhs (List.mem_cons_of_mem _ List.mem_cons_self)]

theorem hoistable_computes (operation : Operation) (hoistable : operation.isHoistable = true)
    (defines : operation.def? = some dst) : ∃ value, Computes around dst operation value := by
  cases operation with
  | assign place src =>
    cases defines
    exact ⟨fun machine => machine.value src, fun _ => rfl, fun a b same => value_agree _ a b same src List.mem_cons_self⟩
  | unary op place src =>
    cases defines
    exact ⟨fun machine => op.eval (machine.value src), fun _ => rfl,
      fun a b same => congrArg op.eval (value_agree _ a b same src List.mem_cons_self)⟩
  | addrOf place src =>
    cases defines
    exact ⟨fun _ => around.address src, fun _ => rfl, fun _ _ _ => rfl⟩
  | binary op place lhs rhs =>
    cases defines
    have safe : (Operation.binary op dst lhs rhs).canTrap = false := by
      simp only [Operation.isHoistable, Bool.and_eq_true, Bool.not_eq_true'] at hoistable
      exact hoistable.1.2
    exact ⟨_, binary_computes around dst op lhs rhs safe⟩
  | _ => simp [Operation.isHoistable, Operation.isPure, Operation.canTrap] at hoistable

section Computation

variable (operation : Operation) (value : Machine → Int64) (computes : Computes around dst operation value)
  (unread : dst ∉ operation.usedVars)

def Ahead (machine : Machine) : Prop := machine.env dst = value machine

def Undisturbed (code : List Operation) : Prop :=
  ∀ other ∈ code, ∀ var, var = dst ∨ var ∈ operation.usedVars →
    other.def? ≠ some var ∧ (other.clobbersMemory = true → around.inMemory.contains var = false)

include computes

theorem ahead_run (code : List Operation) (undisturbed : Undisturbed around dst operation code) (machine last : Machine)
    (ahead : Ahead dst value machine) (ran : (machine.run around code).2 = some last) : Ahead dst value last := by
  induction code generalizing machine with
  | nil =>
    cases ran
    exact ahead
  | cons other rest ih =>
    obtain ⟨after, went, ranOn⟩ := run_cons_some around machine last other rest ran
    have same (var : Var) (involved : var = dst ∨ var ∈ operation.usedVars) : after.env var = machine.env var := by
      obtain ⟨unwritten, unclobbered⟩ := undisturbed other List.mem_cons_self var involved
      exact step_elsewhere around machine after other went var unwritten unclobbered
    have still : Ahead dst value after := by
      rw [Ahead, same dst (.inl rfl), computes.reads after machine fun var used => same var (.inr used)]
      exact ahead
    exact ih (fun later member => undisturbed later (List.mem_cons_of_mem _ member)) after still ranOn

theorem shared_alike (live : Prop) (code : List Operation) (undisturbed : Undisturbed around dst operation code) (a b : Machine)
    (agree : AgreeBut dst (LiveBefore dst live code) a b) (ahead : Ahead dst value b) :
    Alike (fun a b => AgreeBut dst live a b ∧ Ahead dst value b) (a.run around code) (b.run around code) := by
  apply alike_ends _ (Ahead dst value) _ _ (run_unread around dst live code a b agree)
  exact fun last ran => ahead_run around dst operation value computes code undisturbed b last ahead ran

include unread

theorem ahead_assign (machine : Machine) : Ahead dst value (machine.assign dst (value machine)) := by
  rw [Ahead, assign_here]
  apply computes.reads
  exact fun var used => (assign_elsewhere machine dst var _ fun same => unread (same ▸ used)).symm

theorem source_alike (live : Prop) (front back : List Operation) (frontUndisturbed : Undisturbed around dst operation front)
    (backUndisturbed : Undisturbed around dst operation back) (a b : Machine)
    (agree : AgreeBut dst (LiveBefore dst live (front ++ operation :: back)) a b) (ahead : Ahead dst value b) :
    Alike (fun a b => AgreeBut dst live a b ∧ Ahead dst value b) (a.run around (front ++ operation :: back))
      (b.run around (front ++ back)) := by
  rw [run_front_back, run_front_back]
  have upTo := shared_alike around dst operation value computes (LiveBefore dst live (operation :: back)) front
    frontUndisturbed a b (agree_mono _ _ a b agree fun _ => Or.imp_right (live_before_append dst live front _).mpr) ahead
  refine alike_and_then _ _ _ _ upTo _ _ fun a b ⟨agree, ahead⟩ => ?_
  have same : value a = value b := computes.reads a b fun var used =>
    agree.env var (.inl fun same => unread (same ▸ used))
  have caughtUp : AgreeBut dst (LiveBefore dst live back) (a.assign dst (value a)) b := by
    refine ⟨agree.asked, fun var _ => ?_⟩
    by_cases here : var = dst
    · rw [here, assign_here, same]
      exact ahead.symm
    · rw [assign_elsewhere a dst var _ here]
      exact agree.env var (.inl here)
  rw [run_cons, computes.steps]
  exact shared_alike around dst operation value computes live back backUndisturbed _ b caughtUp ahead

theorem target_alike (front tail : List Operation) (tailUndisturbed : Undisturbed around dst operation tail)
    (tailUnread : ∀ other ∈ tail, dst ∉ other.usedVars) (a b : Machine)
    (agree : AgreeBut dst (LiveBefore dst False (front ++ tail)) a b) :
    Alike (fun a b => AgreeBut dst False a b ∧ Ahead dst value b) (a.run around (front ++ tail))
      (b.run around (front ++ operation :: tail)) := by
  rw [run_front_back, run_front_back]
  have upTo := run_unread around dst (LiveBefore dst False tail) front a b
    (agree_mono _ _ a b agree fun _ => Or.imp_right (live_before_append dst False front _).mpr)
  refine alike_and_then _ _ _ _ upTo _ _ fun a b agree => ?_
  rw [run_cons, computes.steps]
  have apart : AgreeBut dst (LiveBefore dst False tail) a (b.assign dst (value b)) := by
    refine ⟨agree.asked, fun var member => ?_⟩
    have different := member.resolve_right (live_before_unread dst False tail tailUnread)
    rw [assign_elsewhere b dst var _ different]
    exact agree.env var (.inl different)
  exact shared_alike around dst operation value computes False tail tailUndisturbed a _ apart
    (ahead_assign around dst operation value computes unread b)

end Computation

end Machine

end ThreeAddress
