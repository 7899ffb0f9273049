import ThreeAddress.Optimizer.Fuel

/-!
Computations that make their edits as long as there is fuel. All runs of such a computation go along one row of
stages, from where it starts to where it ends with enough fuel: with less fuel a run stops earlier on the same row.
So two computations that share their fuel go along the row of the first, and only from its end along that of the second.
-/

set_option autoImplicit false

namespace ThreeAddress

namespace Fuel

def grants (fuel : Fuel) (edits : Nat) : Nat :=
  match fuel.remaining with
  | none => edits
  | some left => min left edits

def leaves (fuel : Fuel) (edits : Nat) : Option Nat := fuel.remaining.map (· - edits)

def spend (fuel : Fuel) (edits asked : Nat) : Fuel where
  remaining := fuel.leaves edits
  consumed := fuel.consumed + .ofNat asked
  overflowed := fuel.overflowed || decide (UInt64.size ≤ fuel.consumed.toNat + asked)

theorem grants_le (fuel : Fuel) (edits : Nat) : fuel.grants edits ≤ edits := by
  rw [grants]
  split
  · exact Nat.le_refl _
  · exact Nat.min_le_right _ _

theorem leaves_zero (fuel : Fuel) : fuel.leaves 0 = fuel.remaining := by
  rw [leaves]
  cases fuel.remaining <;> rfl

theorem leaves_add (fuel : Fuel) (edits more : Nat) : fuel.leaves (edits + more) = (fuel.leaves edits).map (· - more) := by
  rw [leaves, leaves, Option.map_map]
  exact congrFun (congrArg Option.map (funext fun left => (Nat.sub_sub left edits more).symm)) fuel.remaining

theorem spend_nothing (fuel : Fuel) : fuel.spend 0 0 = fuel := by
  have few : ¬ UInt64.size ≤ fuel.consumed.toNat := Nat.not_le.mpr fuel.consumed.toNat_lt_size
  simp [spend, leaves_zero, few]

theorem spend_spend (fuel : Fuel) (edits asked more again : Nat) :
    (fuel.spend edits asked).spend more again = fuel.spend (edits + more) (asked + again) := by
  have words : fuel.consumed + .ofNat asked + .ofNat again = fuel.consumed + .ofNat (asked + again) := by
    rw [UInt64.ofNat_add, UInt64.add_assoc]
  have total : (fuel.consumed + .ofNat asked).toNat = (fuel.consumed.toNat + asked) % UInt64.size := by
    rw [UInt64.toNat_add, UInt64.toNat_ofNat', UInt64.size]
    omega
  have overflows : (UInt64.size ≤ fuel.consumed.toNat + asked ∨
      UInt64.size ≤ (fuel.consumed + .ofNat asked).toNat + again) ↔ UInt64.size ≤ fuel.consumed.toNat + (asked + again) := by
    rw [total, UInt64.size]
    omega
  rw [spend.eq_def (fuel.spend edits asked), spend.eq_def fuel (edits + more)]
  simp only [mk.injEq]
  refine ⟨(fuel.leaves_add edits more).symm, words, ?_⟩
  rw [← decide_eq_decide.mpr overflows, Bool.decide_or, ← Bool.or_assoc]
  rfl

theorem consume_spends (fuel : Fuel) : fuel.consume.2 = fuel.spend 1 1 := by
  have last : (fuel.consumed.toNat == noLimit) = decide (UInt64.size ≤ fuel.consumed.toNat + 1) := by
    have bound := fuel.consumed.toNat_lt_size
    rw [Bool.eq_iff_iff, beq_iff_eq, decide_eq_true_iff, noLimit]
    rw [UInt64.size] at bound ⊢
    omega
  obtain ⟨remaining, consumed, overflowed⟩ := fuel
  match remaining with
  | none | some 0 | some (rest + 1) => simp [consume, count, spend, leaves, last]

theorem consume_granted (fuel : Fuel) (granted : fuel.consume.1 = true) (edits : Nat) :
    fuel.grants (edits + 1) = fuel.consume.2.grants edits + 1 := by
  obtain ⟨remaining, consumed, overflowed⟩ := fuel
  match remaining with
  | none => rfl
  | some 0 => cases granted
  | some (rest + 1) =>
    simp only [grants, consume, count]
    omega

theorem consume_denied (fuel : Fuel) : fuel.consume.1 = false ↔ fuel.remaining = some 0 := by
  obtain ⟨remaining, consumed, overflowed⟩ := fuel
  match remaining with
  | none | some 0 | some (rest + 1) => simp [consume]

theorem grants_empty (fuel : Fuel) (empty : fuel.remaining = some 0) (edits : Nat) : fuel.grants edits = 0 := by
  simp [grants, empty]

theorem spend_empty (fuel : Fuel) (empty : fuel.remaining = some 0) (edits more asked : Nat) :
    fuel.spend edits asked = fuel.spend more asked := by
  simp [spend, leaves, empty]

theorem grants_alike (fuel other : Fuel) (alike : fuel.remaining = other.remaining) : fuel.grants = other.grants := by
  funext edits
  rw [grants, grants, alike]

theorem spend_alike (fuel other : Fuel) (alike : fuel.remaining = other.remaining) (edits asked : Nat) :
    (fuel.spend edits asked).remaining = (other.spend edits asked).remaining :=
  congrArg (Option.map (· - edits)) alike

-- What a first computation leaves is enough for the second to begin, or nothing.
theorem split_edits (fuel : Fuel) (edits asked : Nat) :
    (fuel.grants edits = edits ∧ ∀ more, fuel.grants (edits + more) = edits + (fuel.spend edits asked).grants more) ∨
    ((fuel.spend edits asked).remaining = some 0 ∧ ∀ more, fuel.grants (edits + more) = fuel.grants edits) := by
  cases remaining : fuel.remaining with
  | none => exact .inl ⟨by simp [grants, remaining], fun more => by simp [grants, spend, leaves, remaining]⟩
  | some limit =>
    by_cases enough : edits ≤ limit
    · refine .inl ⟨by simp [grants, remaining, enough], fun more => ?_⟩
      simp only [grants, spend, leaves, remaining, Option.map_some]
      omega
    · refine .inr ⟨?_, fun more => ?_⟩
      · simp only [spend, leaves, remaining, Option.map_some, Option.some.injEq]
        omega
      · simp only [grants, remaining]
        omega

end Fuel

variable {α β : Type}

def joinRows (total : Nat) (first second : Nat → α) (n : Nat) : α := if n ≤ total then first n else second (n - total)

theorem join_rows_front (total : Nat) (first second : Nat → α) (n : Nat) (early : n ≤ total) :
    joinRows total first second n = first n := if_pos early

theorem join_rows_back (total : Nat) (first second : Nat → α) (meet : second 0 = first total) (n : Nat) :
    joinRows total first second (total + n) = second n := by
  cases n with
  | zero => exact (join_rows_front total first second total (Nat.le_refl _)).trans meet.symm
  | succ n =>
    rw [joinRows, if_neg (by omega), Nat.add_sub_cancel_left]

theorem join_rows_steps (apart : α → α → Prop) (total more : Nat) (first second : Nat → α) (meet : second 0 = first total)
    (early : ∀ n < total, apart (first n) (first (n + 1))) (late : ∀ n < more, apart (second n) (second (n + 1))) (n : Nat)
    (bound : n < total + more) : apart (joinRows total first second n) (joinRows total first second (n + 1)) := by
  by_cases inFirst : n < total
  · rw [join_rows_front _ _ _ n (Nat.le_of_lt inFirst), join_rows_front _ _ _ (n + 1) inFirst]
    exact early n inFirst
  · obtain ⟨k, rfl⟩ := Nat.exists_eq_add_of_le (Nat.le_of_not_lt inFirst)
    rw [join_rows_back _ _ _ meet k, Nat.add_assoc, join_rows_back _ _ _ meet (k + 1)]
    exact late k (by omega)

-- The computation is told by what it leaves of each amount of fuel and makes with it. How often it asks depends on what
-- is left only, not on how often fuel was asked for before.
structure Metered (apart : α → α → Prop) (ran : Fuel → Fuel → α → Prop) (total : Nat) (stage : Nat → α) : Prop where
  steps : ∀ n < total, apart (stage n) (stage (n + 1))
  runs : ∀ remaining : Option Nat, ∃ asked, ∀ fuel : Fuel, fuel.remaining = remaining →
    ran fuel (fuel.spend total asked) (stage (fuel.grants total))

def MeteredFrom (apart : α → α → Prop) (ran : Fuel → Fuel → α → Prop) (start : α) : Prop :=
  ∃ total stage, stage 0 = start ∧ Metered apart ran total stage

section Metered

variable (apart : α → α → Prop) (ran : Fuel → Fuel → α → Prop) (start : α)

theorem metered_idle (done : ∀ fuel, ran fuel fuel start) : MeteredFrom apart ran start := by
  refine ⟨0, fun _ => start, rfl, fun n bound => (Nat.not_lt_zero n bound).elim, fun _ => ⟨0, fun fuel _ => ?_⟩⟩
  rw [fuel.spend_nothing]
  exact done fuel

theorem metered_empty (metered : MeteredFrom apart ran start) :
    ∃ asked, ∀ fuel : Fuel, fuel.remaining = some 0 → ran fuel (fuel.spend 0 asked) start := by
  obtain ⟨total, stage, begins, rows⟩ := metered
  obtain ⟨asked, runs⟩ := rows.runs (some 0)
  refine ⟨asked, fun fuel empty => ?_⟩
  have done := runs fuel empty
  rw [fuel.grants_empty empty, begins, fuel.spend_empty empty total 0] at done
  exact done

theorem metered_pay (next : α) (paid : apart start next) (more less : Fuel → Fuel → α → Prop)
    (granted : ∀ (fuel left : Fuel) made, fuel.consume.1 = true → more fuel.consume.2 left made → ran fuel left made)
    (denied : ∀ (fuel left : Fuel) made, fuel.consume.1 = false → less fuel.consume.2 left made → ran fuel left made)
    (moreMetered : MeteredFrom apart more next) (lessMetered : MeteredFrom apart less start) : MeteredFrom apart ran start := by
  obtain ⟨total, stage, begins, rows⟩ := moreMetered
  refine ⟨total + 1, fun n => n.casesOn start stage, rfl, fun n bound => ?_, fun remaining => ?_⟩
  · cases n with
    | zero =>
      rw [← begins] at paid
      exact paid
    | succ n => exact rows.steps n (by omega)
  · by_cases empty : remaining = some 0
    · obtain ⟨asked, runs⟩ := metered_empty apart less start lessMetered
      refine ⟨1 + asked, fun fuel same => ?_⟩
      have nothing := same.trans empty
      rw [fuel.grants_empty nothing, fuel.spend_empty nothing _ (1 + 0), ← fuel.spend_spend 1 1, ← fuel.consume_spends]
      refine denied fuel _ start (fuel.consume_denied.mpr nothing) (runs fuel.consume.2 ?_)
      rw [fuel.consume_spends]
      exact congrArg (Option.map (· - 1)) nothing
    · obtain ⟨asked, runs⟩ := rows.runs (remaining.map (· - 1))
      refine ⟨1 + asked, fun fuel same => ?_⟩
      have asks : fuel.consume.1 = true := by
        rw [← Bool.not_eq_false, fuel.consume_denied, same]
        exact empty
      rw [fuel.consume_granted asks total, Nat.add_comm total 1, ← fuel.spend_spend 1 1, ← fuel.consume_spends]
      refine granted fuel _ _ asks (runs fuel.consume.2 ?_)
      rw [fuel.consume_spends, ← same]
      rfl

-- One computation after the other. The second begins where the first ends; if the first runs out of fuel, the second
-- does nothing.
theorem metered_and_then (before : β → β → Prop) (first : Fuel → Fuel → β → Prop) (begin : β) (view : β → α)
    (second : β → Fuel → Fuel → α → Prop) (firstMetered : MeteredFrom before first begin)
    (seen : ∀ a b, before a b → apart (view a) (view b))
    (secondMetered : ∀ fuel middle made, first fuel middle made → MeteredFrom apart (second made) (view made))
    (joined : ∀ (fuel middle left : Fuel) between made, first fuel middle between → second between middle left made →
      ran fuel left made) : MeteredFrom apart ran (view begin) := by
  obtain ⟨total, stage, begins, rows⟩ := firstMetered
  obtain ⟨_, ended⟩ := rows.runs none
  obtain ⟨moreTotal, moreStage, moreBegins, moreRows⟩ := secondMetered _ _ _ (ended .infinite rfl)
  have last : Fuel.grants .infinite total = total := rfl
  rw [last] at moreBegins moreRows
  have front := join_rows_front total (fun n => view (stage n)) moreStage
  have back := join_rows_back total (fun n => view (stage n)) moreStage moreBegins
  have steps := join_rows_steps apart total moreTotal (fun n => view (stage n)) moreStage moreBegins
    (fun n early => seen _ _ (rows.steps n early)) moreRows.steps
  refine ⟨total + moreTotal, joinRows total (fun n => view (stage n)) moreStage, ?_, steps, fun remaining => ?_⟩
  · rw [front 0 (Nat.zero_le _), begins]
  · obtain ⟨asked, runs⟩ := rows.runs remaining
    let sample : Fuel := { remaining := remaining, consumed := 0 }
    rcases sample.split_edits total asked with ⟨all, after⟩ | ⟨empty, nothing⟩
    · obtain ⟨again, moreRuns⟩ := moreRows.runs (sample.spend total asked).remaining
      refine ⟨asked + again, fun fuel alike => ?_⟩
      have done := runs fuel alike
      have moreDone := moreRuns _ (fuel.spend_alike sample alike total asked)
      rw [fuel.grants_alike sample alike] at done ⊢
      rw [Fuel.grants_alike _ _ (fuel.spend_alike sample alike total asked)] at moreDone
      rw [all] at done
      rw [after, back, ← fuel.spend_spend]
      exact joined fuel _ _ _ _ done moreDone
    · obtain ⟨again, moreRuns⟩ := metered_empty apart _ _ (secondMetered sample _ _ (runs sample rfl))
      refine ⟨asked + again, fun fuel alike => ?_⟩
      have done := runs fuel alike
      have moreDone := moreRuns _ ((fuel.spend_alike sample alike total asked).trans empty)
      rw [fuel.grants_alike sample alike] at done ⊢
      rw [nothing, front _ (sample.grants_le total), ← fuel.spend_spend total asked moreTotal again,
        Fuel.spend_empty _ ((fuel.spend_alike sample alike total asked).trans empty) moreTotal 0]
      exact joined fuel _ _ _ _ done moreDone

theorem metered_view (before : β → β → Prop) (first : Fuel → Fuel → β → Prop) (begin : β) (view : β → α)
    (firstMetered : MeteredFrom before first begin) (seen : ∀ a b, before a b → apart (view a) (view b))
    (done : ∀ (fuel left : Fuel) made, first fuel left made → ran fuel left (view made)) :
    MeteredFrom apart ran (view begin) := by
  obtain ⟨total, stage, begins, rows⟩ := firstMetered
  refine ⟨total, fun n => view (stage n), congrArg view begins, fun n bound => seen _ _ (rows.steps n bound), fun remaining => ?_⟩
  obtain ⟨asked, runs⟩ := rows.runs remaining
  exact ⟨asked, fun fuel same => done fuel _ _ (runs fuel same)⟩

end Metered

end ThreeAddress
