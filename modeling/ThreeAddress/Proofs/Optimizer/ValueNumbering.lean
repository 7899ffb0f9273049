import ThreeAddress.Proofs.Execution.ValueNumbering
import ThreeAddress.Proofs.Optimizer.Settled

/-!
Value numbering does all it can at once. The table is built from what operations are rewritten to, so the rewritten code
builds it again; and a variable that holds the result of an expression never holds a known literal, so what is put in the
place of an operation is final.
-/

set_option autoImplicit false

namespace ThreeAddress

namespace ValueTable

def Apart (table : ValueTable) : Prop :=
  ∀ expr holder, (expr, holder) ∈ table.exprs → ∀ value, (holder, value) ∉ table.consts

structure Lacks (table : ValueTable) (var : Var) : Prop where
  literal : ∀ value, (var, value) ∉ table.consts
  result : ∀ expr, (expr, var) ∉ table.exprs

theorem apart_empty : Apart {} := fun _ _ member => (List.not_mem_nil member).elim

theorem const_none (table : ValueTable) (var : Var) (unbound : ∀ value, (var, value) ∉ table.consts) :
    table.const? var = none := by
  cases found : table.const? var with
  | none => rfl
  | some value => exact (unbound value (mem_of_lookup table.consts var value found)).elim

theorem forget_apart (table : ValueTable) (var : Var) (apart : table.Apart) : (table.forget var).Apart :=
  fun expr holder held value known =>
    apart expr holder (List.mem_filter.mp held).1 value (List.mem_filter.mp known).1

theorem forget_many_apart (vars : List Var) (table : ValueTable) (apart : table.Apart) : (vars.foldl forget table).Apart := by
  induction vars generalizing table with
  | nil => exact apart
  | cons var rest ih => exact ih (table.forget var) (forget_apart table var apart)

theorem forget_lacks (table : ValueTable) (var : Var) : (table.forget var).Lacks var where
  literal := fun value known => by simpa using (List.mem_filter.mp known).2
  result := fun expr held => by simpa using (List.mem_filter.mp held).2

section Learn

variable (table : ValueTable) (dst : Var) (apart : table.Apart) (lacks : table.Lacks dst)

include apart lacks

theorem bind_const_apart (value : Int64) : (table.bindConst dst value).Apart := by
  intro expr holder held literal known
  rcases List.mem_cons.mp known with same | old
  · obtain ⟨rfl, rfl⟩ := Prod.mk.inj same
    exact lacks.result expr held
  · exact apart expr holder held literal (List.mem_filter.mp old).1

theorem bind_expr_apart (expr : Expr) : (table.bindExpr expr dst).Apart := by
  intro other holder held literal known
  rcases List.mem_cons.mp held with same | old
  · obtain ⟨rfl, rfl⟩ := Prod.mk.inj same
    exact lacks.literal literal known
  · exact apart other holder (List.mem_filter.mp old).1 literal known

theorem learn_apart (operation : Operation) : (table.learn dst operation).Apart := by
  unfold learn
  split
  · exact bind_const_apart table dst apart lacks _
  · split
    · split
      · exact apart
      · exact bind_expr_apart table dst apart lacks _
    · exact apart

end Learn

theorem advance_apart (pinned : OrderedSet Var) (operation : Operation) (table : ValueTable) (apart : table.Apart) :
    (table.advance pinned operation).Apart := by
  have clobbered (written : ValueTable) (apart : written.Apart) :
      Apart (if operation.clobbersMemory then pinned.toList.foldl forget written else written) := by
    split
    · exact forget_many_apart pinned.toList written apart
    · exact apart
  rw [advance]
  cases operation.def? with
  | none => exact clobbered table apart
  | some dst =>
    have forgotten := forget_apart table dst apart
    by_cases inMemory : pinned.contains dst = true
    · simpa only [if_pos inMemory] using clobbered (table.forget dst) forgotten
    · simpa only [if_neg inMemory] using
        clobbered _ (learn_apart _ dst forgotten (forget_lacks table dst) operation)

structure Settled (table : ValueTable) (operation : Operation) : Prop where
  unknown : ∀ operand ∈ operation.uses, ∀ var, operand = .var var → table.const? var = none
  plain : table.simplify? operation = none

def SettledCode (pinned : OrderedSet Var) : ValueTable → List (Inst × Operation) → Prop
  | _, [] => True
  | table, (_, operation) :: rest => table.Settled operation ∧ SettledCode pinned (table.advance pinned operation) rest

theorem simplify_assigns (table : ValueTable) (operation replacement : Operation)
    (simplified : table.simplify? operation = some replacement) :
    ∃ dst src, replacement = .assign dst src ∧ ∀ holder, src = .var holder → ∃ expr, (expr, holder) ∈ table.exprs := by
  rw [simplify?] at simplified
  split at simplified
  · rename_i dst value _
    exact ⟨dst, .lit value, (Option.some.inj simplified).symm, fun _ same => by cases same⟩
  · simp only [Option.bind_eq_bind, Option.bind_eq_some_iff] at simplified
    obtain ⟨dst, _, expr, _, holder, known, made⟩ := simplified
    split at made
    · cases made
    · refine ⟨dst, .var holder, (Option.some.inj made).symm, fun other same => ?_⟩
      cases same
      exact ⟨expr, mem_of_lookup table.exprs expr holder known⟩

theorem simplify_settled (table : ValueTable) (apart : table.Apart) (operation replacement : Operation)
    (simplified : table.simplify? operation = some replacement) : table.Settled replacement := by
  obtain ⟨dst, src, rfl, held⟩ := simplify_assigns table operation replacement simplified
  refine ⟨fun operand reads var names => ?_, rfl⟩
  obtain ⟨expr, member⟩ := held var ((List.mem_singleton.mp reads).symm.trans names)
  exact const_none table var (apart expr var member)

section Settled

variable (pinned : OrderedSet Var)

theorem step_unlimited (table : ValueTable) (tally : Tally) (unlimited : tally.Unlimited) (inst : Inst) (operation : Operation) :
    (step pinned table tally inst operation).2.1.Unlimited :=
  let paid := (operation.update_uses_unlimited table.const? tally unlimited).1
  (Tally.replace_unlimited _ paid _ _).1

theorem settled_step (table : ValueTable) (apart : table.Apart) (tally : Tally) (unlimited : tally.Unlimited) (inst : Inst)
    (operation : Operation) : table.Settled (step pinned table tally inst operation).2.2 := by
  obtain ⟨paid, unknown⟩ := operation.update_uses_unlimited table.const? tally unlimited
  rw [step]
  generalize operation.updateUses (Tally.substitute fun var => (table.const? var).map .lit) tally = substituted at paid unknown
  obtain ⟨_, becomes⟩ := substituted.1.replace_unlimited paid substituted.2 (table.simplify? substituted.2)
  dsimp only
  rw [becomes]
  cases simplified : table.simplify? substituted.2 with
  | none => exact ⟨unknown, simplified⟩
  | some replacement => exact simplify_settled table apart substituted.2 replacement simplified

theorem settled_edited (code : List (Inst × Operation)) (table : ValueTable) (apart : table.Apart) (tally : Tally)
    (unlimited : tally.Unlimited) : SettledCode pinned table (Body.editedCode (step pinned) table tally code).2 := by
  induction code generalizing table tally with
  | nil => trivial
  | cons entry rest ih =>
    exact ⟨settled_step pinned table apart tally unlimited entry.1 entry.2,
      ih _ (advance_apart pinned _ table apart) _ (step_unlimited pinned table tally unlimited entry.1 entry.2)⟩

theorem step_settled (table : ValueTable) (inst : Inst) (operation : Operation) (settled : table.Settled operation)
    (tally : Tally) : step pinned table tally inst operation = (table.advance pinned operation, tally, operation) := by
  have same := operation.update_uses_unknown table.const? settled.unknown tally
  simp only [step, same, settled.plain, Tally.replace]

theorem idles_settled (table : ValueTable) (code : List (Inst × Operation)) (settled : SettledCode pinned table code) :
    Body.Idles (step pinned) table code := by
  induction code generalizing table with
  | nil => trivial
  | cons entry rest ih =>
    obtain ⟨inst, operation⟩ := entry
    intro tally
    rw [step_settled pinned table inst operation settled.1 tally]
    exact ⟨rfl, ih _ settled.2⟩

end Settled

end ValueTable

namespace Body

-- With fuel that never ends, value numbering leaves code in which it finds no operand to substitute, no operation to fold
-- and no result to use again; a second run changes and counts nothing.
theorem value_numbering_settles (body : Body) (accepted : body.check = .ok ()) (fuel : Fuel)
    (unlimited : fuel.remaining = none) :
    ∃ pinned tally numbered, body.addressTaken = .ok pinned ∧ body.numberValues fuel = .ok (tally, numbered) ∧
      numbered.addressTaken = .ok pinned ∧
      (∀ block, body.blocks.contains block = true → ValueTable.SettledCode pinned {} (numbered.code block)) ∧
      ∀ more : Fuel, numbered.numberValues more = .ok (⟨more, 0⟩, numbered) := by
  obtain ⟨pinned, taken, _⟩ := address_taken_total body body.layout (well_formed_of_check body accepted).laid
  obtain ⟨tally, numbered, done, edited, under⟩ := edit_code_edits_under (ValueTable.step pinned) Tally.Unlimited
    (fun table tally inst operation unlimited => ValueTable.step_unlimited pinned table tally unlimited inst operation)
    (fun _ => some {}) body accepted fuel unlimited
  have otherAccepted := (edited_structure _ _ body numbered accepted edited (ValueTable.step_keeps pinned)).1
  have otherTaken := (address_taken_edited _ _ body numbered accepted edited (ValueTable.step_keeps pinned)).trans taken
  have settled (block : Block) (inside : body.blocks.contains block = true) :
      ValueTable.SettledCode pinned {} (numbered.code block) := by
    obtain ⟨tally, unlimited, after⟩ := under block inside
    rw [after]
    exact ValueTable.settled_edited pinned (body.code block) {} ValueTable.apart_empty tally unlimited
  refine ⟨pinned, tally, numbered, taken, ?_, otherTaken, settled, fun more => ?_⟩
  · rw [numberValues, taken]
    exact done
  · rw [numberValues, otherTaken]
    refine edit_code_idles (ValueTable.step pinned) numbered (fun _ => some {}) otherAccepted (fun block inside table begins => ?_) more
    cases begins
    exact ValueTable.idles_settled pinned {} _ (settled block ((frame_contains body numbered edited.frame block).symm.trans inside))

-- A sum that folds only once a quotient has been folded, and a quotient that a store takes out of the table.
def rippling : Body where
  name := "rippling"
  entry := .nth 0
  blocks := .ofList [{ chain := ⟨.nth 0, .nth 8, 9⟩ }]
  cells := .ofList [
    { operation := .param (.nth 0), block := .nth 0, next := .nth 1 },
    { operation := .addrOf (.nth 1) (.nth 0), block := .nth 0, prev := .nth 0, next := .nth 2 },
    { operation := .assign (.nth 2) (.lit 12), block := .nth 0, prev := .nth 1, next := .nth 3 },
    { operation := .binary .div (.nth 3) (.var (.nth 2)) (.lit 4), block := .nth 0, prev := .nth 2, next := .nth 4 },
    { operation := .binary .add (.nth 4) (.var (.nth 0)) (.var (.nth 3)), block := .nth 0, prev := .nth 3, next := .nth 5 },
    { operation := .binary .add (.nth 5) (.lit 3) (.var (.nth 0)), block := .nth 0, prev := .nth 4, next := .nth 6 },
    { operation := .store (.var (.nth 1)) (.var (.nth 5)), block := .nth 0, prev := .nth 5, next := .nth 7 },
    { operation := .binary .add (.nth 5) (.var (.nth 0)) (.lit 3), block := .nth 0, prev := .nth 6, next := .nth 8 },
    { operation := .ret (.var (.nth 5)), block := .nth 0, prev := .nth 7 }]
  vars := .ofList [some "a", some "p", some "k", some "q", some "x", some "y"]

theorem rippling_settles : rippling.check = .ok () ∧ Fuel.infinite.remaining = none ∧
    ∃ tally numbered, rippling.numberValues .infinite = .ok (tally, numbered) ∧ tally.count = 4 ∧
      numbered.operation? (.nth 5) = some (.assign (.nth 5) (.var (.nth 4))) ∧
      numbered.operation? (.nth 7) = rippling.operation? (.nth 7) ∧
      numbered.numberValues .infinite = .ok (⟨.infinite, 0⟩, numbered) := by
  have accepted : rippling.check = .ok () := by rfl
  obtain ⟨pinned, tally, numbered, _, done, _, _, idle⟩ := value_numbering_settles rippling accepted .infinite rfl
  have rewritten : (rippling.numberValues .infinite).toOption.map
      (fun after => (after.1.count, after.2.operation? (.nth 5), after.2.operation? (.nth 7))) =
      some (4, some (.assign (.nth 5) (.var (.nth 4))), rippling.operation? (.nth 7)) := by decide +kernel
  rw [done] at rewritten
  obtain ⟨counted, rest⟩ := Prod.mk.inj (Option.some.inj rewritten)
  obtain ⟨reused, kept⟩ := Prod.mk.inj rest
  exact ⟨accepted, rfl, tally, numbered, done, counted, reused, kept, idle .infinite⟩

end Body

end ThreeAddress
