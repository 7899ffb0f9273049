import ThreeAddress.Proofs.Optimizer.Metered
import ThreeAddress.Proofs.Optimizer.OneEdit
import ThreeAddress.Proofs.Optimizer.Rewrites

/-!
The passes that rewrite operations in place, paid edit by edit: first the operands of an operation, then the operation, then
one instruction after the other. The tally counts what was paid for.
-/

set_option autoImplicit false

namespace ThreeAddress

def Counted {α : Type} (differ : α → α → Prop) (a b : Nat × α) : Prop := b.1 = a.1 + 1 ∧ differ a.2 b.2

namespace Tally

def Makes {α : Type} (run : Tally → Tally × α) (count : Nat) (fuel left : Fuel) (made : Nat × α) : Prop :=
  run ⟨fuel, count⟩ = (⟨left, made.1⟩, made.2)

theorem paid_metered {α : Type} (differ : α → α → Prop) (run : Tally → Tally × α) (count : Nat) (old new : α)
    (changed : differ old new)
    (pays : ∀ fuel, run ⟨fuel, count⟩ = (Tally.pay ⟨fuel, count⟩ |>.2, if (Tally.pay ⟨fuel, count⟩).1 then new else old)) :
    MeteredFrom (Counted differ) (Makes run count) (count, old) := by
  let ends (made : Nat × α) (fuel left : Fuel) (result : Nat × α) : Prop := left = fuel ∧ result = made
  refine metered_pay (Counted differ) _ (count, old) (count + 1, new) ⟨rfl, changed⟩ (ends (count + 1, new)) (ends (count, old))
    ?_ ?_ (metered_idle _ _ _ fun _ => ⟨rfl, rfl⟩) (metered_idle _ _ _ fun _ => ⟨rfl, rfl⟩)
  · rintro fuel left made granted ⟨rfl, rfl⟩
    simp only [Makes, pays, pay, granted, if_true]
  · rintro fuel left made denied ⟨rfl, rfl⟩
    simp [Makes, pays, pay, denied]

theorem substitute_metered (replacement? : Var → Option Operand)
    (changes : ∀ var operand, replacement? var = some operand → Operand.var var ≠ operand) (count : Nat) (operand : Operand) :
    MeteredFrom (Counted (· ≠ ·)) (Makes (substitute replacement? · operand) count) (count, operand) := by
  cases known : operand.var?.bind replacement? with
  | none => exact metered_idle _ _ _ fun fuel => by simp only [Makes, substitute, known]
  | some replacement =>
    refine paid_metered (· ≠ ·) _ count operand replacement ?_ fun fuel => by simp only [substitute, known]
    obtain ⟨var, reads, replaced⟩ := Option.bind_eq_some_iff.mp known
    cases operand with
    | lit value => cases reads
    | var name =>
      cases reads
      exact changes _ replacement replaced

theorem replace_metered (operation : Operation) (replacement? : Option Operation)
    (becomes : ∀ replacement, replacement? = some replacement → operation.BecomesAssign replacement) (count : Nat) :
    MeteredFrom (Counted Operation.BecomesAssign) (Makes (·.replace operation replacement?) count) (count, operation) := by
  cases replacement? with
  | none => exact metered_idle _ _ _ fun fuel => rfl
  | some replacement =>
    exact paid_metered _ _ count operation replacement (becomes replacement rfl) fun fuel => rfl

theorem update_uses_metered (f : Tally → Operand → Tally × Operand)
    (each : ∀ count operand, MeteredFrom (Counted (· ≠ ·)) (Makes (f · operand) count) (count, operand))
    (count : Nat) (operation : Operation) :
    MeteredFrom (Counted Operation.OneOperand) (Makes (operation.updateUses f) count) (count, operation) := by
  rcases operation.update_uses_cases with none | ⟨make, operand, rfl, differ, one⟩ | ⟨make, first, second, rfl, left, right, two⟩
  · exact metered_idle _ _ _ fun fuel => none f ⟨fuel, count⟩
  · refine metered_view _ _ _ _ (count, operand) (fun made => (made.1, make made.2)) (each count operand)
      (fun a b ⟨counted, apart⟩ => ⟨counted, differ _ _ apart⟩) fun fuel left made done => ?_
    rw [Makes] at done
    rw [Makes, one, done]
  · refine metered_and_then _ _ _ _ (count, first) (fun made => (made.1, make made.2 second))
      (fun between fuel left made => ∃ last, f ⟨fuel, between.1⟩ second = (⟨left, made.1⟩, last) ∧ made.2 = make between.2 last)
      (each count first) (fun a b ⟨counted, apart⟩ => ⟨counted, left _ _ second apart⟩) (fun _ _ between _ => ?_) ?_
    · refine metered_view _ _ _ _ (between.1, second) (fun made => (made.1, make between.2 made.2)) (each between.1 second)
        (fun a b ⟨counted, apart⟩ => ⟨counted, right between.2 _ _ apart⟩) fun fuel left made done => ⟨made.2, done, rfl⟩
    · rintro fuel middle left between made done ⟨last, later, made⟩
      rw [Makes] at done
      rw [Makes, two, done, later, ← made]

end Tally

namespace Body

variable {σ : Type}

-- An editing step that pays for every change of the operation, and whose state follows from what it makes.
def MeteredStep (step : Step σ) (advance : Inst → Operation → σ → σ) : Prop :=
  ∀ state count inst operation, MeteredFrom (Counted Operation.Rewritten)
    (fun fuel left made => step state ⟨fuel, count⟩ inst operation = (advance inst made.2 state, ⟨left, made.1⟩, made.2))
    (count, operation)

def Leaves (run : Tally → Except Fault (Tally × Body)) (count : Nat) (fuel left : Fuel) (made : Nat × Body) : Prop :=
  run ⟨fuel, count⟩ = .ok (⟨left, made.1⟩, made.2)

section Edit

variable (step : Step σ) (advance : Inst → Operation → σ → σ) (metered : MeteredStep step advance)
  (layout : Block → List Inst)

include metered

theorem edit_insts_metered (block : Block) (insts : List Inst) (placed : ∀ inst ∈ insts, inst ∈ layout block) (state : σ)
    (count : Nat) (body : Body) (laid : body.Laid layout) :
    MeteredFrom (Counted OneEditApart) (Leaves (editInsts step state · insts body) count) (count, body) := by
  induction insts generalizing state count body with
  | nil => exact metered_idle _ _ _ fun fuel => rfl
  | cons inst rest ih =>
    have member := placed inst List.mem_cons_self
    obtain ⟨operation, found, reads⟩ := operation_placed body layout laid block inst member
    have start : (count, body) = (count, body.withOperation inst operation) := by
      rw [with_operation_self body inst operation found]
    rw [start]
    refine metered_and_then _ _ _ _ (count, operation) (fun made => (made.1, body.withOperation inst made.2))
      (fun between => Leaves (editInsts step (advance inst between.2 state) · rest (body.withOperation inst between.2)) between.1)
      (metered state count inst operation) (fun a b ⟨counted, rewritten⟩ => ⟨counted, inst, ?_⟩) (fun _ _ between _ => ?_) ?_
    · exact with_operation_apart body inst operation a.2 found layout laid block member b.2 rewritten
    · exact ih (fun later inRest => placed later (List.mem_cons_of_mem _ inRest)) _ between.1 _
        (with_operation_laid body inst operation between.2 found layout laid).2.1
    · intro fuel middle left between made done later
      rw [Leaves] at later ⊢
      simp only [editInsts, reads, bind, Except.bind, done,
        set_operation_with_operation body inst operation between.2 found]
      exact later

theorem edit_blocks_metered (start : Block → Option σ) (blocks : List Block) (count : Nat) (body : Body)
    (laid : body.Laid layout) (inside : ∀ block ∈ blocks, body.blocks.contains block = true) :
    MeteredFrom (Counted OneEditApart) (Leaves (editBlocks step start · blocks body) count) (count, body) := by
  induction blocks generalizing count body with
  | nil => exact metered_idle _ _ _ fun fuel => rfl
  | cons block rest ih =>
    have restInside : ∀ other ∈ rest, body.blocks.contains other = true := fun other member =>
      inside other (List.mem_cons_of_mem _ member)
    cases begins : start block with
    | none =>
      refine metered_view _ _ _ _ (count, body) id (ih count body laid restInside) (fun _ _ => id) fun fuel left made done => ?_
      rw [Leaves] at done ⊢
      simp only [editBlocks, begins]
      exact done
    | some state =>
      have read := members_laid body layout laid block (inside block List.mem_cons_self)
      refine metered_and_then _ _ _ _ (count, body) id (fun between => Leaves (editBlocks step start · rest between.2) between.1)
        (edit_insts_metered step advance metered layout block (layout block) (fun _ => id) state count body laid)
        (fun _ _ => id) (fun fuel middle between done => ?_) fun fuel middle left between made done later => ?_
      · obtain ⟨other, edited, frame, otherLaid, _⟩ := edit_insts_laid step body layout laid block (layout block)
          (nodup_layout body layout laid block) (fun _ => id) state ⟨fuel, count⟩
        obtain rfl : between.2 = other := congrArg Prod.snd (Except.ok.inj (done.symm.trans edited))
        exact ih between.1 between.2 otherLaid fun other member =>
          (frame_contains body between.2 frame other).trans (restInside other member)
      · rw [Leaves] at done later ⊢
        simp only [editBlocks, begins, read, bind, Except.bind, done]
        exact later

theorem edit_code_metered (start : Block → Option σ) (body : Body) (accepted : body.check = .ok ()) :
    MeteredFrom (Counted OneEditApart) (fun fuel left made => body.editCode fuel step start = .ok (⟨left, made.1⟩, made.2))
      (0, body) :=
  edit_blocks_metered step advance metered body.layout start body.blocks.refs 0 body (well_formed_of_check body accepted).laid
    fun _ member => (Arena.mem_refs_iff _ _).mp member

end Edit

end Body

theorem metered_edits (f : Tally → Operand → Tally × Operand) (replacement? : Operation → Option Operation)
    (each : ∀ count operand, MeteredFrom (Counted (· ≠ ·)) (Tally.Makes (f · operand) count) (count, operand))
    (becomes : ∀ operation replacement, replacement? operation = some replacement → operation.BecomesAssign replacement)
    (count : Nat) (operation : Operation) :
    MeteredFrom (Counted Operation.Rewritten) (Tally.Makes (fun tally =>
      (operation.updateUses f tally).1.replace (operation.updateUses f tally).2
        (replacement? (operation.updateUses f tally).2)) count) (count, operation) := by
  refine metered_and_then _ _ _ _ (count, operation) id
    (fun between => Tally.Makes (·.replace between.2 (replacement? between.2)) between.1)
    (Tally.update_uses_metered f each count operation) (fun a b ⟨counted, apart⟩ => ⟨counted, .inl apart⟩)
    (fun _ _ between _ => ?_) fun fuel middle left between made done later => ?_
  · exact metered_view _ _ _ _ (between.1, between.2) id
      (Tally.replace_metered between.2 (replacement? between.2) (becomes between.2) between.1)
      (fun a b ⟨counted, apart⟩ => ⟨counted, .inr apart⟩) fun _ _ _ => id
  · rw [Tally.Makes] at done later ⊢
    rw [done]
    exact later

theorem ValueTable.simplify_becomes (table : ValueTable) (operation replacement : Operation)
    (simplified : table.simplify? operation = some replacement) : operation.BecomesAssign replacement := by
  have keeps := ValueTable.keeps_simplify table operation replacement simplified
  obtain ⟨dst, src, rfl⟩ : ∃ dst src, replacement = .assign dst src := by
    rw [simplify?] at simplified
    split at simplified
    · cases simplified
      exact ⟨_, _, rfl⟩
    · simp only [Option.bind_eq_bind, Option.bind_eq_some_iff] at simplified
      obtain ⟨dst, _, expr, _, holder, _, made⟩ := simplified
      split at made
      · cases made
      · cases made
        exact ⟨_, _, rfl⟩
  refine ⟨?_, dst, src, keeps.defines.symm, rfl⟩
  cases operation <;> first | rfl | cases simplified

theorem Constants.fold_becomes (fact : ConstFact) (operation replacement : Operation)
    (folded : fold? fact operation = some replacement) : operation.BecomesAssign replacement := by
  cases operation with
  | binary op dst lhs rhs =>
    obtain ⟨value, _, made⟩ := Option.map_eq_some_iff.mp folded
    exact ⟨rfl, dst, .lit value, rfl, made.symm⟩
  | unary op dst src =>
    obtain ⟨value, _, made⟩ := Option.map_eq_some_iff.mp folded
    exact ⟨rfl, dst, .lit value, rfl, made.symm⟩
  | _ => cases folded

theorem literals_metered (value? : Var → Option Int64) (count : Nat) (operand : Operand) :
    MeteredFrom (Counted (· ≠ ·)) (Tally.Makes (Tally.substitute (fun var => (value? var).map .lit) · operand) count)
      (count, operand) := by
  refine Tally.substitute_metered _ (fun var operand known => ?_) count operand
  obtain ⟨value, _, made⟩ := Option.map_eq_some_iff.mp known
  rw [← made]
  exact Operand.noConfusion

theorem ValueTable.step_metered (pinned : OrderedSet Var) :
    Body.MeteredStep (ValueTable.step pinned) fun _ operation table => table.advance pinned operation := by
  intro table count inst operation
  refine metered_view _ _ _ _ (count, operation) id
    (metered_edits _ table.simplify? (literals_metered table.const?) table.simplify_becomes count operation)
    (fun _ _ => id) fun fuel left made done => ?_
  rw [Tally.Makes] at done
  simp only [ValueTable.step, done]
  rfl

theorem Constants.step_metered (pinned : OrderedSet Var) :
    Body.MeteredStep (Constants.editStep pinned) fun inst operation fact => Constants.step pinned inst operation fact := by
  intro fact count inst operation
  refine metered_view _ _ _ _ (count, operation) id
    (metered_edits _ (Constants.fold? fact) (literals_metered fact.get?) (Constants.fold_becomes fact) count operation)
    (fun _ _ => id) fun fuel left made done => ?_
  rw [Tally.Makes] at done
  simp only [Constants.editStep, done]
  rfl

theorem Operation.copy_apart (operation : Operation) (dst src : Var) (moves : operation.copy? = some (dst, src)) : dst ≠ src := by
  rw [Operation.copy?.eq_def] at moves
  split at moves
  · split at moves
    · cases moves
    · cases moves
      assumption
  · cases moves

theorem Copies.step_metered (body : Body) (layout : Block → List Inst) (copies : Copies)
    (copiesOf : body.CopiesOf layout copies) :
    Body.MeteredStep copies.editStep fun inst operation holding => copies.step inst operation holding := by
  intro holding count inst operation
  by_cases copy : (copies.find? inst).isSome = true
  · refine metered_idle _ _ _ fun fuel => ?_
    simp only [Copies.editStep, copy, if_true]
  have changes (var : Var) (operand : Operand) (known : (copies.source? holding var).map Operand.var = some operand) :
      Operand.var var ≠ operand := by
    obtain ⟨src, found, rfl⟩ := Option.map_eq_some_iff.mp known
    obtain ⟨copy, first, rfl⟩ := Option.map_eq_some_iff.mp found
    have writes : copy.dst = var := by
      have holds := List.find?_some first
      simp only [Bool.and_eq_true, beq_iff_eq] at holds
      exact holds.1
    obtain ⟨_, moves⟩ := (copiesOf.listed copy).mp (List.mem_of_find?_eq_some first)
    obtain ⟨operation, _, moves⟩ := Option.bind_eq_some_iff.mp moves
    exact fun same => Operation.copy_apart operation _ _ moves (writes.trans (Operand.var.inj same))
  refine metered_view _ _ _ _ (count, operation) id
    (Tally.update_uses_metered _ (fun count operand => Tally.substitute_metered _ changes count operand) count operation)
    (fun a b changed => ⟨changed.1, .inl changed.2⟩) fun fuel left made done => ?_
  rw [Tally.Makes] at done
  simp only [Copies.editStep, copy, done]
  rfl

namespace Body

def MeteredPass (body : Body) (run : Fuel → Except Fault (Tally × Body)) : Prop :=
  MeteredFrom (Counted OneEditApart) (fun fuel left made => run fuel = .ok (⟨left, made.1⟩, made.2)) (0, body)

variable (body : Body) (accepted : body.check = .ok ())

include accepted

theorem number_values_metered : body.MeteredPass body.numberValues := by
  obtain ⟨pinned, taken, _⟩ := address_taken_total body body.layout (well_formed_of_check body accepted).laid
  refine metered_view _ _ _ _ (0, body) id
    (edit_code_metered _ _ (ValueTable.step_metered pinned) (fun _ => some {}) body accepted) (fun _ _ => id)
    fun fuel left made done => ?_
  rw [numberValues, taken]
  exact done

theorem propagate_constants_metered : body.MeteredPass body.propagateConstants := by
  obtain ⟨pinned, taken, _⟩ := address_taken_total body body.layout (well_formed_of_check body accepted).laid
  obtain ⟨facts, solved⟩ := constants_solved body accepted pinned
  refine metered_view _ _ _ _ (0, body) id
    (edit_code_metered _ _ (Constants.step_metered pinned) (knownAt facts) body accepted) (fun _ _ => id)
    fun fuel left made done => ?_
  rw [propagateConstants, taken]
  simp only [bind, Except.bind, solved.found]
  exact done

theorem propagate_copies_metered : body.MeteredPass body.propagateCopies := by
  have wellFormed := well_formed_of_check body accepted
  obtain ⟨copies, facts, found, copiesOf, solved⟩ := copies_solved body accepted
  obtain ⟨order, ordered, _⟩ := flow_order_total body wellFormed.edges wellFormed.entry
  refine metered_view _ _ _ _ (0, body) id
    (edit_code_metered _ _ (Copies.step_metered body body.layout copies copiesOf) (holdingAt order facts) body accepted)
    (fun _ _ => id) fun fuel left made done => ?_
  rw [propagateCopies, found]
  simp only [bind, Except.bind, solved.found, ordered]
  exact done

end Body


end ThreeAddress
