import Mathlib.Data.List.Nodup
import ThreeAddress.Dataflow.Constants
import ThreeAddress.Proofs.Dataflow.SetFacts

/-!
Bindings keep the laws: fewer bindings are lower and top is highest, and keeping what both sides agree on is
the meet. The constants analysis only ever binds variables that some operation of the body writes.
-/

set_option autoImplicit false
set_option linter.unusedSectionVars false

namespace ThreeAddress

namespace Bindings

section Order

variable {κ ν : Type} [Ord κ]

def Over (scope : List κ) : Bindings κ ν → Prop
  | top => True
  | known map => map.Sound ∧ ∀ key ∈ map.keys, key ∈ scope

def le : Bindings κ ν → Bindings κ ν → Prop
  | _, top => True
  | top, known _ => False
  | known map, known other => ∀ entry ∈ map.toList, entry ∈ other.toList

def rank (scope : List κ) : Bindings κ ν → Nat
  | top => scope.length + 1
  | known map => map.size

theorem le_refl (a : Bindings κ ν) : le a a := by
  cases a with
  | top => trivial
  | known map => exact fun _ member => member

theorem le_trans (a b c : Bindings κ ν) (first : le a b) (second : le b c) : le a c := by
  cases c with
  | top => trivial
  | known last =>
    cases b with
    | top => exact second.elim
    | known middle =>
      cases a with
      | top => exact first.elim
      | known map => exact fun entry member => second entry (first entry member)

variable [Std.TransOrd κ] [Std.LawfulEqOrd κ] (scope : List κ)

theorem rank_le (a : Bindings κ ν) (inScope : a.Over scope) : a.rank scope ≤ scope.length + 1 := by
  cases a with
  | top => exact Nat.le_refl _
  | known map =>
    have distinct : map.keys.Nodup := keys_nodup map.toList inScope.1.ascends
    have fewer := (List.subperm_of_subset distinct inScope.2).length_le
    rw [OrderedMap.keys, List.length_map] at fewer
    have counted : map.size = map.toList.length := inScope.1.counted
    simp only [rank]
    omega

theorem rank_lt (a b : Bindings κ ν) (below : Solver.Below (Over scope) le a b) : a.rank scope < b.rank scope := by
  obtain ⟨aOver, bOver, less, strict⟩ := below
  cases b with
  | top =>
    cases a with
    | top => exact (strict trivial).elim
    | known map =>
      have distinct : map.keys.Nodup := keys_nodup map.toList aOver.1.ascends
      have fewer := (List.subperm_of_subset distinct aOver.2).length_le
      rw [OrderedMap.keys, List.length_map] at fewer
      have counted : map.size = map.toList.length := aOver.1.counted
      simp only [rank]
      omega
  | known other =>
    cases a with
    | top => exact less.elim
    | known map =>
      have counted : map.size = map.toList.length := aOver.1.counted
      have otherCounted : other.size = other.toList.length := bOver.1.counted
      have nodup : map.toList.Nodup := (keys_nodup map.toList aOver.1.ascends).of_map
      have part := List.subperm_of_subset nodup less
      by_contra notLess
      simp only [rank] at notLess
      have permuted := part.perm_of_length_le (by omega)
      exact strict fun entry member => permuted.mem_iff.mpr member

theorem descends : WellFounded (Solver.Below (Over scope) (le : Bindings κ ν → Bindings κ ν → Prop)) :=
  Subrelation.wf (fun {a b} below => rank_lt scope a b below) (InvImage.wf (rank scope) Nat.lt_wfRel.wf)

theorem ascends : WellFounded (Solver.Below (Over scope) (flip (le : Bindings κ ν → Bindings κ ν → Prop))) := by
  refine Subrelation.wf ?_ (InvImage.wf (fun a : Bindings κ ν => scope.length + 1 - a.rank scope) Nat.lt_wfRel.wf)
  intro a b ⟨aOver, bOver, less, strict⟩
  have higher := rank_lt scope b a ⟨bOver, aOver, less, strict⟩
  have bound := rank_le scope a aOver
  change scope.length + 1 - a.rank scope < scope.length + 1 - b.rank scope
  omega

theorem over_set (fact : Bindings κ ν) (inScope : fact.Over scope) (key : κ) (value : Option ν)
    (member : value.isSome = true → key ∈ scope) : (fact.set key value).Over scope := by
  cases fact with
  | top => trivial
  | known map =>
    refine ⟨OrderedMap.sound_set map inScope.1 key value, fun other listed => ?_⟩
    obtain ⟨entry, inMap, same⟩ := List.mem_map.mp listed
    obtain ⟨entryKey, held⟩ := entry
    cases (OrderedMap.mem_set map inScope.1 key value entryKey held).mp inMap with
    | inl written =>
      rw [← same, written.1]
      exact member (Option.isSome_iff_exists.mpr ⟨held, written.2⟩)
    | inr kept =>
      rw [← same]
      exact inScope.2 entryKey (List.mem_map_of_mem (f := Prod.fst) kept.2)

theorem set_mono (a b : Bindings κ ν) (aOver : a.Over scope) (bOver : b.Over scope) (less : le a b) (key : κ)
    (value other : Option ν) (values : ∀ held, b ≠ .top → value = some held → other = some held) :
    le (a.set key value) (b.set key other) := by
  cases b with
  | top => trivial
  | known larger =>
    cases a with
    | top => exact less.elim
    | known map =>
      intro (entryKey, held) member
      refine (OrderedMap.mem_set larger bOver.1 key other entryKey held).mpr ?_
      cases (OrderedMap.mem_set map aOver.1 key value entryKey held).mp member with
      | inl written => exact .inl ⟨written.1, values held nofun written.2⟩
      | inr kept => exact .inr ⟨kept.1, less _ kept.2⟩

theorem get_mono (a b : Bindings κ ν) (aOver : a.Over scope) (bOver : b.Over scope) (less : le a b) (notTop : b ≠ .top)
    (key : κ) (value : ν) (found : a.get? key = some value) : b.get? key = some value := by
  cases b with
  | top => exact (notTop rfl).elim
  | known larger =>
    cases a with
    | top => exact less.elim
    | known map =>
      have member := (OrderedMap.get_eq_some_iff map aOver.1 key value).mp found
      exact (OrderedMap.get_eq_some_iff larger bOver.1 key value).mpr (less _ member)

variable [BEq ν] [LawfulBEq ν]

theorem meet_over (a b : Bindings κ ν) (aOver : a.Over scope) (bOver : b.Over scope) : (a.meet b).1.Over scope := by
  cases b with
  | top => cases a <;> exact aOver
  | known other =>
    cases a with
    | top => exact bOver
    | known map =>
      refine ⟨OrderedMap.sound_agreeing map other aOver.1, fun key listed => ?_⟩
      obtain ⟨entry, member, same⟩ := List.mem_map.mp listed
      have inMap := ((OrderedMap.mem_agreeing map other bOver.1 entry).mp member).1
      exact same ▸ aOver.2 entry.1 (List.mem_map_of_mem (f := Prod.fst) inMap)

theorem meet_lower (a b : Bindings κ ν) (bOver : b.Over scope) : le (a.meet b).1 a ∧ le (a.meet b).1 b := by
  cases b with
  | top => cases a <;> exact ⟨le_refl _, trivial⟩
  | known other =>
    cases a with
    | top => exact ⟨trivial, le_refl _⟩
    | known map =>
      have members := OrderedMap.mem_agreeing map other bOver.1
      exact ⟨fun entry member => ((members entry).mp member).1, fun entry member => ((members entry).mp member).2⟩

theorem meet_greatest (a b c : Bindings κ ν) (bOver : b.Over scope) (first : le c a) (second : le c b) :
    le c (a.meet b).1 := by
  cases b with
  | top => cases a <;> exact first
  | known other =>
    cases a with
    | top => exact second
    | known map =>
      cases c with
      | top => exact first.elim
      | known low =>
        intro entry member
        exact (OrderedMap.mem_agreeing map other bOver.1 entry).mpr ⟨first entry member, second entry member⟩

theorem beq_iff [BEq κ] [LawfulBEq κ] (a b : Bindings κ ν) (aOver : a.Over scope) (bOver : b.Over scope) :
    (a == b) = true ↔ le a b ∧ le b a := by
  cases b with
  | top =>
    cases a with
    | top => exact ⟨fun _ => ⟨trivial, trivial⟩, fun _ => rfl⟩
    | known map => exact ⟨(fun differ => nomatch differ), fun both => both.2.elim⟩
  | known other =>
    cases a with
    | top => exact ⟨(fun differ => nomatch differ), fun both => both.1.elim⟩
    | known map =>
      have maps : (known map == known other) = true ↔ map.toList = other.toList :=
        OrderedMap.beq_iff map other aOver.1 bOver.1
      rw [maps]
      constructor
      · exact fun same => ⟨fun entry member => same ▸ member, fun entry member => same ▸ member⟩
      · exact fun both => OrderedMap.to_list_ext map other aOver.1 bOver.1 fun entry => ⟨both.1 entry, both.2 entry⟩

end Order

end Bindings

namespace Constants

theorem operand_mono (scope : List Var) (a b : ConstFact) (aOver : a.Over scope) (bOver : b.Over scope)
    (less : Bindings.le a b) (notTop : b ≠ .top) (operand : Operand) (value : Int64)
    (found : operand? a operand = some value) : operand? b operand = some value := by
  cases operand with
  | lit literal => exact found
  | var name => exact Bindings.get_mono scope a b aOver bOver less notTop name value found

theorem eval_mono (scope : List Var) (a b : ConstFact) (aOver : a.Over scope) (bOver : b.Over scope)
    (less : Bindings.le a b) (notTop : b ≠ .top) (operation : Operation) (value : Int64)
    (found : eval? a operation = some value) : eval? b operation = some value := by
  have operands := operand_mono scope a b aOver bOver less notTop
  cases operation with
  | assign dst src => exact operands src value found
  | binary op dst lhs rhs =>
    simp only [eval?, bind, Option.bind_eq_some_iff] at found ⊢
    obtain ⟨left, leftFound, right, rightFound, computed⟩ := found
    exact ⟨left, operands lhs left leftFound, right, operands rhs right rightFound, computed⟩
  | unary op dst src =>
    simp only [eval?, Option.map_eq_some_iff] at found ⊢
    obtain ⟨operand, operandFound, computed⟩ := found
    exact ⟨operand, operands src operand operandFound, computed⟩
  | _ => cases found

def written (operation : Operation) (fact : ConstFact) : ConstFact :=
  match operation.def? with
  | some dst => fact.set dst (eval? fact operation)
  | none => fact

def unbindAll (vars : List Var) (fact : ConstFact) : ConstFact := vars.foldl (fun fact var => fact.set var none) fact

theorem step_eq (pinned : OrderedSet Var) (inst : Inst) (operation : Operation) (fact : ConstFact) :
    step pinned inst operation fact =
      if operation.clobbersMemory then unbindAll pinned.toList (written operation fact) else written operation fact := by
  unfold step unbindAll written
  cases operation.def? <;> rfl

theorem over_unbind_all (scope vars : List Var) (fact : ConstFact) (inScope : fact.Over scope) :
    (unbindAll vars fact).Over scope := by
  induction vars generalizing fact with
  | nil => exact inScope
  | cons var rest ih => exact ih _ (Bindings.over_set scope fact inScope var none fun some => nomatch some)

theorem over_step (pinned : OrderedSet Var) (scope : List Var) (inst : Inst) (operation : Operation) (fact : ConstFact)
    (inScope : fact.Over scope) (defined : ∀ dst, operation.def? = some dst → dst ∈ scope) :
    (step pinned inst operation fact).Over scope := by
  have writtenOver : (written operation fact).Over scope := by
    unfold written
    cases writes : operation.def? with
    | none => exact inScope
    | some dst => exact Bindings.over_set scope fact inScope dst _ fun _ => defined dst writes
  rw [step_eq]
  cases operation.clobbersMemory with
  | false => exact writtenOver
  | true => exact over_unbind_all scope pinned.toList _ writtenOver

theorem step_mono (pinned : OrderedSet Var) (scope : List Var) (inst : Inst) (operation : Operation) (a b : ConstFact)
    (aOver : a.Over scope) (bOver : b.Over scope) (defined : ∀ dst, operation.def? = some dst → dst ∈ scope)
    (less : Bindings.le a b) : Bindings.le (step pinned inst operation a) (step pinned inst operation b) := by
  have writes : Bindings.le (written operation a) (written operation b) := by
    unfold written
    cases operation.def? with
    | none => exact less
    | some dst =>
      exact Bindings.set_mono scope a b aOver bOver less dst _ _ fun value notTop =>
        eval_mono scope a b aOver bOver less notTop operation value
  have writtenOver (fact : ConstFact) (inScope : fact.Over scope) : (written operation fact).Over scope := by
    unfold written
    cases found : operation.def? with
    | none => exact inScope
    | some dst => exact Bindings.over_set scope fact inScope dst _ fun _ => defined dst found
  have unbinds (vars : List Var) (low high : ConstFact) (lowOver : low.Over scope) (highOver : high.Over scope)
      (ordered : Bindings.le low high) : Bindings.le (unbindAll vars low) (unbindAll vars high) := by
    induction vars generalizing low high with
    | nil => exact ordered
    | cons var rest ih =>
      exact ih _ _ (Bindings.over_set scope low lowOver var none fun some => nomatch some)
        (Bindings.over_set scope high highOver var none fun some => nomatch some)
        (Bindings.set_mono scope low high lowOver highOver ordered var none none fun _ _ none => nomatch none)
  rw [step_eq, step_eq]
  cases operation.clobbersMemory with
  | false => exact writes
  | true => exact unbinds pinned.toList _ _ (writtenOver a aOver) (writtenOver b bOver) writes

theorem lawful (pinned : OrderedSet Var) (body : Body) (scope : List Var)
    (defined : ∀ inst operation, body.operation? inst = some operation → ∀ dst, operation.def? = some dst → dst ∈ scope) :
    (analysis pinned body).Lawful body (Bindings.Over scope) Bindings.le where
  init := trivial
  boundary := ⟨OrderedMap.sound_empty, fun _ member => nomatch member⟩
  merge := fun a b aOver bOver => Bindings.meet_over scope a b aOver bOver
  transfer := by
    intro block fact _ inScope
    refine Body.transfer_code_related body .forward (step pinned) block (fun a _ => a.Over scope) ?_ fact fact inScope
    exact fun inst operation a _ present before => over_step pinned scope inst operation a before (defined inst operation present)
  refl := fun a _ => Bindings.le_refl a
  trans := fun a b c _ _ _ first second => Bindings.le_trans a b c first second
  lower := fun a b _ bOver => Bindings.meet_lower scope a b bOver
  greatest := fun a b c _ bOver _ first second => Bindings.meet_greatest scope a b c bOver first second
  monotone := by
    intro block a b _ aOver bOver less
    refine (Body.transfer_code_related body .forward (step pinned) block
      (fun a b => a.Over scope ∧ b.Over scope ∧ Bindings.le a b) ?_ a b ⟨aOver, bOver, less⟩).2.2
    intro inst operation a b present ⟨aOver, bOver, less⟩
    have writes := defined inst operation present
    exact ⟨over_step pinned scope inst operation a aOver writes, over_step pinned scope inst operation b bOver writes,
      step_mono pinned scope inst operation a b aOver bOver writes less⟩
  same_iff := fun a b aOver bOver => Bindings.beq_iff scope a b aOver bOver

end Constants

end ThreeAddress
