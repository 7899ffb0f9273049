import Mathlib.Logic.Function.Basic
import Mathlib.Tactic.Tauto
import ThreeAddress.Proofs.Chain.Splices
import ThreeAddress.Proofs.Chain.Walks

/-!
Families of chains over one arena. Beside the chains runs a family of plain lists and the marks, and each edit has
its plain meaning there. An edit rewrites links only on the lists that it names, so lists that are apart stay
apart and the chains go on holding them, whatever edits follow one another.
-/

set_option autoImplicit false

namespace ThreeAddress

variable {ι : Type}

structure ChainFamily (ι : Type) where
  chains : ι → Chain
  cells : Cells

structure ListFamily (ι : Type) where
  lists : ι → List Inst
  marks : Inst → Bool

-- The first name is the chain that is edited. A chain that is joined to it is used up, and a part that is cut off
-- takes over a name.
inductive ChainStep (ι : Type) where
  | append (name : ι) (inst : Inst)
  | prepend (name : ι) (inst : Inst)
  | insertBefore (name : ι) (member inst : Inst)
  | unlink (name : ι) (inst : Inst)
  | concat (name back : ι)
  | splitOff (name : ι) (start : Inst) (into : ι)
  | removeMarked (name : ι)

section Steps

variable [DecidableEq ι]

def ChainFamily.edit (family : ChainFamily ι) (name : ι) (edited : Except Fault (Chain × Cells)) :
    Except Fault (ChainFamily ι × Option Nat) := do
  let (chain, cells) ← edited
  return (⟨Function.update family.chains name chain, cells⟩, none)

def ListFamily.put (family : ListFamily ι) (name : ι) (insts : List Inst) : ListFamily ι :=
  { family with lists := Function.update family.lists name insts }

namespace ChainStep

def onChains (family : ChainFamily ι) : ChainStep ι → Except Fault (ChainFamily ι × Option Nat)
  | append name inst => family.edit name ((family.chains name).append family.cells inst)
  | prepend name inst => family.edit name ((family.chains name).prepend family.cells inst)
  | insertBefore name member inst => family.edit name ((family.chains name).insertBefore family.cells member inst)
  | unlink name inst => family.edit name ((family.chains name).unlink family.cells inst)
  | concat name back =>
      { family with chains := Function.update family.chains back .empty }.edit name
        ((family.chains name).concat family.cells (family.chains back))
  | splitOff name start into => do
      let (front, suffix, cells) ← (family.chains name).splitOff family.cells start
      return (⟨Function.update (Function.update family.chains name front) into suffix, cells⟩, none)
  | removeMarked name => do
      let (chain, cells, count) ← (family.chains name).removeMarked family.cells
      return (⟨Function.update family.chains name chain, cells⟩, some count)

def onLists (family : ListFamily ι) : ChainStep ι → ListFamily ι × Option Nat
  | append name inst => (family.put name (family.lists name ++ [inst]), none)
  | prepend name inst => (family.put name (inst :: family.lists name), none)
  | insertBefore name member inst =>
      let front := (family.lists name).takeWhile (· != member)
      let back := (family.lists name).dropWhile (· != member)
      (family.put name (front ++ inst :: back), none)
  | unlink name inst => (family.put name ((family.lists name).erase inst), none)
  | concat name back => ((family.put back []).put name (family.lists name ++ family.lists back), none)
  | splitOff name start into =>
      let front := (family.lists name).takeWhile (· != start)
      let back := (family.lists name).dropWhile (· != start)
      ((family.put name front).put into back, none)
  | removeMarked name =>
      let marked := (family.lists name).filter family.marks
      let kept := (family.lists name).filter fun inst => !family.marks inst
      ({ family.put name kept with marks := fun inst => family.marks inst && !marked.contains inst }, some marked.length)

def Allowed (present : Inst → Bool) (lists : ι → List Inst) : ChainStep ι → Prop
  | append _ inst | prepend _ inst => present inst = true ∧ ∀ name, inst ∉ lists name
  | insertBefore name member inst => member ∈ lists name ∧ present inst = true ∧ ∀ other, inst ∉ lists other
  | unlink name inst => inst ∈ lists name
  | concat name back => name ≠ back
  | splitOff name start _ => start ∈ lists name
  | removeMarked _ => True

def runChains (family : ChainFamily ι) : List (ChainStep ι) → Except Fault (ChainFamily ι × List (Option Nat))
  | [] => .ok (family, [])
  | step :: rest => do
      let (next, answer) ← step.onChains family
      let (last, answers) ← runChains next rest
      return (last, answer :: answers)

def runLists (family : ListFamily ι) : List (ChainStep ι) → ListFamily ι × List (Option Nat)
  | [] => (family, [])
  | step :: rest =>
      let (next, answer) := step.onLists family
      let (last, answers) := runLists next rest
      (last, answer :: answers)

def AllAllowed (present : Inst → Bool) : ListFamily ι → List (ChainStep ι) → Prop
  | _, [] => True
  | family, step :: rest => step.Allowed present family.lists ∧ AllAllowed present (step.onLists family).1 rest

instance decidableAllowed {count : Nat} (present : Inst → Bool) (lists : Fin count → List Inst) (step : ChainStep (Fin count)) :
    Decidable (step.Allowed present lists) :=
  match step with
  | append _ inst | prepend _ inst => inferInstanceAs (Decidable (present inst = true ∧ ∀ name, inst ∉ lists name))
  | insertBefore name member inst =>
      inferInstanceAs (Decidable (member ∈ lists name ∧ present inst = true ∧ ∀ other, inst ∉ lists other))
  | unlink name inst => inferInstanceAs (Decidable (inst ∈ lists name))
  | concat name back => inferInstanceAs (Decidable (name ≠ back))
  | splitOff name start _ => inferInstanceAs (Decidable (start ∈ lists name))
  | removeMarked _ => inferInstanceAs (Decidable True)

instance decidableAllAllowed {count : Nat} (present : Inst → Bool) :
    (family : ListFamily (Fin count)) → (steps : List (ChainStep (Fin count))) → Decidable (AllAllowed present family steps)
  | _, [] => inferInstanceAs (Decidable True)
  | family, step :: rest =>
      have := decidableAllAllowed present (step.onLists family).1 rest
      inferInstanceAs (Decidable (step.Allowed present family.lists ∧ AllAllowed present (step.onLists family).1 rest))

end ChainStep

end Steps

theorem cut_before (front back : List Inst) (inst : Inst) (fresh : inst ∉ front) :
    (front ++ inst :: back).takeWhile (· != inst) = front ∧ (front ++ inst :: back).dropWhile (· != inst) = inst :: back := by
  have differ : ∀ other ∈ front, (other != inst) = true := fun other member =>
    bne_iff_ne.mpr fun same => fresh (same ▸ member)
  rw [List.takeWhile_append_of_pos differ, List.dropWhile_append_of_pos differ]
  simp

theorem holds_of_edited (chain : Chain) (cells other : Cells) (insts : List Inst) (relinked detached cleared : Inst → Prop)
    (edited : Cells.Edited cells other relinked detached cleared) (away : ∀ inst ∈ insts, ¬ relinked inst)
    (holds : chain.Holds cells insts) : chain.Holds other insts :=
  ⟨(linked_congr cells other _ _ insts fun inst member => edited.links inst (away inst member)).mpr holds.linked,
    holds.head, holds.tail, holds.size⟩

def Cells.SameOperations (cells other : Cells) : Prop :=
  ∀ inst, (other.get? inst).map Cell.operation = (cells.get? inst).map Cell.operation

theorem contains_same (cells other : Cells) (same : cells.SameOperations other) (inst : Inst) :
    other.contains inst = cells.contains inst := by
  have read (cells : Cells) : cells.contains inst = ((cells.get? inst).map Cell.operation).isSome := by
    rw [Option.isSome_map, Bool.eq_iff_iff, Arena.contains_iff, Option.isSome_iff_exists]
  rw [read, read, same]

structure ChainFamily.Threads (family : ChainFamily ι) (model : ListFamily ι) : Prop where
  holds : ∀ name, (family.chains name).Holds family.cells (model.lists name)
  apart : ∀ name other, name ≠ other → ∀ inst ∈ model.lists name, inst ∉ model.lists other
  marks : ∀ inst, Chain.isMarked family.cells inst = model.marks inst

namespace ChainFamily

variable [DecidableEq ι] (family : ChainFamily ι) (model : ListFamily ι) (threads : family.Threads model)

include threads

-- One chain gets another list, all of whose members were touched; the members of the other lists were not.
theorem threads_update (name : ι) (chain : Chain) (cells : Cells) (insts touched : List Inst) (detached cleared : Inst → Prop)
    (marks : Inst → Bool) (edited : Cells.Edited family.cells cells (· ∈ touched) detached cleared)
    (holds : chain.Holds cells insts) (inside : insts ⊆ touched)
    (away : ∀ other, other ≠ name → ∀ inst ∈ model.lists other, inst ∉ touched)
    (marked : ∀ inst, Chain.isMarked cells inst = marks inst) :
    Threads ⟨Function.update family.chains name chain, cells⟩ { model.put name insts with marks := marks } := by
  refine ⟨fun other => ?_, fun one other different => ?_, marked⟩
  · dsimp only [ListFamily.put]
    by_cases here : other = name
    · subst here
      rw [Function.update_self, Function.update_self]
      exact holds
    · rw [Function.update_of_ne here, Function.update_of_ne here]
      exact holds_of_edited _ _ _ _ _ _ _ edited (away other here) (threads.holds other)
  · dsimp only [ListFamily.put]
    by_cases first : one = name
    · subst first
      rw [Function.update_self, Function.update_of_ne different.symm]
      exact fun inst left right => away other different.symm inst right (inside left)
    · by_cases second : other = name
      · subst second
        rw [Function.update_self, Function.update_of_ne different]
        exact fun inst left right => away one different inst left (inside right)
      · rw [Function.update_of_ne first, Function.update_of_ne second]
        exact threads.apart one other different

theorem edit_threads (name : ι) (result : Except Fault (Chain × Cells)) (insts touched : List Inst)
    (detached : Inst → Prop) (inside : insts ⊆ touched) (away : ∀ other, other ≠ name → ∀ inst ∈ model.lists other, inst ∉ touched)
    (done : ∃ chain cells, result = .ok (chain, cells) ∧ chain.Holds cells insts ∧
      Cells.Edited family.cells cells (· ∈ touched) detached nowhere) :
    ∃ next, family.edit name result = .ok (next, none) ∧ next.Threads (model.put name insts) ∧
      family.cells.SameOperations next.cells := by
  obtain ⟨chain, cells, rfl, holds, edited⟩ := done
  refine ⟨⟨Function.update family.chains name chain, cells⟩, rfl, ?_, edited.operation⟩
  exact family.threads_update model threads name chain cells insts touched detached nowhere model.marks edited holds inside
    away fun inst => (Chain.is_marked_congr _ _ inst (edited.mark inst id)).trans (threads.marks inst)

omit [DecidableEq ι] in
theorem away_placed (name : ι) (inst : Inst) (loose : ∀ other, inst ∉ model.lists other) (placed : List Inst)
    (members : ∀ other ∈ placed, other = inst ∨ other ∈ model.lists name) (other : ι) (different : other ≠ name) :
    ∀ inst ∈ model.lists other, inst ∉ placed := by
  intro member there here
  rcases members member here with same | old
  · exact loose other (same ▸ there)
  · exact threads.apart other name different member there old

end ChainFamily

section Follows

variable [DecidableEq ι]

def ChainStep.Follows (step : ChainStep ι) (family : ChainFamily ι) (model : ListFamily ι) : Prop :=
  ∃ next, step.onChains family = .ok (next, (step.onLists model).2) ∧ next.Threads (step.onLists model).1 ∧
    family.cells.SameOperations next.cells

namespace ChainFamily

variable (family : ChainFamily ι) (model : ListFamily ι) (threads : family.Threads model)

include threads

omit [DecidableEq ι] in
theorem member_divides (name : ι) (member : Inst) (onList : member ∈ model.lists name) :
    ∃ front back, model.lists name = front ++ member :: back ∧ (front ++ member :: back).Nodup ∧ member ∉ front ∧
      (family.chains name).Holds family.cells (front ++ member :: back) := by
  obtain ⟨front, back, list⟩ := List.append_of_mem onList
  have holds := list ▸ threads.holds name
  have once := linked_nodup family.cells .invalid _ holds.linked
  exact ⟨front, back, list, once, fun inside => (List.nodup_append.mp once).2.2 member inside member List.mem_cons_self rfl, holds⟩

theorem append_follows (name : ι) (inst : Inst) (present : family.cells.contains inst = true)
    (loose : ∀ other, inst ∉ model.lists other) : (ChainStep.append name inst).Follows family model := by
  obtain ⟨cell, found⟩ := (family.cells.contains_iff inst).mp present
  refine family.edit_threads model threads name _ _ _ nowhere (List.Subset.refl _) ?_
    (Chain.append_holds _ family.cells _ inst (threads.holds name) (loose name) cell found)
  exact family.away_placed model threads name inst loose _ fun other member => by simpa [or_comm] using member

theorem prepend_follows (name : ι) (inst : Inst) (present : family.cells.contains inst = true)
    (loose : ∀ other, inst ∉ model.lists other) : (ChainStep.prepend name inst).Follows family model := by
  obtain ⟨cell, found⟩ := (family.cells.contains_iff inst).mp present
  refine family.edit_threads model threads name _ _ _ nowhere (List.Subset.refl _) ?_
    (Chain.prepend_holds _ family.cells _ inst (threads.holds name) (loose name) cell found)
  exact family.away_placed model threads name inst loose _ fun other member => by simpa using member

theorem insert_before_follows (name : ι) (member inst : Inst) (onList : member ∈ model.lists name)
    (present : family.cells.contains inst = true) (loose : ∀ other, inst ∉ model.lists other) :
    (ChainStep.insertBefore name member inst).Follows family model := by
  obtain ⟨cell, found⟩ := (family.cells.contains_iff inst).mp present
  obtain ⟨front, back, list, _, fresh, holds⟩ := family.member_divides model threads name member onList
  obtain ⟨taken, dropped⟩ := cut_before front back member fresh
  simp only [ChainStep.Follows, ChainStep.onChains, ChainStep.onLists, list, taken, dropped]
  refine family.edit_threads model threads name _ _ _ nowhere (List.Subset.refl _) ?_
    (Chain.insert_before_holds _ family.cells front back member inst holds (list ▸ loose name) cell found)
  refine family.away_placed model threads name inst loose _ fun other inside => ?_
  rw [list]
  simp only [List.mem_append, List.mem_cons] at inside ⊢
  tauto

theorem unlink_follows (name : ι) (inst : Inst) (onList : inst ∈ model.lists name) :
    (ChainStep.unlink name inst).Follows family model := by
  obtain ⟨front, back, list, _, fresh, holds⟩ := family.member_divides model threads name inst onList
  have erased : (front ++ inst :: back).erase inst = front ++ back := by
    rw [List.erase_append_right _ fresh, List.erase_cons_head]
  simp only [ChainStep.Follows, ChainStep.onChains, ChainStep.onLists, list, erased]
  refine family.edit_threads model threads name _ _ (front ++ inst :: back) (· = inst) ?_ ?_
    (Chain.unlink_holds _ family.cells front back inst holds)
  · exact fun other member => by simp at member ⊢; tauto
  · exact fun other different => list ▸ threads.apart other name different

theorem concat_follows (name back : ι) (two : name ≠ back) : (ChainStep.concat name back).Follows family model := by
  have dropped : ChainFamily.Threads { family with chains := Function.update family.chains back .empty } (model.put back []) :=
    family.threads_update model threads back .empty family.cells [] [] nowhere nowhere model.marks (edited_refl _ _ _ _)
      ⟨trivial, rfl, rfl, rfl⟩ (List.Subset.refl _) (fun _ _ _ _ none => nomatch none) threads.marks
  refine ChainFamily.edit_threads _ _ dropped name _ _ (model.lists name ++ model.lists back) nowhere (List.Subset.refl _) ?_
    (Chain.concat_holds _ _ family.cells _ _ (threads.holds name) (threads.holds back) (threads.apart name back two))
  intro other different inst there here
  dsimp only [ListFamily.put] at there
  by_cases used : other = back
  · subst used
    rw [Function.update_self] at there
    exact List.not_mem_nil there
  · rw [Function.update_of_ne used] at there
    rcases List.mem_append.mp here with first | second
    · exact threads.apart other name different inst there first
    · exact threads.apart other back used inst there second

theorem split_off_follows (name : ι) (start : Inst) (into : ι) (onList : start ∈ model.lists name) :
    (ChainStep.splitOff name start into).Follows family model := by
  obtain ⟨front, back, list, once, fresh, holds⟩ := family.member_divides model threads name start onList
  obtain ⟨taken, rest⟩ := cut_before front back start fresh
  obtain ⟨before, suffix, cells, done, frontHolds, backHolds, edited⟩ :=
    Chain.split_off_holds _ family.cells front back start holds
  have cut : ChainFamily.Threads ⟨Function.update family.chains name before, cells⟩ (model.put name front) :=
    family.threads_update model threads name before cells front _ nowhere nowhere model.marks edited frontHolds
      (List.subset_append_left _ _) (fun other different => list ▸ threads.apart other name different)
      fun inst => (Chain.is_marked_congr _ _ inst (edited.mark inst id)).trans (threads.marks inst)
  refine ⟨⟨Function.update (Function.update family.chains name before) into suffix, cells⟩, ?_, ?_, edited.operation⟩
  · simp only [ChainStep.onChains, done, bind, Except.bind]
    rfl
  · simp only [ChainStep.onLists, list, taken, rest]
    refine ChainFamily.threads_update _ _ cut into suffix cells (start :: back) (start :: back) nowhere nowhere model.marks
      (edited_refl _ _ _ _) backHolds (List.Subset.refl _) (fun other _ inst there here => ?_) cut.marks
    dsimp only [ListFamily.put] at there
    by_cases same : other = name
    · rw [same, Function.update_self] at there
      exact (List.nodup_append.mp once).2.2 inst there inst here rfl
    · rw [Function.update_of_ne same] at there
      exact threads.apart other name same inst there (list ▸ List.mem_append_right front here)

theorem remove_marked_follows (name : ι) : (ChainStep.removeMarked name).Follows family model := by
  obtain ⟨shorter, cells, done, holds, edited, cleared⟩ := Chain.remove_marked_holds _ family.cells _ (threads.holds name)
  rw [funext threads.marks] at done holds edited cleared
  refine ⟨⟨Function.update family.chains name shorter, cells⟩, ?_, ?_, edited.operation⟩
  · simp only [ChainStep.onChains, done, bind, Except.bind]
    rfl
  · refine family.threads_update model threads name shorter cells _ (model.lists name) _ _ _ edited holds
      (fun inst member => (List.mem_filter.mp member).1) (fun other different => threads.apart other name different) fun inst => ?_
    by_cases gone : inst ∈ (model.lists name).filter model.marks
    · simp [cleared inst gone, gone]
    · rw [Chain.is_marked_congr _ _ inst (edited.mark inst gone), threads.marks]
      simp [gone]

theorem step_follows (step : ChainStep ι) (allowed : step.Allowed family.cells.contains model.lists) :
    step.Follows family model := by
  cases step with
  | append name inst => exact family.append_follows model threads name inst allowed.1 allowed.2
  | prepend name inst => exact family.prepend_follows model threads name inst allowed.1 allowed.2
  | insertBefore name member inst =>
    exact family.insert_before_follows model threads name member inst allowed.1 allowed.2.1 allowed.2.2
  | unlink name inst => exact family.unlink_follows model threads name inst allowed
  | concat name back => exact family.concat_follows model threads name back allowed
  | splitOff name start into => exact family.split_off_follows model threads name start into allowed
  | removeMarked name => exact family.remove_marked_follows model threads name

end ChainFamily

end Follows

theorem ChainStep.run_chains_threads [DecidableEq ι] (steps : List (ChainStep ι)) (family : ChainFamily ι)
    (model : ListFamily ι) (threads : family.Threads model) (allowed : AllAllowed family.cells.contains model steps) :
    ∃ last, runChains family steps = .ok (last, (runLists model steps).2) ∧ last.Threads (runLists model steps).1 ∧
      family.cells.SameOperations last.cells := by
  induction steps generalizing family model with
  | nil => exact ⟨family, rfl, threads, fun _ => rfl⟩
  | cons step rest ih =>
    obtain ⟨first, later⟩ := allowed
    obtain ⟨next, done, nextThreads, same⟩ := family.step_follows model threads step first
    have nextAllowed : AllAllowed next.cells.contains (step.onLists model).1 rest :=
      (funext (contains_same family.cells next.cells same) : next.cells.contains = _) ▸ later
    obtain ⟨last, ran, lastThreads, lastSame⟩ := ih next _ nextThreads nextAllowed
    refine ⟨last, ?_, lastThreads, fun inst => (lastSame inst).trans (same inst)⟩
    simp only [runChains, done, ran, bind, Except.bind, runLists, pure, Except.pure]

theorem ChainFamily.edits_refine_lists [DecidableEq ι] (chains : ι → Chain) (cells : Cells) (lists : ι → List Inst)
    (holds : ∀ name, (chains name).Holds cells (lists name))
    (apart : ∀ name other, name ≠ other → ∀ inst ∈ lists name, inst ∉ lists other) (steps : List (ChainStep ι))
    (allowed : ChainStep.AllAllowed cells.contains ⟨lists, Chain.isMarked cells⟩ steps) :
    ∃ last, ChainStep.runChains ⟨chains, cells⟩ steps =
        .ok (last, (ChainStep.runLists ⟨lists, Chain.isMarked cells⟩ steps).2) ∧
      last.Threads (ChainStep.runLists ⟨lists, Chain.isMarked cells⟩ steps).1 ∧ cells.SameOperations last.cells ∧
      ∀ name sides, ∃ fronts middle backs rest,
        (last.chains name).walk.pulls last.cells sides = .ok (fronts, backs, rest) ∧
        (ChainStep.runLists ⟨lists, Chain.isMarked cells⟩ steps).1.lists name = fronts ++ middle ++ backs.reverse ∧
        rest.remaining = middle.length ∧
        middle.length = ((ChainStep.runLists ⟨lists, Chain.isMarked cells⟩ steps).1.lists name).length - sides.length := by
  obtain ⟨last, ran, threads, same⟩ :=
    ChainStep.run_chains_threads steps ⟨chains, cells⟩ ⟨lists, Chain.isMarked cells⟩ ⟨holds, apart, fun _ => rfl⟩ allowed
  refine ⟨last, ran, threads, same, fun name sides => ?_⟩
  have spans := (last.chains name).walk_spans last.cells _ (threads.holds name)
  exact Walk.pulls_split last.cells _ .invalid .invalid _ sides spans

-- Three labels on one chain, one on another, and one on none; the first and the fourth are marked.
def fiveLabels : Cells := .ofList
  [{ operation := .label, mark := true, next := .nth 1 }, { operation := .label, prev := .nth 0, next := .nth 2 },
    { operation := .label, prev := .nth 1 }, { operation := .label, mark := true }, { operation := .label }]

def threeChains : Fin 3 → Chain
  | 0 => ⟨.nth 0, .nth 2, 3⟩
  | 1 => ⟨.nth 3, .nth 3, 1⟩
  | 2 => .empty

def threeLists : Fin 3 → List Inst
  | 0 => [.nth 0, .nth 1, .nth 2]
  | 1 => [.nth 3]
  | 2 => []

def reshuffle : List (ChainStep (Fin 3)) :=
  [.insertBefore 0 (.nth 1) (.nth 4), .splitOff 0 (.nth 4) 2, .concat 1 2, .concat 1 0, .removeMarked 1,
    .unlink 1 (.nth 1), .prepend 0 (.nth 3), .append 1 (.nth 1)]

theorem reshuffle_refines_lists :
    (∀ name, (threeChains name).Holds fiveLabels (threeLists name)) ∧
      (∀ name other, name ≠ other → ∀ inst ∈ threeLists name, inst ∉ threeLists other) ∧
      ChainStep.AllAllowed fiveLabels.contains ⟨threeLists, Chain.isMarked fiveLabels⟩ reshuffle ∧
      ∃ last, ChainStep.runChains ⟨threeChains, fiveLabels⟩ reshuffle =
          .ok (last, [none, none, none, none, some 2, none, none, none]) ∧
        (last.chains 1).Holds last.cells [.nth 4, .nth 2, .nth 1] := by
  have holds : ∀ name, (threeChains name).Holds fiveLabels (threeLists name)
    | 0 => ⟨⟨rfl, rfl, rfl, trivial⟩, rfl, rfl, rfl⟩
    | 1 => ⟨⟨rfl, trivial⟩, rfl, rfl, rfl⟩
    | 2 => ⟨trivial, rfl, rfl, rfl⟩
  have apart : ∀ name other, name ≠ other → ∀ inst ∈ threeLists name, inst ∉ threeLists other := by decide
  have allowed : ChainStep.AllAllowed fiveLabels.contains ⟨threeLists, Chain.isMarked fiveLabels⟩ reshuffle := by decide
  obtain ⟨last, ran, threads, _⟩ := ChainFamily.edits_refine_lists threeChains fiveLabels threeLists holds apart reshuffle allowed
  exact ⟨holds, apart, allowed, last, ran, threads.holds 1⟩

end ThreeAddress
