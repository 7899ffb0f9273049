import ThreeAddress.Proofs.Execution.Simulation
import ThreeAddress.Proofs.Flow.Paths
import ThreeAddress.Proofs.Optimizer.EditCode

/-!
Traces but for some terminators. A terminator leaves the machine as it is, so a run goes the same way whether it is heard
or not. Two bodies that show the same but for some terminators show the same altogether just if they do on the paths that
end where one of these stands.
-/

set_option autoImplicit false

namespace ThreeAddress

theorem Machine.terminator_step (around : Surroundings) (machine : Machine) (operation : Operation)
    (terminates : operation.isTerminator = true) : (machine.step around operation).2 = some machine := by
  cases operation <;> first | rfl | cases terminates

namespace Body

-- All operations are heard but the terminators among these instructions.
def isHeard (overtaken : List Inst) (entry : Inst × Operation) : Bool := !(entry.2.isTerminator && overtaken.contains entry.1)

theorem terminator_of_unheard (overtaken : List Inst) (entry : Inst × Operation) (unheard : isHeard overtaken entry = false) :
    entry.2.isTerminator = true := by
  simp only [isHeard, Bool.not_eq_false', Bool.and_eq_true] at unheard
  exact unheard.1

def heardIn (body : Body) (overtaken : List Inst) (block : Block) : List Operation :=
  ((body.code block).filter (isHeard overtaken)).map Prod.snd

def heard (body : Body) (overtaken : List Inst) (around : Surroundings) (env : Var → Int64) (path : List Block) : List Event :=
  (Machine.run around ⟨env, 0⟩ (path.flatMap (body.heardIn overtaken))).1

variable (body other : Body) (overtaken : List Inst) (around : Surroundings)

def heardOf (insts : List Inst) : List Operation := ((body.codeOf insts).filter (isHeard overtaken)).map Prod.snd

theorem heard_of_append (front back : List Inst) :
    body.heardOf overtaken (front ++ back) = body.heardOf overtaken front ++ body.heardOf overtaken back := by
  rw [heardOf, codeOf, List.filterMap_append, List.filter_append, List.map_append]
  rfl

theorem heard_of_cons (inst : Inst) (rest : List Inst) (operation : Operation) (found : body.operation? inst = some operation)
    (goesOn : operation.isTerminator = false) : body.heardOf overtaken (inst :: rest) = operation :: body.heardOf overtaken rest := by
  have hears : isHeard overtaken (inst, operation) = true := by rw [isHeard, goesOn, Bool.false_and, Bool.not_false]
  rw [heardOf, code_of_cons body inst operation rest found, List.filter_cons_of_pos hears, List.map_cons]
  rfl

theorem heard_of_mem (insts : List Inst) (operation : Operation) (member : operation ∈ body.heardOf overtaken insts) :
    ∃ inst ∈ insts, body.operation? inst = some operation ∧ (operation.isTerminator = true → inst ∉ overtaken) := by
  obtain ⟨⟨inst, operation⟩, listed, rfl⟩ := List.mem_map.mp member
  obtain ⟨inCode, hears⟩ := List.mem_filter.mp listed
  obtain ⟨inInsts, found⟩ := (mem_code_of_iff body insts inst operation).mp inCode
  refine ⟨inst, inInsts, found, fun terminates overtakes => ?_⟩
  rw [isHeard, terminates, List.contains_iff_mem.mpr overtakes] at hears
  cases hears

theorem heard_in_laid (layout : Block → List Inst) (laid : body.Laid layout) (block : Block) :
    body.heardIn overtaken block = body.heardOf overtaken (layout block) := by
  rw [heardIn, code_laid body layout laid, heardOf]

theorem heard_in_all : body.heardIn [] = body.operationsIn := by
  funext block
  have all : (body.code block).filter (isHeard []) = body.code block := List.filter_eq_self.mpr fun _ _ => by simp [isHeard]
  rw [heardIn, all, operationsIn]

theorem mem_operations_in_of_heard (block : Block) (operation : Operation) (member : operation ∈ body.heardIn overtaken block) :
    operation ∈ body.operationsIn block := by
  obtain ⟨entry, listed, same⟩ := List.mem_map.mp member
  exact List.mem_map.mpr ⟨entry, (List.mem_filter.mp listed).1, same⟩

theorem run_heard (code : List (Inst × Operation)) (machine : Machine) :
    (machine.run around ((code.filter (isHeard overtaken)).map Prod.snd)).2 = (machine.run around (code.map Prod.snd)).2 := by
  induction code generalizing machine with
  | nil => rfl
  | cons entry rest ih =>
    cases hears : isHeard overtaken entry with
    | true =>
      rw [List.filter_cons_of_pos hears, List.map_cons, List.map_cons, Machine.run_cons, Machine.run_cons]
      cases machine.step around entry.2 with
      | mk shown after =>
        cases after with
        | none => rfl
        | some after => exact ih after
    | false =>
      have stays := machine.terminator_step around entry.2 (terminator_of_unheard overtaken entry hears)
      rw [List.filter_cons_of_neg (by simp [hears]), List.map_cons, Machine.run_cons, ih]
      cases stepped : machine.step around entry.2 with
      | mk shown after =>
        rw [stepped] at stays
        cases stays
        rfl

theorem run_heard_along (path : List Block) (machine : Machine) :
    (machine.run around (path.flatMap (body.heardIn overtaken))).2 = (machine.run around (body.operationsAlong path)).2 := by
  have filtered : path.flatMap (body.heardIn overtaken) = ((path.flatMap body.code).filter (isHeard overtaken)).map Prod.snd := by
    rw [List.filter_flatMap, List.map_flatMap]
    rfl
  have all : body.operationsAlong path = (path.flatMap body.code).map Prod.snd := by
    rw [List.map_flatMap]
    rfl
  rw [filtered, all, run_heard]

def HearsAs : Prop :=
  ∀ env path target, Path body body.entry path target → Alike (fun _ _ => True)
    (Machine.run around ⟨env, 0⟩ (path.flatMap (body.heardIn overtaken)))
    (Machine.run around ⟨env, 0⟩ (path.flatMap (other.heardIn overtaken)))

theorem hears_refl : body.HearsAs body overtaken around := by
  intro env path _ _
  cases Machine.run around ⟨env, 0⟩ (path.flatMap (body.heardIn overtaken)) with
  | mk shown after =>
    cases after with
    | none => exact .ended shown
    | some after => exact .on shown after after trivial

theorem alike_past (first second third : Outcome) (upTo : Alike (fun _ _ => True) first second)
    (onward : Alike (fun _ _ => True) second third) : Alike (fun _ _ => True) first third := by
  cases upTo with
  | ended => exact onward
  | on shown a b =>
    cases onward with
    | on _ _ c => exact .on shown a c trivial

theorem hears_trans (middle : Body) (frame : body.SameFrame middle) (first : body.HearsAs middle overtaken around)
    (second : middle.HearsAs other overtaken around) : body.HearsAs other overtaken around := by
  intro env path target leads
  have onward := second env path target (frame.entry.symm ▸ frame_path body middle frame body.entry target path leads)
  exact alike_past _ _ _ (first env path target leads) onward

theorem traces_of_hears (hears : body.HearsAs other [] around) : body.TracesAs other around := by
  intro env path target leads
  have alike := hears env path target leads
  rw [heard_in_all, heard_in_all] at alike
  exact (alike_shown _ _ _ alike).symm

theorem heard_in_silent (block : Block) (silent : ∀ entry ∈ body.code block, isHeard overtaken entry = true) :
    body.heardIn overtaken block = body.operationsIn block := by
  rw [heardIn, List.filter_eq_self.mpr silent, operationsIn]

-- Where two runs show the same but for what is not heard and show the same up to some point, they show the same onward from
-- there as far as everything is heard.
theorem shown_onward (a b heardA heardB : Outcome) (next other : Machine → Outcome) (sameA : a.2 = heardA.2)
    (sameB : b.2 = heardB.2) (shown : b.1 = a.1) (alike : Alike (fun _ _ => True) heardA heardB)
    (onward : Alike (fun _ _ => True) (heardA.andThen next) (heardB.andThen other)) :
    (b.andThen other).1 = (a.andThen next).1 := by
  obtain ⟨shownA, afterA⟩ := a
  obtain ⟨shownB, afterB⟩ := b
  cases alike with
  | ended quiet =>
    obtain rfl : afterA = none := sameA
    obtain rfl : afterB = none := sameB
    exact shown
  | on quiet first second _ =>
    obtain rfl : afterA = some first := sameA
    obtain rfl : afterB = some second := sameB
    have rest : (next first).1 = (other second).1 := List.append_cancel_left (alike_shown _ _ _ onward)
    exact congrArg₂ (· ++ ·) shown rest.symm

section Overtaken

variable (accepted : body.check = .ok ()) (otherAccepted : other.check = .ok ()) (keeps : body.KeepsStructure other)
  (hears : body.HearsAs other overtaken around)

include accepted otherAccepted keeps

theorem heard_silently (block : Block) (reached : body.Reaches body.entry block)
    (absent : ∀ last ∈ overtaken, last ∉ body.layout block) :
    body.heardIn overtaken block = body.operationsIn block ∧ other.heardIn overtaken block = other.operationsIn block := by
  have laid := (well_formed_of_check body accepted).laid
  have otherLaid := (well_formed_of_check other otherAccepted).laid
  refine ⟨body.heard_in_silent overtaken block fun (inst, operation) listed => ?_,
    other.heard_in_silent overtaken block fun (inst, operation) listed => ?_⟩
  · rw [code_laid body _ laid, mem_code_of_iff] at listed
    have unlisted : overtaken.contains inst = false := by simpa using fun member => absent inst member listed.1
    rw [isHeard, unlisted, Bool.and_false, Bool.not_false]
  · rw [code_laid other _ otherLaid, mem_code_of_iff] at listed
    obtain ⟨member, found⟩ := listed
    cases terminates : operation.isTerminator with
    | false => rw [isHeard, terminates, Bool.false_and, Bool.not_false]
    | true =>
      have fixed : other.isFixedAt inst = true := by
        rw [isFixedAt, found]
        cases operation <;> first | rfl | cases terminates
      have stays : inst ∈ (other.layout block).filter other.isFixedAt := List.mem_filter.mpr ⟨member, fixed⟩
      rw [keeps.fixed block reached] at stays
      have unlisted : overtaken.contains inst = false := by
        simpa using fun member => absent inst member (List.mem_filter.mp stays).1
      rw [isHeard, unlisted, Bool.and_false, Bool.not_false]

include hears

theorem traces_of_overtaken (same : ∀ env path block, Path body body.entry path block →
      (∃ last ∈ overtaken, last ∈ body.layout block) → other.trace around env path = body.trace around env path) :
    body.TracesAs other around := by
  intro env path target leads
  induction path using List.reverseRecOn generalizing target with
  | nil => cases leads
  | append_singleton front last ih =>
    by_cases holds : ∃ last ∈ overtaken, last ∈ body.layout target
    · exact same env _ target leads holds
    · obtain ⟨upTo, ends⟩ := leads.cut body.entry last target front []
      obtain rfl : last = target := by
        cases ends with
        | here => rfl
        | step _ _ _ _ _ onward => cases onward
      have absent (inst : Inst) (listed : inst ∈ overtaken) : inst ∉ body.layout last := fun member => holds ⟨inst, listed, member⟩
      obtain ⟨here, there⟩ := body.heard_silently other overtaken accepted otherAccepted keeps last ⟨_, leads⟩ absent
      have before : other.trace around env front = body.trace around env front ∧ Alike (fun _ _ => True)
          (Machine.run around ⟨env, 0⟩ (front.flatMap (body.heardIn overtaken)))
          (Machine.run around ⟨env, 0⟩ (front.flatMap (other.heardIn overtaken))) := by
        rcases List.eq_nil_or_concat front with none | ⟨early, pred, whole⟩
        · subst none
          exact ⟨rfl, .on [] _ _ trivial⟩
        · rw [List.concat_eq_append] at whole
          subst whole
          rw [List.append_assoc] at leads
          have earlier := (leads.cut body.entry pred last early [last]).1
          exact ⟨ih pred earlier, hears env _ pred earlier⟩
      have split (any : Body) : any.operationsAlong (front ++ [last]) = any.operationsAlong front ++ any.operationsIn last := by
        rw [operationsAlong, List.flatMap_append, List.flatMap_singleton]
        rfl
      have onward := hears env _ last leads
      rw [List.flatMap_append, List.flatMap_append, List.flatMap_singleton, List.flatMap_singleton, here, there,
        Machine.run_front_back, Machine.run_front_back] at onward
      rw [trace, trace, split, split, Machine.run_front_back, Machine.run_front_back]
      exact shown_onward _ _ _ _ _ _ (body.run_heard_along overtaken around front _).symm
        (other.run_heard_along overtaken around front _).symm before.1 before.2 onward

end Overtaken

end Body

end ThreeAddress
