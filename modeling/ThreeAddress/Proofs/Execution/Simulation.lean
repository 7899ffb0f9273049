import ThreeAddress.Proofs.Body.Edits
import ThreeAddress.Proofs.Dataflow.Points

/-!
Comparing runs. Two runs are alike when they show the same and end together or go on from related machines;
block by block this carries over to every path from the entry.
-/

set_option autoImplicit false

namespace ThreeAddress

abbrev Outcome := List Event × Option Machine

def Outcome.andThen (outcome : Outcome) (next : Machine → Outcome) : Outcome :=
  match outcome with
  | (shown, none) => (shown, none)
  | (shown, some after) => (shown ++ (next after).1, (next after).2)

theorem and_then_nothing (outcome : Outcome) : outcome.andThen (fun machine => ([], some machine)) = outcome := by
  obtain ⟨shown, after⟩ := outcome
  cases after with
  | none => rfl
  | some after => simp only [Outcome.andThen, List.append_nil]

inductive Alike (related : Machine → Machine → Prop) : Outcome → Outcome → Prop
  | ended (shown : List Event) : Alike related (shown, none) (shown, none)
  | on (shown : List Event) (first second : Machine) (here : related first second) :
      Alike related (shown, some first) (shown, some second)

section Alike

variable (related further : Machine → Machine → Prop)

theorem alike_shown (first second : Outcome) (alike : Alike related first second) : first.1 = second.1 := by
  cases alike <;> rfl

theorem alike_mono (first second : Outcome) (alike : Alike related first second)
    (weaker : ∀ a b, related a b → further a b) : Alike further first second := by
  cases alike with
  | ended shown => exact .ended shown
  | on shown a b here => exact .on shown a b (weaker a b here)

theorem alike_and_then (first second : Outcome) (alike : Alike related first second) (next other : Machine → Outcome)
    (goesOn : ∀ a b, related a b → Alike further (next a) (other b)) :
    Alike further (first.andThen next) (second.andThen other) := by
  cases alike with
  | ended shown => exact .ended shown
  | on shown a b here =>
    have rest := goesOn a b here
    simp only [Outcome.andThen]
    cases ranNext : next a with
    | mk shownNext afterNext =>
      cases ranOther : other b with
      | mk shownOther afterOther =>
        rw [ranNext, ranOther] at rest
        cases rest with
        | ended => exact .ended _
        | on _ a b here => exact .on _ a b here

theorem alike_ends (holds : Machine → Prop) (first second : Outcome) (alike : Alike related first second)
    (ends : ∀ after, second.2 = some after → holds after) : Alike (fun a b => related a b ∧ holds b) first second := by
  cases alike with
  | ended shown => exact .ended shown
  | on shown a b here => exact .on shown a b ⟨here, ends b rfl⟩

end Alike

namespace Machine

variable (around : Surroundings)

theorem run_cons (machine : Machine) (operation : Operation) (rest : List Operation) :
    machine.run around (operation :: rest) = Outcome.andThen (machine.step around operation) (run around · rest) := by
  rw [run]
  split <;> rename_i found <;> rw [found] <;> rfl

theorem run_one (machine : Machine) (operation : Operation) : machine.run around [operation] = machine.step around operation := by
  rw [run_cons]
  exact and_then_nothing _

theorem run_front_back (machine : Machine) (front back : List Operation) :
    machine.run around (front ++ back) = Outcome.andThen (machine.run around front) (run around · back) := by
  rw [run_append]
  split <;> rename_i found <;> rw [found] <;> rfl

theorem run_append_some (machine last : Machine) (front back : List Operation)
    (ran : (machine.run around (front ++ back)).2 = some last) :
    ∃ middle, (machine.run around front).2 = some middle ∧ (middle.run around back).2 = some last := by
  rw [run_front_back] at ran
  cases first : machine.run around front with
  | mk shown after =>
    rw [first] at ran
    cases after with
    | none => cases ran
    | some after => exact ⟨after, rfl, ran⟩

theorem run_cons_some (machine last : Machine) (operation : Operation) (rest : List Operation)
    (ran : (machine.run around (operation :: rest)).2 = some last) :
    ∃ after, (machine.step around operation).2 = some after ∧ (after.run around rest).2 = some last := by
  rw [run_cons] at ran
  cases stepped : machine.step around operation with
  | mk shown after =>
    rw [stepped] at ran
    cases after with
    | none => cases ran
    | some after => exact ⟨after, rfl, ran⟩

end Machine

namespace Body

variable (body other : Body) (around : Surroundings)

def operationsIn (body : Body) (block : Block) : List Operation := (body.code block).map Prod.snd

-- What follows a block on a path starts at one of its successors, from machines that are still related.
theorem path_alike (before now : Block → List Operation) (related : Block → Machine → Machine → Prop)
    (simulates : ∀ block, body.Reaches body.entry block → ∀ a b, related block a b →
      Alike (fun a b => ∀ succ ∈ body.succs block, related succ a b) (a.run around (before block)) (b.run around (now block)))
    (source target : Block) (path : List Block) (leads : Path body source path target)
    (reached : body.Reaches body.entry source) (a b : Machine) (start : related source a b) :
    Alike (fun _ _ => True) (a.run around (path.flatMap before)) (b.run around (path.flatMap now)) := by
  induction leads generalizing a b with
  | here block =>
    rw [List.flatMap_cons, List.flatMap_cons, Machine.run_front_back, Machine.run_front_back]
    exact alike_and_then _ _ _ _ (simulates block reached a b start) _ _ fun a b _ => .on [] a b trivial
  | step source succ target path edge rest ih =>
    rw [List.flatMap_cons, List.flatMap_cons, Machine.run_front_back, Machine.run_front_back]
    have reachedSucc := body.reaches_succ source succ reached edge
    exact alike_and_then _ _ _ _ (simulates source reached a b start) _ _ fun a b here => ih reachedSucc a b (here succ edge)

def TracesAs (body other : Body) (around : Surroundings) : Prop :=
  ∀ env path target, Path body body.entry path target → other.trace around env path = body.trace around env path

theorem traces_of_simulation (related : Block → Machine → Machine → Prop)
    (simulates : ∀ block, body.Reaches body.entry block → ∀ a b, related block a b →
      Alike (fun a b => ∀ succ ∈ body.succs block, related succ a b) (a.run around (body.operationsIn block))
        (b.run around (other.operationsIn block)))
    (start : ∀ machine, related body.entry machine machine) : TracesAs body other around := by
  intro env path target leads
  have alike := path_alike body around body.operationsIn other.operationsIn related simulates body.entry target path leads (reaches_self body body.entry)
    ⟨env, 0⟩ ⟨env, 0⟩ (start ⟨env, 0⟩)
  exact (alike_shown _ _ _ alike).symm

def RunsAs (body other : Body) (around : Surroundings) : Prop :=
  ∀ env path target, Path body body.entry path target →
    Machine.run around ⟨env, 0⟩ (other.operationsAlong path) = Machine.run around ⟨env, 0⟩ (body.operationsAlong path)

theorem traces_of_runs (runs : RunsAs body other around) : TracesAs body other around :=
  fun env path target leads => congrArg Prod.fst (runs env path target leads)

def machineAt (body : Body) (around : Surroundings) (env : Var → Int64) (path : List Block) (front : List (Inst × Operation)) :
    Option Machine :=
  (Machine.run around ⟨env, 0⟩ (body.operationsTo path front)).2

section Arrivals

variable (same : ∀ env path block machine, Path body body.entry path block → body.machineAt around env path [] = some machine →
  machine.run around (other.operationsIn block) = machine.run around (body.operationsIn block))

include same

theorem block_runs (env : Var → Int64) (before : List Block) (block : Block) (leads : Path body body.entry (before ++ [block]) block)
    (equal : Machine.run around ⟨env, 0⟩ (other.operationsAlong before) = Machine.run around ⟨env, 0⟩ (body.operationsAlong before)) :
    Machine.run around ⟨env, 0⟩ (other.operationsAlong (before ++ [block])) =
      Machine.run around ⟨env, 0⟩ (body.operationsAlong (before ++ [block])) := by
  have split (any : Body) : any.operationsAlong (before ++ [block]) = any.operationsAlong before ++ any.operationsIn block := by
    rw [operationsAlong, List.flatMap_append, List.flatMap_singleton]
    rfl
  rw [split, split, Machine.run_front_back, Machine.run_front_back, equal]
  cases first : Machine.run around ⟨env, 0⟩ (body.operationsAlong before) with
  | mk shown after =>
    cases after with
    | none => rfl
    | some machine =>
      have arrives : body.machineAt around env (before ++ [block]) [] = some machine := by
        rw [machineAt, operationsTo, List.dropLast_concat, List.map_nil, List.append_nil, first]
      simp only [Outcome.andThen]
      rw [same env (before ++ [block]) block machine leads arrives]

theorem runs_of_arrivals : RunsAs body other around := by
  have onward (env : Var → Int64) (source target : Block) (path : List Block) (rest : Path body source path target)
      (before : List Block) (leads : Path body body.entry (before ++ [source]) source)
      (equal : Machine.run around ⟨env, 0⟩ (other.operationsAlong before) = Machine.run around ⟨env, 0⟩ (body.operationsAlong before)) :
      Machine.run around ⟨env, 0⟩ (other.operationsAlong (before ++ path)) =
        Machine.run around ⟨env, 0⟩ (body.operationsAlong (before ++ path)) := by
    induction rest generalizing before with
    | here block => exact block_runs body other around same env before block leads equal
    | step source succ target path edge _ ih =>
      have further := Path.append _ _ _ _ _ leads (.step source succ succ [succ] edge (.here succ))
      rw [List.append_cons]
      exact ih (before ++ [source]) further (block_runs body other around same env before source leads equal)
  exact fun env path target leads => onward env body.entry target path leads [] (.here body.entry) rfl

end Arrivals

theorem traces_past (body middle other : Body) (around : Surroundings) (frame : body.SameFrame middle)
    (first : body.TracesAs middle around) : body.TracesAs other around ↔ middle.TracesAs other around := by
  constructor
  · intro whole env path target leads
    have here := frame_path middle body (frame_symm body middle frame) middle.entry target path leads
    rw [frame.entry] at here
    exact (whole env path target here).trans (first env path target here).symm
  · intro second env path target leads
    have same := second env path target (frame.entry.symm ▸ frame_path body middle frame body.entry target path leads)
    exact same.trans (first env path target leads)

theorem traces_before (body middle other : Body) (around : Surroundings) (frame : body.SameFrame middle)
    (whole : body.TracesAs other around) (second : middle.TracesAs other around) : body.TracesAs middle around := by
  intro env path target leads
  have same := second env path target (frame.entry.symm ▸ frame_path body middle frame body.entry target path leads)
  exact same.symm.trans (whole env path target leads)

end Body

end ThreeAddress
