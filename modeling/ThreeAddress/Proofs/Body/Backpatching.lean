import Mathlib.Data.Fintype.Defs
import ThreeAddress.Proofs.Body.Operations

/-!
Jumps that wait for their label. A code generator makes jumps without a target, keeps them on lists, joins the lists and
resolves them, and places and moves instructions all along. What becomes of a jump is read off the steps alone; the body
and its lists agree with that at every point.
-/

set_option autoImplicit false

namespace ThreeAddress

variable {ι : Type}

-- A body that is being made, and the jumps that wait, by the name of their list; a list that is not there is empty.
structure Draft (ι : Type) where
  body : Body
  lists : ι → PatchList

-- The first name is the list that is changed; one that is joined to it is used up, and so is one that is resolved.
inductive DraftStep (ι : Type) where
  | create (inst : Inst) (operation : Operation)
  | arrange (edit : Body.Edit)
  | single (name : ι) (jump : Inst)
  | push (name : ι) (jump : Inst)
  | merge (name other : ι)
  | resolve (name : ι) (label : Inst)

-- What has become of an instruction. One that is not made as a jump without a target stays plain.
inductive Fate (ι : Type) where
  | plain
  | loose
  | pending (name : ι)
  | resolved (label : Inst)
deriving DecidableEq

namespace Fate

def isPending : Fate ι → Bool
  | pending _ => true
  | plain | loose | resolved _ => false

def waits : Fate ι → Bool
  | loose | pending _ => true
  | plain | resolved _ => false

def patch (made : Option Operation) : Fate ι → Option Operation
  | resolved label => made.bind (Operation.retarget? label)
  | plain | loose | pending _ => made

end Fate

namespace Draft

def begin (body : Body) : Draft ι := ⟨body, fun _ => .empty⟩

def IsLoose (draft : Draft ι) (jump : Inst) : Prop :=
  (draft.body.operation? jump).bind Operation.jumpTarget? = some .invalid ∧ ∀ name, jump ∉ (draft.lists name).jumps

instance [Fintype ι] (draft : Draft ι) (jump : Inst) : Decidable (draft.IsLoose jump) :=
  inferInstanceAs (Decidable ((draft.body.operation? jump).bind Operation.jumpTarget? = some .invalid ∧
    ∀ name, jump ∉ (draft.lists name).jumps))

def put [DecidableEq ι] (draft : Draft ι) (name : ι) (list : PatchList) : Draft ι :=
  { draft with lists := Function.update draft.lists name list }

theorem put_lists [DecidableEq ι] (draft : Draft ι) (name other : ι) (list : PatchList) :
    (draft.put name list).lists other = if other = name then list else draft.lists other :=
  Function.update_apply _ _ _ _

theorem put_once [DecidableEq ι] (draft : Draft ι) (name : ι) (list : PatchList) (once : ∀ other, (draft.lists other).jumps.Nodup)
    (fresh : list.jumps.Nodup) (other : ι) : ((draft.put name list).lists other).jumps.Nodup := by
  rw [put_lists]
  by_cases here : other = name
  · rw [if_pos here]
    exact fresh
  · rw [if_neg here]
    exact once other

end Draft

namespace DraftStep

section Meaning

variable [DecidableEq ι]

def apply (draft : Draft ι) : DraftStep ι → Except Fault (Draft ι × Option Nat)
  | create _ operation => do
      let (_, body) ← draft.body.addInst operation
      return ({ draft with body := body }, none)
  | arrange edit => do
      let body ← edit.apply draft.body
      return ({ draft with body := body }, none)
  | single name jump => return (draft.put name (.single jump), none)
  | push name jump => return (draft.put name ((draft.lists name).push jump), none)
  | merge name other => return ((draft.put other .empty).put name ((draft.lists name).merge (draft.lists other)), none)
  | resolve name label => do
      let (body, count) ← draft.body.resolve (draft.lists name) label
      return (Draft.put { draft with body := body } name .empty, some count)

-- An instruction is made under the reference that comes next, a jump goes on one list only, a list is not joined to
-- itself, and what lists are resolved against is a label.
def Allowed (draft : Draft ι) : DraftStep ι → Prop
  | create inst _ => inst = .nth draft.body.cells.size
  | arrange edit => edit.Arranges ∧ edit.Allowed draft.body
  | single name jump => draft.lists name = .empty ∧ draft.IsLoose jump
  | push _ jump => draft.IsLoose jump
  | merge name other => name ≠ other
  | resolve _ label => draft.body.operation? label = some .label

def run (draft : Draft ι) : List (DraftStep ι) → Except Fault (Draft ι)
  | [] => .ok draft
  | step :: rest => do
      let (next, _) ← step.apply draft
      run next rest

def AllAllowed (draft : Draft ι) : List (DraftStep ι) → Prop
  | [] => True
  | step :: rest => step.Allowed draft ∧
      match step.apply draft with
      | .ok (next, _) => AllAllowed next rest
      | .error _ => True

instance decidableAllowed [Fintype ι] (draft : Draft ι) (step : DraftStep ι) : Decidable (step.Allowed draft) :=
  match step with
  | create inst _ => inferInstanceAs (Decidable (inst = .nth draft.body.cells.size))
  | arrange edit => inferInstanceAs (Decidable (edit.Arranges ∧ edit.Allowed draft.body))
  | single name jump => inferInstanceAs (Decidable (draft.lists name = .empty ∧ draft.IsLoose jump))
  | push _ jump => inferInstanceAs (Decidable (draft.IsLoose jump))
  | merge name other => inferInstanceAs (Decidable (name ≠ other))
  | resolve _ label => inferInstanceAs (Decidable (draft.body.operation? label = some .label))

instance decidableAllAllowed [Fintype ι] :
    (draft : Draft ι) → (steps : List (DraftStep ι)) → Decidable (AllAllowed draft steps)
  | _, [] => inferInstanceAs (Decidable True)
  | draft, step :: rest =>
      have : Decidable (match step.apply draft with
          | .ok (next, _) => AllAllowed next rest
          | .error _ => True) :=
        match step.apply draft with
        | .ok (next, _) => decidableAllAllowed next rest
        | .error _ => inferInstanceAs (Decidable True)
      inferInstanceAs (Decidable (step.Allowed draft ∧ match step.apply draft with
        | .ok (next, _) => AllAllowed next rest
        | .error _ => True))

def follow (inst : Inst) (fate : Fate ι) : DraftStep ι → Fate ι
  | create made operation => if made = inst ∧ operation.jumpTarget? = some .invalid then .loose else fate
  | arrange _ => fate
  | single name jump | push name jump => if jump = inst then .pending name else fate
  | merge name other => if fate = .pending other then .pending name else fate
  | resolve name label => if fate = .pending name then .resolved label else fate

def fate (steps : List (DraftStep ι)) (inst : Inst) : Fate ι := steps.foldl (follow inst) .plain

end Meaning

def make (inst : Inst) (known : Option Operation) : DraftStep ι → Option Operation
  | create made operation => if made = inst then some operation else known
  | arrange _ | single _ _ | push _ _ | merge _ _ | resolve _ _ => known

def made (body : Body) (steps : List (DraftStep ι)) (inst : Inst) : Option Operation :=
  steps.foldl (make inst) (body.operation? inst)

end DraftStep

section Tracking

variable [DecidableEq ι] (start : Body)

-- The lists hold the jumps whose fate is to wait there, and each instruction is as it was made but for its fate.
structure Draft.Tracks (steps : List (DraftStep ι)) (draft : Draft ι) : Prop where
  linked : draft.body.WellLinked
  lists : ∀ name inst, inst ∈ (draft.lists name).jumps ↔ DraftStep.fate steps inst = .pending name
  once : ∀ name, (draft.lists name).jumps.Nodup
  operations : ∀ inst, draft.body.operation? inst = (DraftStep.fate steps inst).patch (DraftStep.made start steps inst)
  jumps : ∀ inst, DraftStep.fate steps inst ≠ .plain ↔
    (DraftStep.made start steps inst).bind Operation.jumpTarget? = some .invalid
  labels : ∀ inst label, DraftStep.fate steps inst = .resolved label → draft.body.operation? label = some .label

theorem fate_later (steps : List (DraftStep ι)) (step : DraftStep ι) (inst : Inst) :
    DraftStep.fate (steps ++ [step]) inst = step.follow inst (DraftStep.fate steps inst) :=
  List.foldl_concat _ _ _ _

omit [DecidableEq ι] in
theorem made_later (steps : List (DraftStep ι)) (step : DraftStep ι) (inst : Inst) :
    DraftStep.made start (steps ++ [step]) inst = step.make inst (DraftStep.made start steps inst) :=
  List.foldl_concat _ _ _ _

section Tracked

variable (steps : List (DraftStep ι)) (draft : Draft ι) (tracks : Draft.Tracks start steps draft)

include tracks

theorem waits_iff (inst : Inst) : (draft.body.operation? inst).bind Operation.jumpTarget? = some .invalid ↔
    (DraftStep.fate steps inst).waits = true := by
  have madeOpen := tracks.jumps inst
  rw [tracks.operations]
  cases fate : DraftStep.fate steps inst with
  | plain =>
    rw [fate] at madeOpen
    exact ⟨fun opened => (madeOpen.mpr opened rfl).elim, fun waits => nomatch waits⟩
  | loose | pending name =>
    rw [fate] at madeOpen
    exact ⟨fun _ => rfl, fun _ => madeOpen.mp nofun⟩
  | resolved label =>
    refine ⟨fun opened => ?_, fun waits => nomatch waits⟩
    obtain ⟨patched, retargeted, target⟩ := Option.bind_eq_some_iff.mp opened
    obtain ⟨operation, _, retargets⟩ := Option.bind_eq_some_iff.mp retargeted
    have goes := Operation.jump_target_retarget label operation patched retargets
    have isLabel := tracks.labels inst label fate
    cases goes.symm.trans target
    cases isLabel

theorem loose_iff (inst : Inst) : draft.IsLoose inst ↔ DraftStep.fate steps inst = .loose := by
  rw [Draft.IsLoose, waits_iff start steps draft tracks]
  simp only [tracks.lists]
  cases DraftStep.fate steps inst <;> simp [Fate.waits]

theorem resolved_target (inst label : Inst) (fate : DraftStep.fate steps inst = .resolved label) :
    (draft.body.operation? inst).bind Operation.jumpTarget? = some label := by
  obtain ⟨operation, made, target⟩ := Option.bind_eq_some_iff.mp ((tracks.jumps inst).mp (by rw [fate]; nofun))
  have jumps : (operation.retarget? label).isSome = true := by
    rw [Operation.retarget_is_some_iff, target]
    rfl
  obtain ⟨patched, retargets⟩ := Option.isSome_iff_exists.mp jumps
  have now : draft.body.operation? inst = some patched := by
    rw [tracks.operations, fate, made]
    exact retargets
  rw [now]
  exact Operation.jump_target_retarget label operation patched retargets

theorem known_of_fate (inst : Inst) (fated : DraftStep.fate steps inst ≠ .plain) :
    ∃ operation, draft.body.operation? inst = some operation := by
  obtain ⟨target, jumps⟩ : ∃ target, (draft.body.operation? inst).bind Operation.jumpTarget? = some target := by
    cases fate : DraftStep.fate steps inst with
    | plain => exact (fated fate).elim
    | loose | pending name => exact ⟨.invalid, (waits_iff start steps draft tracks inst).mpr (by rw [fate]; rfl)⟩
    | resolved label => exact ⟨label, resolved_target start steps draft tracks inst label fate⟩
  obtain ⟨operation, known, _⟩ := Option.bind_eq_some_iff.mp jumps
  exact ⟨operation, known⟩

theorem relisted_tracks (step : DraftStep ι) (next : Draft ι) (body : next.body = draft.body)
    (makes : ∀ inst known, step.make inst known = known)
    (waits : ∀ inst, step.follow inst (DraftStep.fate steps inst) = DraftStep.fate steps inst ∨
      ((DraftStep.fate steps inst).waits = true ∧ (step.follow inst (DraftStep.fate steps inst)).waits = true))
    (lists : ∀ name inst, inst ∈ (next.lists name).jumps ↔ step.follow inst (DraftStep.fate steps inst) = .pending name)
    (once : ∀ name, (next.lists name).jumps.Nodup) : next.Tracks start (steps ++ [step]) := by
  have patch (fate : Fate ι) (known : Option Operation) (waits : fate.waits = true) : fate.patch known = known := by
    cases fate <;> first | rfl | cases waits
  refine ⟨body ▸ tracks.linked, fun name inst => ?_, once, fun inst => ?_, fun inst => ?_, fun inst label => ?_⟩
  · rw [fate_later]
    exact lists name inst
  · rw [fate_later, made_later, makes, body, tracks.operations]
    rcases waits inst with same | ⟨before, after⟩
    · rw [same]
    · rw [patch _ _ before, patch _ _ after]
  · rw [fate_later, made_later, makes, ← tracks.jumps]
    rcases waits inst with same | ⟨before, after⟩
    · rw [same]
    · refine ⟨fun _ plain => ?_, fun _ plain => ?_⟩
      · rw [plain] at before
        cases before
      · rw [plain] at after
        cases after
  · rw [fate_later, body]
    intro resolved
    rcases waits inst with same | ⟨_, after⟩
    · exact tracks.labels inst label (same ▸ resolved)
    · rw [resolved] at after
      cases after

theorem push_tracks (name : ι) (jump : Inst) (loose : draft.IsLoose jump) (step : DraftStep ι)
    (makes : ∀ inst known, step.make inst known = known)
    (follows : ∀ inst fate, step.follow inst fate = if jump = inst then .pending name else fate) :
    (draft.put name ((draft.lists name).push jump)).Tracks start (steps ++ [step]) := by
  have fate := (loose_iff start steps draft tracks jump).mp loose
  refine relisted_tracks start steps draft tracks step _ rfl makes (fun inst => ?_) (fun list inst => ?_)
    (draft.put_once name _ tracks.once ?_)
  · rw [follows]
    by_cases same : jump = inst
    · rw [if_pos same, ← same, fate]
      exact .inr ⟨rfl, rfl⟩
    · exact .inl (if_neg same)
  · rw [follows, Draft.put_lists]
    by_cases here : list = name
    · rw [if_pos here, here, PatchList.push, List.mem_append, List.mem_singleton, tracks.lists]
      by_cases same : jump = inst
      · rw [if_pos same]
        exact iff_of_true (.inr same.symm) rfl
      · rw [if_neg same]
        exact or_iff_left fun other => same other.symm
    · rw [if_neg here, tracks.lists]
      by_cases same : jump = inst
      · rw [if_pos same, ← same, fate]
        exact iff_of_false nofun fun other => here (Fate.pending.inj other).symm
      · rw [if_neg same]
  · rw [PatchList.push, ← List.concat_eq_append]
    exact (tracks.once name).concat (loose.2 name)

theorem merge_lists (name other list : ι) (inst : Inst) :
    inst ∈ (((draft.put other .empty).put name ((draft.lists name).merge (draft.lists other))).lists list).jumps ↔
      (DraftStep.merge name other).follow inst (DraftStep.fate steps inst) = .pending list := by
  rw [DraftStep.follow, Draft.put_lists, Draft.put_lists]
  by_cases joined : DraftStep.fate steps inst = .pending other
  · rw [if_pos joined]
    by_cases here : list = name
    · rw [if_pos here, here, PatchList.merge, List.mem_append, tracks.lists name, tracks.lists other]
      exact iff_of_true (.inr joined) rfl
    · have there : Fate.pending name ≠ .pending list := fun same => here (Fate.pending.inj same).symm
      rw [if_neg here]
      by_cases used : list = other
      · rw [if_pos used]
        exact iff_of_false List.not_mem_nil there
      · rw [if_neg used, tracks.lists, joined]
        exact iff_of_false (fun same => used (Fate.pending.inj same).symm) there
  · rw [if_neg joined]
    by_cases here : list = name
    · rw [if_pos here, here, PatchList.merge, List.mem_append, tracks.lists name, tracks.lists other]
      exact or_iff_left joined
    · rw [if_neg here]
      by_cases used : list = other
      · rw [if_pos used, used]
        exact iff_of_false List.not_mem_nil joined
      · rw [if_neg used, tracks.lists]

theorem merge_tracks (name other : ι) (two : name ≠ other) :
    ((draft.put other .empty).put name ((draft.lists name).merge (draft.lists other))).Tracks start
      (steps ++ [.merge name other]) := by
  refine relisted_tracks start steps draft tracks _ _ rfl (fun _ _ => rfl) (fun inst => ?_)
    (merge_lists start steps draft tracks name other)
    (Draft.put_once _ name _ (draft.put_once other .empty tracks.once List.nodup_nil) ?_)
  · rw [DraftStep.follow]
    by_cases joined : DraftStep.fate steps inst = .pending other
    · rw [if_pos joined, joined]
      exact .inr ⟨rfl, rfl⟩
    · exact .inl (if_neg joined)
  · refine List.nodup_append.mpr ⟨tracks.once name, tracks.once other, fun inst left same right equal => ?_⟩
    rw [← equal, tracks.lists] at right
    rw [tracks.lists] at left
    exact two (Fate.pending.inj (left.symm.trans right))

theorem arrange_tracks (edit : Body.Edit) (arranges : edit.Arranges) (allowed : edit.Allowed draft.body) (body : Body)
    (linked : body.WellLinked) (done : edit.apply draft.body = .ok body) :
    Draft.Tracks start (steps ++ [.arrange edit]) { draft with body := body } := by
  have same := Body.arranged_operations draft.body body tracks.linked edit arranges allowed done
  refine ⟨linked, fun name inst => ?_, tracks.once, fun inst => ?_, fun inst => ?_, fun inst label => ?_⟩
  · rw [fate_later]
    exact tracks.lists name inst
  · rw [fate_later, made_later, same]
    exact tracks.operations inst
  · rw [fate_later, made_later]
    exact tracks.jumps inst
  · rw [fate_later, same]
    exact tracks.labels inst label

theorem plain_of_unused (inst : Inst) (unused : draft.body.operation? inst = none) : DraftStep.fate steps inst = .plain := by
  by_contra fated
  obtain ⟨old, known⟩ := known_of_fate start steps draft tracks inst fated
  cases unused.symm.trans known

omit tracks in
theorem create_elsewhere (inst other : Inst) (operation : Operation) (apart : other ≠ inst) :
    DraftStep.fate (steps ++ [.create inst operation]) other = DraftStep.fate steps other ∧
      DraftStep.made start (steps ++ [.create inst operation]) other = DraftStep.made start steps other := by
  rw [fate_later, made_later]
  exact ⟨if_neg fun both => apart both.1.symm, if_neg apart.symm⟩

theorem create_here (inst : Inst) (operation : Operation) (unused : draft.body.operation? inst = none) :
    DraftStep.fate (steps ++ [.create inst operation]) inst =
        (if operation.jumpTarget? = some .invalid then .loose else .plain) ∧
      DraftStep.made start (steps ++ [.create inst operation]) inst = some operation := by
  rw [fate_later, made_later, plain_of_unused start steps draft tracks inst unused]
  simp only [DraftStep.follow, DraftStep.make, true_and, if_true, and_self]

theorem create_tracks (inst : Inst) (operation : Operation) (body : Body) (linked : body.WellLinked)
    (unused : draft.body.operation? inst = none)
    (reads : ∀ other, body.operation? other = if other = inst then some operation else draft.body.operation? other) :
    Draft.Tracks start (steps ++ [.create inst operation]) { draft with body := body } := by
  obtain ⟨fate, made⟩ := create_here start steps draft tracks inst operation unused
  have elsewhere (other : Inst) (apart : other ≠ inst) := create_elsewhere start steps inst other operation apart
  refine ⟨linked, fun name other => ?_, tracks.once, fun other => ?_, fun other => ?_, fun other label resolved => ?_⟩
  · rw [tracks.lists]
    by_cases new : other = inst
    · rw [new, plain_of_unused start steps draft tracks inst unused, fate]
      refine iff_of_false nofun ?_
      split <;> nofun
    · rw [(elsewhere other new).1]
  · rw [reads]
    by_cases new : other = inst
    · rw [if_pos new, new, made, fate]
      split <;> rfl
    · rw [if_neg new, (elsewhere other new).1, (elsewhere other new).2, tracks.operations]
  · by_cases new : other = inst
    · rw [new, made, fate, Option.bind_some]
      split <;> simp_all
    · rw [(elsewhere other new).1, (elsewhere other new).2]
      exact tracks.jumps other
  · have old : other ≠ inst := by
      rintro rfl
      rw [fate] at resolved
      split at resolved <;> cases resolved
    rw [(elsewhere other old).1] at resolved
    have isLabel := tracks.labels other label resolved
    rw [reads, if_neg, isLabel]
    rintro rfl
    cases unused.symm.trans isLabel

theorem resolve_fate (name : ι) (label inst : Inst) : DraftStep.fate (steps ++ [.resolve name label]) inst =
    if inst ∈ (draft.lists name).jumps then .resolved label else DraftStep.fate steps inst := by
  rw [fate_later]
  exact if_congr (tracks.lists name inst).symm rfl rfl

theorem resolve_lists (name list : ι) (label inst : Inst) (body : Body) :
    inst ∈ ((Draft.put { draft with body := body } name .empty).lists list).jumps ↔
      DraftStep.fate (steps ++ [.resolve name label]) inst = .pending list := by
  rw [Draft.put_lists, resolve_fate start steps draft tracks]
  by_cases listed : inst ∈ (draft.lists name).jumps
  · rw [if_pos listed]
    by_cases here : list = name
    · rw [if_pos here]
      exact iff_of_false List.not_mem_nil nofun
    · rw [if_neg here, tracks.lists, (tracks.lists name inst).mp listed]
      exact iff_of_false (fun same => here (Fate.pending.inj same).symm) nofun
  · rw [if_neg listed]
    by_cases here : list = name
    · rw [if_pos here, here, ← tracks.lists]
      exact iff_of_false List.not_mem_nil listed
    · rw [if_neg here, tracks.lists]

theorem listed_retargets (name : ι) (label jump : Inst) (listed : jump ∈ (draft.lists name).jumps) :
    ((draft.body.operation? jump).bind (Operation.retarget? label)).isSome = true := by
  have fate := (tracks.lists name jump).mp listed
  have opened := (waits_iff start steps draft tracks jump).mpr (by rw [fate]; rfl)
  obtain ⟨operation, known, target⟩ := Option.bind_eq_some_iff.mp opened
  rw [known, Option.bind_some, Operation.retarget_is_some_iff, target]
  rfl

theorem label_unlisted (name : ι) (label : Inst) (isLabel : draft.body.operation? label = some .label) :
    label ∉ (draft.lists name).jumps := by
  intro listed
  have retargets := listed_retargets start steps draft tracks name label label listed
  rw [isLabel] at retargets
  cases retargets

theorem resolve_tracks (name : ι) (label : Inst) (isLabel : draft.body.operation? label = some .label) (body : Body)
    (linked : body.WellLinked) (reads : ∀ inst, body.operation? inst = if inst ∈ (draft.lists name).jumps
      then (draft.body.operation? inst).bind (Operation.retarget? label) else draft.body.operation? inst) :
    (Draft.put { draft with body := body } name .empty).Tracks start (steps ++ [.resolve name label]) := by
  have fate := resolve_fate start steps draft tracks name label
  have made (inst : Inst) :
      DraftStep.made start (steps ++ [.resolve name label]) inst = DraftStep.made start steps inst :=
    made_later start steps _ inst
  have labelStays (other : Inst) (known : draft.body.operation? other = some .label) :
      body.operation? other = some .label := by
    rw [reads, if_neg (label_unlisted start steps draft tracks name other known), known]
  refine ⟨linked, fun list inst => resolve_lists start steps draft tracks name list label inst body,
    Draft.put_once _ name .empty tracks.once List.nodup_nil, fun inst => ?_, fun inst => ?_, fun inst other resolved => ?_⟩
  · rw [fate, made]
    refine (reads inst).trans ?_
    rw [tracks.operations]
    by_cases listed : inst ∈ (draft.lists name).jumps
    · rw [if_pos listed, if_pos listed, (tracks.lists name inst).mp listed]
      rfl
    · rw [if_neg listed, if_neg listed]
  · rw [fate, made, ← tracks.jumps]
    by_cases listed : inst ∈ (draft.lists name).jumps
    · rw [if_pos listed, (tracks.lists name inst).mp listed]
      exact iff_of_true nofun nofun
    · rw [if_neg listed]
  · rw [fate] at resolved
    refine labelStays other ?_
    by_cases listed : inst ∈ (draft.lists name).jumps
    · rw [if_pos listed] at resolved
      cases resolved
      exact isLabel
    · rw [if_neg listed] at resolved
      exact tracks.labels inst other resolved

def Draft.waiting (steps : List (DraftStep ι)) (draft : Draft ι) : DraftStep ι → Option Nat
  | .resolve name _ => some (draft.body.cells.refs.filter fun inst => DraftStep.fate steps inst = .pending name).length
  | .create _ _ | .arrange _ | .single _ _ | .push _ _ | .merge _ _ => none

theorem size_of_list (name : ι) :
    (draft.body.cells.refs.filter fun inst => DraftStep.fate steps inst = .pending name).length = (draft.lists name).size := by
  refine ((List.perm_ext_iff_of_nodup ((Arena.refs_nodup _).filter _) (tracks.once name)).mpr fun inst => ?_).length_eq
  rw [List.mem_filter, decide_eq_true_iff, tracks.lists]
  refine and_iff_right_of_imp fun pending => (Arena.mem_refs_iff _ _).mpr ?_
  obtain ⟨operation, known⟩ := known_of_fate start steps draft tracks inst (by rw [pending]; nofun)
  obtain ⟨cell, found, _⟩ := Option.map_eq_some_iff.mp known
  exact Arena.contains_of_get _ _ _ found

theorem step_tracks (step : DraftStep ι) (allowed : step.Allowed draft) :
    (∃ next, step.apply draft = .ok (next, draft.waiting steps step) ∧ next.Tracks start (steps ++ [step])) ∨
      step.apply draft = .error .indexOverflow := by
  cases step with
  | create inst operation =>
    rcases Body.add_inst_linked draft.body tracks.linked operation with full | ⟨fresh, body, added, linked⟩
    · exact .inr (by rw [DraftStep.apply, full]; rfl)
    · obtain ⟨next, unused, reads⟩ := Body.add_inst_outcome draft.body body operation fresh added
      obtain rfl : inst = fresh := Eq.trans allowed next.symm
      exact .inl ⟨_, by rw [DraftStep.apply, added]; rfl,
        create_tracks start steps draft tracks inst operation body linked unused reads⟩
  | arrange edit =>
    obtain ⟨arranges, editAllowed⟩ := allowed
    rcases Body.edit_kept draft.body tracks.linked edit editAllowed with ⟨body, done, linked⟩ | full | ⟨list, label, _, same, _⟩
    · exact .inl ⟨_, by rw [DraftStep.apply, done]; rfl,
        arrange_tracks start steps draft tracks edit arranges editAllowed body linked done⟩
    · exact .inr (by rw [DraftStep.apply, full]; rfl)
    · cases same
      exact arranges.elim
  | single name jump =>
    obtain ⟨none, loose⟩ := allowed
    refine .inl ⟨_, rfl, ?_⟩
    have next := push_tracks start steps draft tracks name jump loose (.single name jump) (fun _ _ => rfl) fun _ _ => rfl
    rw [none] at next
    exact next
  | push name jump =>
    exact .inl ⟨_, rfl, push_tracks start steps draft tracks name jump allowed _ (fun _ _ => rfl) fun _ _ => rfl⟩
  | merge name other => exact .inl ⟨_, rfl, merge_tracks start steps draft tracks name other allowed⟩
  | resolve name label =>
    obtain ⟨body, done, linked, reads⟩ := Body.resolve_outcome draft.body tracks.linked (draft.lists name) label
      (tracks.once name) allowed (listed_retargets start steps draft tracks name label)
    refine .inl ⟨_, ?_, resolve_tracks start steps draft tracks name label allowed body linked reads⟩
    rw [DraftStep.apply, done, Draft.waiting, size_of_list start steps draft tracks name]
    rfl

end Tracked

theorem begin_tracks (linked : start.WellLinked)
    (closed : ∀ inst, (start.operation? inst).bind Operation.jumpTarget? ≠ some .invalid) :
    (Draft.begin start : Draft ι).Tracks start [] where
  linked := linked
  lists := fun _ _ => iff_of_false List.not_mem_nil nofun
  once := fun _ => List.nodup_nil
  operations := fun _ => rfl
  jumps := fun inst => iff_of_false (· rfl) (closed inst)
  labels := nofun

theorem run_tracks (done steps : List (DraftStep ι)) (draft last : Draft ι) (tracks : draft.Tracks start done)
    (allowed : DraftStep.AllAllowed draft steps) (ran : DraftStep.run draft steps = .ok last) :
    last.Tracks start (done ++ steps) := by
  induction steps generalizing done draft with
  | nil =>
    cases ran
    rwa [List.append_nil]
  | cons step rest ih =>
    obtain ⟨⟨next, answer⟩, applied, later⟩ := (bind_ok_iff _ _ _).mp ran
    obtain ⟨first, others⟩ := allowed
    rw [applied] at others
    rcases step_tracks start done draft tracks step first with ⟨same, again, nextTracks⟩ | full
    · cases applied.symm.trans again
      have lastTracks := ih (done ++ [step]) next nextTracks others later
      rwa [List.append_assoc] at lastTracks
    · cases applied.symm.trans full

theorem unresolved_tracks (steps : List (DraftStep ι)) (draft : Draft ι) (tracks : draft.Tracks start steps) :
    ∃ placed, draft.body.placed = .ok placed ∧
      draft.body.unresolvedJumps = .ok (placed.filter fun inst => (DraftStep.fate steps inst).waits) := by
  have placed := Body.placed_laid draft.body draft.body.layout tracks.linked.laid
  refine ⟨_, placed, ?_⟩
  rw [Body.unresolvedJumps, placed]
  refine congrArg Except.ok (List.filter_congr fun inst _ => ?_)
  rw [Bool.eq_iff_iff, beq_iff_eq]
  exact waits_iff start steps draft tracks inst

end Tracking

namespace Body

-- At each point of a run, what is left unresolved are the placed jumps that wait, in the order in which they are placed;
-- each instruction is as it was made, but for the jumps that were resolved, which have the label that their last list
-- was resolved against; and the next step does not fail but for want of indices, and if it resolves a list answers with
-- the number of jumps that wait there.
theorem backpatching_loses_no_jump {ι : Type} [DecidableEq ι] (start : Body) (linked : start.WellLinked)
    (closed : ∀ inst, (start.operation? inst).bind Operation.jumpTarget? ≠ some .invalid) (steps : List (DraftStep ι))
    (allowed : DraftStep.AllAllowed (.begin start) steps) (draft : Draft ι)
    (ran : DraftStep.run (.begin start) steps = .ok draft) :
    (∃ placed, draft.body.placed = .ok placed ∧
      draft.body.unresolvedJumps = .ok (placed.filter fun inst => (DraftStep.fate steps inst).waits) ∧
      ((∀ inst ∈ placed, DraftStep.fate steps inst ≠ .loose) →
        draft.body.unresolvedJumps = .ok (placed.filter fun inst => (DraftStep.fate steps inst).isPending))) ∧
      (∀ inst label, DraftStep.fate steps inst = .resolved label → draft.body.operation? label = some .label ∧
        (draft.body.operation? inst).bind Operation.jumpTarget? = some label) ∧
      (∀ inst, draft.body.operation? inst = (DraftStep.fate steps inst).patch (DraftStep.made start steps inst)) ∧
      ∀ step : DraftStep ι, step.Allowed draft →
        (∃ next, step.apply draft = .ok (next, draft.waiting steps step)) ∨ step.apply draft = .error .indexOverflow := by
  have tracks : draft.Tracks start steps :=
    run_tracks start [] steps (.begin start) draft (begin_tracks start linked closed) allowed ran
  obtain ⟨placed, listed, unresolved⟩ := unresolved_tracks start steps draft tracks
  refine ⟨⟨placed, listed, unresolved, fun settled => ?_⟩, fun inst label fate => ?_, tracks.operations,
    fun step stepAllowed => ?_⟩
  · rw [unresolved]
    refine congrArg Except.ok (List.filter_congr fun inst member => ?_)
    have notLoose := settled inst member
    cases fate : DraftStep.fate steps inst with
    | loose => exact (notLoose fate).elim
    | plain | pending name | resolved label => rfl
  · exact ⟨tracks.labels inst label fate, resolved_target start steps draft tracks inst label fate⟩
  · rcases step_tracks start steps draft tracks step stepAllowed with ⟨next, done, _⟩ | full
    · exact .inl ⟨next, done⟩
    · exact .inr full

-- A list for each outcome of a condition. One is resolved while the other still grows, fills again and is joined to the
-- other, and a jump is moved while it waits; one jump is made with its target.
def weave : List (DraftStep Bool) :=
  [.arrange .addBlock, .create (.nth 0) (.branch .lt (.var (.nth 0)) (.lit 10) .invalid), .single true (.nth 0),
    .create (.nth 1) (.goto .invalid), .arrange (.append (.nth 0) (.nth 0)), .arrange (.append (.nth 0) (.nth 1)),
    .single false (.nth 1), .create (.nth 2) (.branch .eq (.var (.nth 0)) (.lit 0) .invalid), .create (.nth 3) .label,
    .arrange (.append (.nth 1) (.nth 2)), .arrange (.prepend (.nth 1) (.nth 3)), .resolve true (.nth 3), .push false (.nth 2),
    .create (.nth 4) (.goto .invalid), .push true (.nth 4), .create (.nth 5) .label, .create (.nth 6) (.goto (.nth 5)),
    .arrange (.append (.nth 1) (.nth 6)), .merge false true, .arrange (.moveBeforeTerminator (.nth 1) (.nth 1)),
    .arrange (.append (.nth 0) (.nth 4))]

theorem weave_loses_no_jump : DraftStep.AllAllowed (.begin (new "weave")) weave ∧
    ∃ draft, DraftStep.run (.begin (new "weave")) weave = .ok draft ∧
      draft.body.unresolvedJumps = .ok [.nth 4, .nth 2, .nth 1] ∧
      draft.body.operation? (.nth 0) = some (.branch .lt (.var (.nth 0)) (.lit 10) (.nth 3)) ∧
      ∃ next, (DraftStep.resolve false (.nth 5)).apply draft = .ok (next, some 3) := by
  have allowed : DraftStep.AllAllowed (.begin (new "weave")) weave := by decide
  have closed (inst : Inst) : ((new "weave").operation? inst).bind Operation.jumpTarget? ≠ some .invalid := by
    cases inst <;> nofun
  obtain ⟨draft, ran, lists, ready, roomy, size⟩ : ∃ draft, DraftStep.run (.begin (new "weave")) weave = .ok draft ∧
      draft.body.placed = .ok [.nth 0, .nth 4, .nth 3, .nth 2, .nth 1, .nth 6] ∧
      (DraftStep.resolve false (.nth 5)).Allowed draft ∧
      (DraftStep.resolve false (.nth 5)).apply draft ≠ .error .indexOverflow ∧
      draft.waiting weave (DraftStep.resolve false (.nth 5)) = some 3 :=
    ⟨_, rfl, rfl, rfl, nofun, rfl⟩
  obtain ⟨⟨placed, listed, unresolved, _⟩, _, operations, goesOn⟩ :=
    backpatching_loses_no_jump (new "weave") (new_linked "weave") closed weave allowed draft ran
  cases lists.symm.trans listed
  obtain ⟨next, done⟩ := (goesOn (.resolve false (.nth 5)) ready).resolve_right roomy
  rw [size] at done
  exact ⟨allowed, draft, ran, unresolved, operations (.nth 0), next, done⟩

end Body

end ThreeAddress
