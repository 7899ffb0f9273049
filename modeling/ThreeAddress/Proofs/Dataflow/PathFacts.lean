import ThreeAddress.Proofs.Dataflow.Unreached
import ThreeAddress.Proofs.Flow.Paths
import ThreeAddress.Proofs.Optimizer.EditCode

/-!
What the solver finds for sets that are transformed element by element, told from the paths through the body: with
intersections what is brought and kept on every path to a point, with unions what is brought and kept on some path from it.
-/

set_option autoImplicit false

namespace ThreeAddress

namespace Body

variable {κ : Type} (body : Body) (gains keeps : Inst × Operation → κ → Prop)

def codeAlong (path : List Block) : List (Inst × Operation) := path.flatMap body.code

def BroughtBehind (block : Block) (element : κ) : Prop :=
  ∀ path, Path body body.entry path block → Brought gains keeps (body.codeAlong path) element

def BroughtBefore (block : Block) (element : κ) : Prop :=
  ∀ path, Path body body.entry path block → Brought gains keeps (body.codeAlong path.dropLast) element

def BroughtAhead (block : Block) (element : κ) : Prop :=
  ∃ path target, Path body block path target ∧ Brought gains keeps (body.codeAlong path).reverse element

theorem mem_code_along (accepted : body.check = .ok ()) (path : List Block) (inst : Inst) (operation : Operation)
    (member : (inst, operation) ∈ body.codeAlong path) :
    (∃ block ∈ path, inst ∈ body.layout block) ∧ body.operation? inst = some operation := by
  obtain ⟨block, passed, inCode⟩ := List.mem_flatMap.mp member
  rw [code_laid body body.layout (well_formed_of_check body accepted).laid] at inCode
  obtain ⟨placed, found⟩ := (mem_code_of_iff body _ inst operation).mp inCode
  exact ⟨⟨block, passed, placed⟩, found⟩

variable (block : Block) (element : κ)

theorem brought_behind_iff (reached : body.Reaches body.entry block) : body.BroughtBehind gains keeps block element ↔
    Brought gains keeps (body.code block) element ∨
      (∀ entry ∈ body.code block, keeps entry element) ∧ body.BroughtBefore gains keeps block element := by
  have divides (path : List Block) (leads : Path body body.entry path block) :
      body.codeAlong path = body.codeAlong path.dropLast ++ body.code block := by
    obtain ⟨front, rfl⟩ := leads.ends
    rw [List.dropLast_concat, codeAlong, codeAlong, List.flatMap_append, List.flatMap_singleton]
  constructor
  · intro behind
    rw [or_iff_not_imp_left]
    intro absent
    have before (path : List Block) (leads : Path body body.entry path block) :=
      ((brought_append gains keeps element _ _).mp (divides path leads ▸ behind path leads)).resolve_left absent
    obtain ⟨path, leads⟩ := reached
    exact ⟨(before path leads).1, fun path leads => (before path leads).2⟩
  · intro either path leads
    rw [divides path leads, brought_append]
    exact either.imp_right fun ⟨kept, before⟩ => ⟨kept, before path leads⟩

theorem brought_before_iff : body.BroughtBefore gains keeps block element ↔
    block ≠ body.entry ∧ ∀ pred, block ∈ body.succs pred → body.BroughtBehind gains keeps pred element := by
  constructor
  · intro before
    constructor
    · rintro rfl
      exact brought_nothing gains keeps element (before [body.entry] (.here body.entry))
    · intro pred edge path leads
      have onward := before _ (leads.extend body.entry pred block path edge)
      rwa [List.dropLast_concat] at onward
  · intro ⟨inner, behind⟩ path leads
    obtain ⟨front, rfl⟩ := leads.ends
    obtain ⟨_, pred, _, edge, upTo⟩ := leads.last_edge body.entry block front inner
    rw [List.dropLast_concat]
    exact behind pred edge front upTo

theorem brought_ahead_iff : body.BroughtAhead gains keeps block element ↔
    Brought gains keeps (body.code block).reverse element ∨ (∀ entry ∈ (body.code block).reverse, keeps entry element) ∧
      ∃ succ ∈ body.succs block, body.BroughtAhead gains keeps succ element := by
  have divides (rest : List Block) :
      (body.codeAlong (block :: rest)).reverse = (body.codeAlong rest).reverse ++ (body.code block).reverse := by
    rw [codeAlong, List.flatMap_cons, List.reverse_append, codeAlong]
  constructor
  · intro ⟨path, target, leads, brought⟩
    cases leads with
    | here =>
      rw [codeAlong, List.flatMap_singleton] at brought
      exact .inl brought
    | step _ succ _ rest edge onward =>
      rw [divides, brought_append] at brought
      exact brought.imp_right fun ⟨kept, later⟩ => ⟨kept, succ, edge, rest, target, onward, later⟩
  · rintro (here | ⟨kept, succ, edge, rest, target, onward, later⟩)
    · refine ⟨[block], block, .here block, ?_⟩
      rwa [codeAlong, List.flatMap_singleton]
    · refine ⟨block :: rest, target, .step block succ target rest edge onward, ?_⟩
      rw [divides, brought_append]
      exact .inr ⟨kept, later⟩

end Body

section Sets

variable {κ : Type} [Ord κ]

namespace Solver

-- A solved analysis of what holds on every path: forward, with intersections, and with nothing before the entry.
structure Must (analysis : Analysis (OrderedSet κ)) (body : Body) (gains keeps : Inst × Operation → κ → Prop) (scope : List κ)
    (facts : BlockFacts (OrderedSet κ)) : Prop where
  accepted : body.check = .ok ()
  forward : analysis.direction = .forward
  merges : analysis.merge = Meet.intersection.apply
  boundary : analysis.boundary = .empty
  gained : ∀ entry element, gains entry element → element ∈ analysis.init.toList
  transfer : ∀ block set, set.Sound → ∀ element, element ∈ (analysis.transfer block set).toList ↔
    Brought gains keeps (body.code block) element ∨ (∀ entry ∈ body.code block, keeps entry element) ∧ element ∈ set.toList
  laws : analysis.Lawful body (OrderedSet.Over scope) (Meet.le .intersection)
  answers : Answers analysis body (OrderedSet.Over scope) (Meet.le .intersection) facts

-- A solved analysis of what holds on some path: backward, with unions, and with nothing to begin with.
structure May (analysis : Analysis (OrderedSet κ)) (body : Body) (gains keeps : Inst × Operation → κ → Prop) (scope : List κ)
    (facts : BlockFacts (OrderedSet κ)) : Prop where
  accepted : body.check = .ok ()
  backward : analysis.direction = .backward
  merges : analysis.merge = Meet.union.apply
  init : analysis.init = .empty
  boundary : analysis.boundary = .empty
  transfer : ∀ block, body.blocks.contains block = true → ∀ set, set.Sound → ∀ element,
    element ∈ (analysis.transfer block set).toList ↔ Brought gains keeps (body.code block).reverse element ∨
      (∀ entry ∈ (body.code block).reverse, keeps entry element) ∧ element ∈ set.toList
  laws : analysis.Lawful body (OrderedSet.Over scope) (Meet.le .union)
  answers : Answers analysis body (OrderedSet.Over scope) (Meet.le .union) facts

variable {analysis : Analysis (OrderedSet κ)} {body : Body} {gains keeps : Inst × Operation → κ → Prop} {scope : List κ}
  {facts : BlockFacts (OrderedSet κ)}

theorem Must.brought_init (must : Must analysis body gains keeps scope facts) (code : List (Inst × Operation)) (element : κ)
    (brought : Brought gains keeps code element) : element ∈ analysis.init.toList := by
  obtain ⟨_, entry, _, _, gained, _⟩ := brought
  exact must.gained entry element gained

theorem Must.behind_init (must : Must analysis body gains keeps scope facts) (block : Block)
    (reached : body.Reaches body.entry block) (element : κ) (behind : body.BroughtBehind gains keeps block element) :
    element ∈ analysis.init.toList := by
  obtain ⟨path, leads⟩ := reached
  exact must.brought_init _ element (behind path leads)

theorem Must.brought_along (must : Must analysis body gains keeps scope facts) (element : κ) (source target : Block)
    (path : List Block) (leads : Path body source path target) (inside : body.blocks.contains source = true)
    (held : element ∈ (outgoing analysis facts target).toList) : Brought gains keeps (body.codeAlong path) element ∨
      (∀ entry ∈ body.codeAlong path, keeps entry element) ∧ element ∈ (inflow analysis facts source).toList := by
  have edges := (Body.well_formed_of_check body must.accepted).edges
  have bounds := answers_bounds analysis body _ _ must.laws facts must.answers
  have passes (block : Block) (inside : body.blocks.contains block = true)
      (held : element ∈ (outgoing analysis facts block).toList) : Brought gains keeps (body.code block) element ∨
        (∀ entry ∈ body.code block, keeps entry element) ∧ element ∈ (inflow analysis facts block).toList :=
    (must.transfer block _ (must.answers.ins block).sound element).mp ((bounds block inside).2.2 element held)
  induction leads with
  | here block =>
    rw [Body.codeAlong, List.flatMap_singleton]
    exact passes block inside held
  | step source succ target rest edge _ ih =>
    have succInside := edges.succInside source succ edge
    have pred : source ∈ sources analysis body succ := by
      rw [sources, must.forward]
      exact (Body.edges_mem_iff body edges source succ).mp edge
    rw [Body.codeAlong, List.flatMap_cons, brought_append, List.forall_mem_append]
    rcases ih succInside held with brought | ⟨kept, entered⟩
    · exact .inl (.inl brought)
    · rcases passes source inside ((bounds succ succInside).2.1 source pred element entered) with brought | ⟨here, before⟩
      · exact .inl (.inr ⟨kept, brought⟩)
      · exact .inr ⟨⟨here, kept⟩, before⟩

variable [Std.TransOrd κ] [Std.LawfulEqOrd κ]

section Joins

variable (outs : Block → OrderedSet κ) (outsSound : ∀ block, (outs block).Sound)

include outsSound

theorem mem_meet_from_intersection (merges : analysis.merge = Meet.intersection.apply) (set : OrderedSet κ) (sound : set.Sound)
    (blocks : List Block) (element : κ) : element ∈ (meetFrom analysis outs set blocks).toList ↔
      element ∈ set.toList ∧ ∀ block ∈ blocks, element ∈ (outs block).toList := by
  rw [meetFrom, merges]
  induction blocks generalizing set with
  | nil => simp
  | cons block rest ih =>
    have here : element ∈ (Meet.intersection.apply set (outs block)).1.toList ↔ _ :=
      OrderedSet.mem_inter set _ sound (outsSound block) element
    rw [List.foldl_cons, ih (Meet.intersection.apply set (outs block)).1 (OrderedSet.sound_inter set _ sound), here,
      List.forall_mem_cons, and_assoc]

theorem mem_meet_from_union (merges : analysis.merge = Meet.union.apply) (set : OrderedSet κ) (sound : set.Sound)
    (blocks : List Block) (element : κ) : element ∈ (meetFrom analysis outs set blocks).toList ↔
      element ∈ set.toList ∨ ∃ block ∈ blocks, element ∈ (outs block).toList := by
  rw [meetFrom, merges]
  induction blocks generalizing set with
  | nil => simp
  | cons block rest ih =>
    have here : element ∈ (Meet.union.apply set (outs block)).1.toList ↔ _ :=
      OrderedSet.mem_union set _ sound (outsSound block) element
    rw [List.foldl_cons, ih (Meet.union.apply set (outs block)).1 (OrderedSet.sound_union set _ sound (outsSound block)), here,
      or_assoc]
    simp only [List.mem_cons, exists_eq_or_imp]

theorem Must.mem_joined (must : Must analysis body gains keeps scope facts) (block : Block) (element : κ) :
    element ∈ (joined analysis body outs block).toList ↔ block ≠ body.entry ∧ element ∈ analysis.init.toList ∧
      ∀ pred, block ∈ body.succs pred → element ∈ (outs pred).toList := by
  have edges := (Body.well_formed_of_check body must.accepted).edges
  have startIn := start_carried analysis body _ must.laws.toCarries block
  have preds : sources analysis body block = body.preds block := by rw [sources, must.forward]
  have starts : element ∈ (start analysis body block).toList ↔ block ≠ body.entry ∧ element ∈ analysis.init.toList := by
    rw [start, must.forward]
    by_cases entry : block = body.entry
    · rw [if_pos entry, must.boundary]
      exact iff_of_false List.not_mem_nil fun either => either.1 entry
    · rw [if_neg entry]
      exact (and_iff_right entry).symm
  rw [joined, mem_meet_from_intersection outs outsSound must.merges _ startIn.sound, starts, preds, and_assoc]
  simp only [Body.edges_mem_iff body edges]

theorem May.mem_joined (may : May analysis body gains keeps scope facts) (block : Block) (element : κ) :
    element ∈ (joined analysis body outs block).toList ↔ ∃ succ ∈ body.succs block, element ∈ (outs succ).toList := by
  have starts : start analysis body block = .empty := by
    rw [start, may.backward]
    simp only [may.init, may.boundary, ite_self]
  have succs : sources analysis body block = body.succs block := by rw [sources, may.backward]
  rw [joined, starts, succs, mem_meet_from_union outs outsSound may.merges _ OrderedSet.sound_empty]
  exact or_iff_right List.not_mem_nil

end Joins

open Classical in
noncomputable def having (scope : List κ) (holds : κ → Prop) : OrderedSet κ :=
  .ofList (scope.filter fun element => holds element)

theorem mem_having (holds : κ → Prop) (element : κ) :
    element ∈ (having scope holds).toList ↔ element ∈ scope ∧ holds element := by
  rw [having, OrderedSet.mem_of_list, List.mem_filter]
  simp only [decide_eq_true_eq]

theorem over_having (holds : κ → Prop) : (having scope holds).Over scope :=
  OrderedSet.over_of_list scope _ fun _ member => (List.mem_filter.mp member).1

theorem Must.entry_empty (must : Must analysis body gains keeps scope facts) (element : κ) :
    element ∉ (inflow analysis facts body.entry).toList := by
  intro entered
  rw [(must.answers.settled body.entry (Body.well_formed_of_check body must.accepted).entry).1] at entered
  exact ((must.mem_joined _ (fun block => (must.answers.outs block).sound) body.entry element).mp entered).1 rfl

namespace Must

variable (must : Must analysis body gains keeps scope facts)
  (connected : ∀ block, body.blocks.contains block = true → body.Reaches body.entry block)
  (block : Block) (inside : body.blocks.contains block = true) (element : κ)

include must connected inside

theorem brought_rises : Meet.le .intersection (having scope (body.BroughtBehind gains keeps block))
    (recomputed analysis body (fun block => having scope (body.BroughtBehind gains keeps block)) block) := by
  intro element member
  obtain ⟨inScope, behind⟩ := (mem_having _ element).mp member
  have joinedIn := joined_carried analysis body _ must.laws.toCarries
    (fun block => having scope (body.BroughtBehind gains keeps block)) (fun _ => over_having _) block
  apply (must.transfer block _ joinedIn.sound element).mpr
  rcases (body.brought_behind_iff gains keeps block element (connected block inside)).mp behind with here | ⟨kept, before⟩
  · exact .inl here
  · obtain ⟨inner, behindPreds⟩ := (body.brought_before_iff gains keeps block element).mp before
    refine .inr ⟨kept, (must.mem_joined _ (fun _ => (over_having _).sound) block element).mpr ⟨inner, ?_, ?_⟩⟩
    · exact must.behind_init block (connected block inside) element behind
    · exact fun pred edge => (mem_having _ element).mpr ⟨inScope, behindPreds pred edge⟩

theorem mem_outgoing : element ∈ (outgoing analysis facts block).toList ↔ body.BroughtBehind gains keeps block element := by
  have entry := (Body.well_formed_of_check body must.accepted).entry
  constructor
  · intro held path leads
    have along := must.brought_along element body.entry block path leads entry held
    exact along.resolve_right fun ⟨_, entered⟩ => must.entry_empty element entered
  · intro behind
    have known := must.behind_init block (connected block inside) element behind
    apply must.answers.above _ (fun block => over_having (body.BroughtBehind gains keeps block))
      (fun block inside element member => must.behind_init block (connected block inside) element ((mem_having _ element).mp member).2)
      (must.brought_rises connected) block inside
    exact (mem_having _ element).mpr ⟨must.laws.init.inside element known, behind⟩

theorem mem_inflow : element ∈ (inflow analysis facts block).toList ↔ body.BroughtBefore gains keeps block element := by
  have edges := (Body.well_formed_of_check body must.accepted).edges
  have leaves (pred : Block) (edge : block ∈ body.succs pred) :=
    must.mem_outgoing connected pred (edges.predInside block pred ((Body.edges_mem_iff body edges pred block).mp edge)) element
  rw [(must.answers.settled block inside).1, must.mem_joined _ (fun block => (must.answers.outs block).sound)]
  constructor
  · intro ⟨inner, _, held⟩
    exact (body.brought_before_iff gains keeps block element).mpr ⟨inner, fun pred edge => (leaves pred edge).mp (held pred edge)⟩
  · intro before
    obtain ⟨inner, behind⟩ := (body.brought_before_iff gains keeps block element).mp before
    refine ⟨inner, ?_, fun pred edge => (leaves pred edge).mpr (behind pred edge)⟩
    obtain ⟨path, leads⟩ := connected block inside
    exact must.brought_init _ element (before path leads)

end Must

namespace May

variable (may : May analysis body gains keeps scope facts)

include may

theorem mem_inflow (block : Block) (inside : body.blocks.contains block = true) (element : κ) :
    element ∈ (inflow analysis facts block).toList ↔ ∃ succ ∈ body.succs block, element ∈ (outgoing analysis facts succ).toList := by
  rw [(may.answers.settled block inside).1]
  exact may.mem_joined _ (fun block => (may.answers.outs block).sound) block element

theorem brought_back (element : κ) (source target : Block) (path : List Block) (leads : Path body source path target)
    (inside : body.blocks.contains source = true) (brought : Brought gains keeps (body.codeAlong path).reverse element) :
    element ∈ (outgoing analysis facts source).toList := by
  have bounds := answers_bounds analysis body _ _ may.laws facts may.answers
  -- What is brought is read from the end of the path, so the facts are carried from its end to its start.
  induction leads with
  | here block =>
    rw [Body.codeAlong, List.flatMap_singleton] at brought
    have passed := (may.transfer block inside _ (may.answers.ins block).sound element).mpr (.inl brought)
    exact (bounds block inside).2.2 element passed
  | step source succ target rest edge _ ih =>
    have succInside := (Body.well_formed_of_check body may.accepted).edges.succInside source succ edge
    rw [Body.codeAlong, List.flatMap_cons, List.reverse_append, brought_append] at brought
    apply (bounds source inside).2.2 element
    apply (may.transfer source inside _ (may.answers.ins source).sound element).mpr
    refine brought.imp_right fun ⟨kept, later⟩ => ⟨kept, ?_⟩
    exact (may.mem_inflow source inside element).mpr ⟨succ, edge, ih succInside later⟩

variable (block : Block) (inside : body.blocks.contains block = true)

include inside

theorem brought_falls : Meet.le .union (having scope (body.BroughtAhead gains keeps block))
    (recomputed analysis body (fun block => having scope (body.BroughtAhead gains keeps block)) block) := by
  intro element member
  let low (block : Block) := having scope (body.BroughtAhead gains keeps block)
  have lowOver (block : Block) : (low block).Over scope := over_having _
  have joinedIn := joined_carried analysis body _ may.laws.toCarries low lowOver block
  have newIn := recomputed_carried analysis body _ may.laws.toCarries low lowOver block inside
  apply (mem_having _ element).mpr
  refine ⟨newIn.inside element member, (body.brought_ahead_iff gains keeps block element).mpr ?_⟩
  rcases (may.transfer block inside _ joinedIn.sound element).mp member with here | ⟨kept, later⟩
  · exact .inl here
  · obtain ⟨succ, edge, there⟩ := (may.mem_joined low (fun block => (lowOver block).sound) block element).mp later
    exact .inr ⟨kept, succ, edge, ((mem_having _ element).mp there).2⟩

theorem mem_outgoing (element : κ) :
    element ∈ (outgoing analysis facts block).toList ↔ body.BroughtAhead gains keeps block element := by
  constructor
  · intro held
    have below := may.answers.above (fun block => having scope (body.BroughtAhead gains keeps block)) (fun _ => over_having _)
      (fun _ _ element member => (List.not_mem_nil (may.init ▸ member)).elim) may.brought_falls block inside
    exact ((mem_having _ element).mp (below element held)).2
  · intro ⟨path, target, leads, brought⟩
    exact may.brought_back element block target path leads inside brought

end May

end Solver

end Sets

end ThreeAddress
