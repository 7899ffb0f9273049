import ThreeAddress.Proofs.Optimizer.MotionLiveness

/-!
Loops that nothing can leave any more. What hoisting asks of an operation is told here of the code as it is, and not of the
facts that were found before the first move; the two agree for all that has not moved. From a loop that nothing can leave
the loops around it take nothing either, and moves out of other loops free nothing in it, as long as none of them goes in
front of a terminator that reads what moves.
-/

set_option autoImplicit false

namespace ThreeAddress

namespace Body

section Defined

variable (body : Body) (dst : Var)

theorem count_defined_in_le (part whole : List Block) (once : part.Nodup) (within : part ⊆ whole) :
    (body.definedIn part).count dst ≤ (body.definedIn whole).count dst := by
  obtain ⟨listed, same, sublist⟩ := once.subperm within
  have fewer : (body.definedIn listed).Sublist (body.definedIn whole) := (sublist.flatMap body.operationsIn).filterMap _
  have shuffled : (body.definedIn listed).Perm (body.definedIn part) := (same.flatMap_right body.operationsIn).filterMap _
  rw [← shuffled.count_eq dst]
  exact fewer.count_le dst

theorem defined_alone (blocks : List Block) (once : (body.definedIn blocks).count dst = 1) (block other : Block)
    (here : block ∈ blocks) (there : other ∈ blocks) (apart : block ≠ other) (operation : Operation)
    (member : operation ∈ body.operationsIn block) (defines : operation.def? = some dst) :
    ∀ later ∈ body.operationsIn other, later.def? ≠ some dst := by
  intro later inOther again
  have fewer := body.count_defined_in_le dst [block, other] blocks (by simpa using apart) (by simp [here, there])
  have both : body.definedIn [block, other] = body.definedIn [block] ++ body.definedIn [other] := by
    simp [definedIn]
  have first := List.count_pos_iff.mpr (body.mem_defined_in [block] block List.mem_cons_self operation member dst defines)
  have second := List.count_pos_iff.mpr (body.mem_defined_in [other] other List.mem_cons_self later inOther dst again)
  rw [both, List.count_append] at fewer
  omega

end Defined

-- What hoisting asks of an operation, told of the code as it is.
structure CanLeave (body : Body) (pinned : OrderedSet Var) (loop : Loop) (block : Block) (operation : Operation) (dst : Var) :
    Prop where
  operands : ∀ var ∈ operation.usedVars, var ∉ body.definedIn loop.blocks.toList ∧ pinned.contains var = false
  once : (body.definedIn loop.blocks.toList).count dst = 1
  unpinned : pinned.contains dst = false
  dead : ¬ body.IsLive dst loop.header
  exits : ∀ source ∈ loop.blocks.toList, ∀ target ∈ body.succs source, target ∉ loop.blocks.toList → body.IsLive dst target →
    body.Dominates block source

def Drained (body : Body) (pinned : OrderedSet Var) (loop : Loop) : Prop :=
  ∀ block ∈ loop.blocks.toList, ∀ operation ∈ body.operationsIn block, ∀ dst, operation.def? = some dst →
    operation.isHoistable = true → ¬ body.CanLeave pinned loop block operation dst

section Loops

variable (body : Body) (accepted : body.check = .ok ()) (dominance : Dominance)
  (solved : body.Solved body.dominatorAnalysis (OrderedSet.Over body.blocks.refs) (Meet.le .intersection) dominance.facts)
  (describes : dominance.order.Describes body) (pinned : OrderedSet Var)

include accepted solved describes

-- The only block of a loop that writes a variable is not passed on some way to a block where the variable is live.
theorem header_live_around (loop : Loop) (listed : loop ∈ body.loops dominance) (block target : Block) (operation : Operation)
    (dst : Var) (once : (body.definedIn loop.blocks.toList).count dst = 1) (here : block ∈ loop.blocks.toList)
    (member : operation ∈ body.operationsIn block) (defines : operation.def? = some dst) (inLoop : target ∈ loop.blocks.toList)
    (path : List Block) (leads : Path body body.entry path target) (avoids : block ∉ path.dropLast)
    (live : body.IsLive dst target) : body.IsLive dst loop.header := by
  refine body.header_live dst accepted dominance solved describes loop listed target path leads inLoop ?_ live
  intro other passed there
  exact body.defined_alone dst loop.blocks.toList once block other here there (fun same => avoids (same ▸ passed)) operation
    member defines

theorem header_first (loop : Loop) (listed : loop ∈ body.loops dominance) (block : Block) (here : block ∈ loop.blocks.toList) :
    ∃ path, Path body body.entry path loop.header ∧ block ∉ path.dropLast := by
  have edges := (well_formed_of_check body accepted).edges
  obtain ⟨closed, _⟩ := loops_listed body dominance edges describes loop listed
  have natural := loops_natural body dominance edges describes loop listed
  obtain ⟨path, leads⟩ := closed.reached loop.header closed.grown.entered
  obtain ⟨front, _, _, fresh, upTo⟩ := leads.first_time body.entry loop.header loop.header path
    (leads.target_mem body.entry loop.header path)
  refine ⟨front ++ [loop.header], upTo, fun early => fresh ?_⟩
  rw [List.dropLast_concat] at early
  obtain ⟨before, after, whole⟩ := List.append_of_mem early
  rw [whole, List.append_assoc] at upTo
  have met := body.header_dominates accepted dominance solved loop natural block here _
    (upTo.cut body.entry block loop.header before _).1
  rw [whole]
  rcases List.mem_append.mp met with sooner | same
  · exact List.mem_append_left _ sooner
  · rw [List.mem_singleton.mp same]
    exact List.mem_append_right _ List.mem_cons_self

theorem leaves_inner (inner outer : Loop) (innerListed : inner ∈ body.loops dominance) (outerListed : outer ∈ body.loops dominance)
    (inside : inner.Inside outer) (block : Block) (here : block ∈ inner.blocks.toList) (operation : Operation)
    (member : operation ∈ body.operationsIn block) (dst : Var) (defines : operation.def? = some dst)
    (leaves : body.CanLeave pinned outer block operation dst) : body.CanLeave pinned inner block operation dst := by
  have edges := (well_formed_of_check body accepted).edges
  obtain ⟨innerClosed, _⟩ := loops_listed body dominance edges describes inner innerListed
  have nodup := OrderedSet.nodup_to_list _ innerClosed.grown.sound
  have inOuter := inside.part block here
  have live := body.header_live_around accepted dominance solved describes outer outerListed block
  refine ⟨fun var used => ⟨fun written => ?_, (leaves.operands var used).2⟩, ?_, leaves.unpinned, fun atHeader => ?_, ?_⟩
  · have fewer := body.count_defined_in_le var _ _ nodup inside.part
    exact (leaves.operands var used).1 (List.count_pos_iff.mp (Nat.lt_of_lt_of_le (List.count_pos_iff.mpr written) fewer))
  · have fewer := body.count_defined_in_le dst _ _ nodup inside.part
    have written := List.count_pos_iff.mpr (body.mem_defined_in inner.blocks.toList block here operation member dst defines)
    rw [leaves.once] at fewer
    omega
  · obtain ⟨path, leads, avoids⟩ := body.header_first accepted dominance solved describes inner innerListed block here
    exact leaves.dead (live inner.header operation dst leaves.once inOuter member defines
      (inside.part _ innerClosed.grown.entered) path leads avoids atHeader)
  · intro source inSource target edge outside liveAt
    by_cases there : target ∈ outer.blocks.toList
    · intro path leads
      by_contra avoids
      refine leaves.dead (live target operation dst leaves.once inOuter member defines there _
        (leads.extend body.entry source target path edge) ?_ liveAt)
      rwa [List.dropLast_concat]
    · exact leaves.exits source (inside.part source inSource) target edge there liveAt

end Loops

end Body

theorem Loop.mem_exits (loop : Loop) (body : Body) (source target : Block) : (source, target) ∈ loop.exits body ↔
    source ∈ loop.blocks.toList ∧ target ∈ body.succs source ∧ loop.contains target = false := by
  simp [exits]

namespace HoistPlan

section Sees

variable (plan : HoistPlan) (body : Body)

structure Sees (defs : List Var) : Prop where
  left : defs.Perm (body.definedIn plan.loop.blocks.toList)
  sound : ∀ block, (plan.live.liveIn block).Sound
  live : ∀ var ∈ defs, ∀ block, body.blocks.contains block = true → (var ∈ (plan.live.liveIn block).toList ↔ body.IsLive var block)
  exits : plan.exits = plan.loop.exits body

variable (accepted : body.check = .ok ())
  (solved : body.Solved body.dominatorAnalysis (OrderedSet.Over body.blocks.refs) (Meet.le .intersection) plan.dominance.facts)
  (natural : Loop.Natural body plan.dominance plan.loop) (defs : List Var) (sees : plan.Sees body defs)

theorem planned_sees (planned : plan.Planned body defs) (inside : ∀ block ∈ plan.loop.blocks.toList, body.blocks.contains block = true)
    (accepted : body.check = .ok ()) (exits : plan.exits = plan.loop.exits body) : plan.Sees body defs := by
  have collected := body.definitions_defined_in accepted plan.loop.blocks.toList inside
  rw [planned.defs] at collected
  have laws := Body.liveness_lawful body body.usedScope (Body.mem_used_scope body)
  refine ⟨by rw [Except.ok.inj collected], fun block => ?_, fun var _ => plan.live_exact body var accepted planned.live, exits⟩
  exact (Solver.outgoing_within body.livenessAnalysis _ plan.live planned.live.within laws.init block).sound

include sees

theorem sees_defined (var : Var) : defs.contains var = false ↔ var ∉ body.definedIn plan.loop.blocks.toList := by
  rw [← sees.left.mem_iff, ← List.contains_iff_mem, Bool.not_eq_true]

theorem sees_dead (dst : Var) (known : dst ∈ defs) (block : Block) (inside : body.blocks.contains block = true) :
    (plan.live.liveIn block).contains dst = false ↔ ¬ body.IsLive dst block := by
  rw [OrderedSet.contains_eq_false_iff _ (sees.sound block), sees.live dst known block inside]

include accepted natural solved

theorem exits_iff (block : Block) (here : block ∈ plan.loop.blocks.toList) (dst : Var) (known : dst ∈ defs) :
    (plan.exits.all fun (source, target) =>
        !(plan.live.liveIn target).contains dst || plan.dominance.dominates block source) = true ↔
      ∀ source ∈ plan.loop.blocks.toList, ∀ target ∈ body.succs source, target ∉ plan.loop.blocks.toList →
        body.IsLive dst target → body.Dominates block source := by
  have edges := (Body.well_formed_of_check body accepted).edges
  have blockInside := natural.inside block (.inl here)
  have asked (source target : Block) (inLoop : source ∈ plan.loop.blocks.toList) (edge : target ∈ body.succs source) :
      (!(plan.live.liveIn target).contains dst || plan.dominance.dominates block source) = true ↔
        (body.IsLive dst target → body.Dominates block source) := by
    have live := plan.sees_dead body defs sees dst known target (edges.succInside source target edge)
    have above := body.dominates_iff accepted plan.dominance solved block source (natural.inside source (.inl inLoop))
    rw [Bool.or_eq_true, Bool.not_eq_true', live, above, and_iff_right blockInside, imp_iff_not_or]
  rw [sees.exits, List.all_eq_true]
  constructor
  · intro all source inLoop target edge outside
    refine (asked source target inLoop edge).mp (all (source, target) ((plan.loop.mem_exits body source target).mpr ?_))
    exact ⟨inLoop, edge, (OrderedSet.contains_eq_false_iff _ natural.sound target).mpr outside⟩
  · rintro all ⟨source, target⟩ leaving
    obtain ⟨inLoop, edge, outside⟩ := (plan.loop.mem_exits body source target).mp leaving
    exact (asked source target inLoop edge).mpr
      (all source inLoop target edge ((OrderedSet.contains_eq_false_iff _ natural.sound target).mp outside))

theorem may_move_iff (block : Block) (here : block ∈ plan.loop.blocks.toList) (operation : Operation) (dst : Var) :
    plan.mayMove defs block operation dst = true ↔ body.CanLeave plan.pinned plan.loop block operation dst := by
  have known (once : defs.count dst = 1) : dst ∈ defs := List.count_pos_iff.mp (by omega)
  have header := natural.inside plan.loop.header (.inl natural.entered)
  simp only [mayMove, Bool.and_eq_true, List.all_eq_true (l := operation.usedVars), Bool.not_eq_true', beq_iff_eq]
  constructor
  · rintro ⟨⟨⟨⟨operands, once⟩, unpinned⟩, dead⟩, exits⟩
    exact ⟨fun var used => ⟨(plan.sees_defined body defs sees var).mp (operands var used).1, (operands var used).2⟩,
      sees.left.count_eq dst ▸ once, unpinned, (plan.sees_dead body defs sees dst (known once) _ header).mp dead,
      (plan.exits_iff body accepted solved natural defs sees block here dst (known once)).mp exits⟩
  · intro leaves
    have once : defs.count dst = 1 := sees.left.count_eq dst ▸ leaves.once
    exact ⟨⟨⟨⟨fun var used => ⟨(plan.sees_defined body defs sees var).mpr (leaves.operands var used).1, (leaves.operands var used).2⟩,
      once⟩, leaves.unpinned⟩, (plan.sees_dead body defs sees dst (known once) _ header).mpr leaves.dead⟩,
      (plan.exits_iff body accepted solved natural defs sees block here dst (known once)).mpr leaves.exits⟩

def Idle (defs : List Var) : Prop :=
  ∀ block ∈ plan.loop.blocks.toList, ∀ operation ∈ body.operationsIn block, ∀ dst, operation.def? = some dst →
    operation.isHoistable = true → plan.mayMove defs block operation dst = false

theorem idle_iff_drained : plan.Idle body defs ↔ body.Drained plan.pinned plan.loop := by
  constructor
  · intro idle block here operation member dst defines hoistable leaves
    have may := (plan.may_move_iff body accepted solved natural defs sees block here operation dst).mpr leaves
    rw [idle block here operation member dst defines hoistable] at may
    cases may
  · intro drained block here operation member dst defines hoistable
    rw [← Bool.not_eq_true, plan.may_move_iff body accepted solved natural defs sees block here operation dst]
    exact drained block here operation member dst defines hoistable

end Sees

section Move

variable (plan : HoistPlan) (body other : Body) (accepted : body.check = .ok ()) (dominance : Dominance)
  (solved : body.Solved body.dominatorAnalysis (OrderedSet.Over body.blocks.refs) (Meet.le .intersection) dominance.facts)
  (describes : dominance.order.Describes body) (pinned : OrderedSet Var) (listed : plan.loop ∈ body.loops dominance)
  (enters : plan.loop.preheader? body = some plan.preheader) (frame : body.SameFrame other) (block : Block)
  (inLoop : block ∈ plan.loop.blocks.toList) (operation : Operation) (member : operation ∈ body.operationsIn block) (dst : Var)
  (defines : operation.def? = some dst) (leaves : body.CanLeave pinned plan.loop block operation dst)
  (code : plan.CodeMoved body.operationsIn other.operationsIn (dst ∉ ·.usedVars) block operation)

include accepted describes listed enters frame inLoop defines leaves code

theorem live_outside (var : Var) (place : Block) (reached : body.Reaches body.entry place)
    (outside : place ∉ plan.loop.blocks.toList) (live : body.IsLive var place) : other.IsLive var place := by
  have edges := (Body.well_formed_of_check body accepted).edges
  have natural := Body.loops_natural body dominance edges describes plan.loop listed
  obtain ⟨_, _, _, flows⟩ := Loop.preheader_spec body plan.loop plan.preheader enters
  by_cases used : var ∈ operation.usedVars
  · exact plan.outside_live body other var frame _ block operation code dominance natural edges enters inLoop
      (plan.preheader_live_read body other var _ block operation code used) place reached outside live
  · by_cases written : var = dst
    · rw [written] at live ⊢
      exact plan.outside_live body other dst frame _ block operation code dominance natural edges enters inLoop
        (plan.preheader_live_written body other dst block operation code flows leaves.dead) place reached outside live
    · refine (plan.unmentioned_live_iff body other var frame _ block operation code used ?_ place).mpr live
      rw [defines]
      exact fun same => written (Option.some.inj same).symm

include member

section Earlier

variable (earlier : Loop) (earlierListed : earlier ∈ body.loops dominance)
  (nested : earlier.Apart plan.loop ∨ earlier.Inside plan.loop) (drained : body.Drained pinned earlier)

include nested

theorem nested_live (untaken : block ∉ earlier.blocks.toList) (place : Block) (there : place ∈ earlier.blocks.toList)
    (later : Operation) (inPlace : later ∈ body.operationsIn place) (var : Var) (laterDefines : later.def? = some var)
    (target : Block) (reached : body.Reaches body.entry target)
    (outside : earlier.Apart plan.loop → target ∉ plan.loop.blocks.toList) (live : body.IsLive var target) :
    other.IsLive var target := by
  rcases nested with apart | inside
  · exact plan.live_outside body other accepted dominance describes pinned listed enters frame block inLoop operation dst defines
      leaves code var target reached (outside apart) live
  · refine (plan.unmentioned_live_iff body other var frame _ block operation code (fun used => ?_) (fun again => ?_) target).mpr live
    · exact (leaves.operands var used).1
        (body.mem_defined_in _ place (inside.part place there) later inPlace var laterDefines)
    · cases defines.symm.trans again
      exact body.defined_alone dst _ leaves.once block place inLoop (inside.part place there)
        (fun same => untaken (same ▸ there)) operation member defines later inPlace laterDefines

include solved earlierListed drained

omit enters frame code in
theorem untaken_of_drained (hoistable : operation.isHoistable = true) : block ∉ earlier.blocks.toList := by
  intro there
  rcases nested with apart | inside
  · exact apart block there inLoop
  · exact drained block there operation member dst defines hoistable (body.leaves_inner accepted dominance solved describes pinned
      earlier plan.loop earlierListed listed inside block there operation member dst defines leaves)

-- A loop that was hoisted from before stays drained: nothing is taken from it, and what was live for it still is.
theorem drained_moved (hoistable : operation.isHoistable = true) (away : plan.preheader ∉ earlier.blocks.toList) :
    other.Drained pinned earlier := by
  have edges := (Body.well_formed_of_check body accepted).edges
  have natural := Body.loops_natural body dominance edges describes plan.loop listed
  obtain ⟨closed, _⟩ := Body.loops_listed body dominance edges describes earlier earlierListed
  have untaken := untaken_of_drained plan body accepted dominance solved describes pinned listed block inLoop operation member dst
    defines leaves earlier earlierListed nested drained hoistable
  have same (place : Block) (there : place ∈ earlier.blocks.toList) : other.operationsIn place = body.operationsIn place :=
    code.elsewhere place (fun same => away (same ▸ there)) fun same => untaken (same ▸ there)
  have defined : other.definedIn earlier.blocks.toList = body.definedIn earlier.blocks.toList := by
    rw [Body.definedIn, Body.definedIn, List.flatMap_congr same]
  intro place there later inPlace var laterDefines laterHoistable now
  rw [same place there] at inPlace
  have kept := nested_live plan body other accepted dominance describes pinned listed enters frame block inLoop operation member dst
    defines leaves code earlier nested untaken place there later inPlace var laterDefines
  refine drained place there later inPlace var laterDefines laterHoistable
    ⟨fun var used => defined ▸ now.operands var used, defined ▸ now.once, now.unpinned, fun live => now.dead ?_, ?_⟩
  · exact kept _ (closed.reached _ closed.grown.entered) (fun apart => apart _ closed.grown.entered) live
  · intro source inSource target edge outside live
    have reached := closed.reached source inSource
    have dominates := now.exits source inSource target (frame.succs source ▸ edge) outside
      (kept target (body.reaches_succ source target reached edge) (fun apart inTarget => ?_) live)
    · intro path leads
      rw [← frame.entry] at leads
      exact dominates path (Body.frame_path body other frame _ _ _ leads)
    · rcases loop_entered body dominance plan.loop natural plan.preheader enters edges source target reached edge inTarget with
        inside | ⟨_, fromPreheader⟩
      · exact apart source inSource inside
      · exact away (fromPreheader ▸ inSource)

end Earlier

end Move

end HoistPlan

end ThreeAddress
