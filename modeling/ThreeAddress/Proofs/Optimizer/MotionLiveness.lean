import ThreeAddress.Proofs.Dataflow.LivePaths
import ThreeAddress.Proofs.Execution.InvariantMotion
import ThreeAddress.Proofs.Flow.LoopNesting

/-!
What a move does to liveness. A variable that the operation does not mention is live where it was live before. Outside the
loop a variable that it does mention stays live too, unless the terminator of the preheader alone kept the destination
alive. And what is live somewhere in a loop is live at its header if nothing on the way writes it.
-/

set_option autoImplicit false

namespace ThreeAddress

section Code

variable (var : Var)

theorem live_before_iff (after : Prop) (code : List Operation) :
    LiveBefore var after code ↔ LiveBefore var False code ∨ (LiveBefore var True code ∧ after) := by
  induction code with
  | nil => exact ⟨fun live => .inr ⟨trivial, live⟩, fun either => either.elim False.elim And.right⟩
  | cons operation rest ih =>
    simp only [LiveBefore, ih]
    tauto

theorem live_before_unwritten (code : List Operation) (unwritten : ∀ operation ∈ code, operation.def? ≠ some var) :
    LiveBefore var True code := by
  induction code with
  | nil => trivial
  | cons operation rest ih =>
    exact .inr ⟨unwritten operation List.mem_cons_self, ih fun other member => unwritten other (List.mem_cons_of_mem _ member)⟩

theorem live_before_of_read (front back : List Operation) (operation : Operation) (used : var ∈ operation.usedVars)
    (unwritten : ∀ earlier ∈ front, earlier.def? ≠ some var) : LiveBefore var False (front ++ operation :: back) := by
  rw [live_before_append]
  exact live_before_mono var True _ front (fun _ => .inl used) (live_before_unwritten var front unwritten)

end Code

namespace Body

inductive IsLive (body : Body) (var : Var) : Block → Prop
  | read (block : Block) (reads : LiveBefore var False (body.operationsIn block)) : IsLive body var block
  | onward (block succ : Block) (edge : succ ∈ body.succs block) (passes : LiveBefore var True (body.operationsIn block))
      (later : IsLive body var succ) : IsLive body var block

variable (body : Body) (var : Var)

theorem is_live_iff (block : Block) : body.IsLive var block ↔
    LiveBefore var (∃ succ ∈ body.succs block, body.IsLive var succ) (body.operationsIn block) := by
  rw [live_before_iff]
  constructor
  · rintro (⟨_, reads⟩ | ⟨_, succ, edge, passes, later⟩)
    · exact .inl reads
    · exact .inr ⟨passes, succ, edge, later⟩
  · rintro (reads | ⟨passes, succ, edge, later⟩)
    · exact .read block reads
    · exact .onward block succ edge passes later

theorem is_live_of_path (source target : Block) (path : List Block) (leads : Path body source path target)
    (reads : LiveBefore var False ((body.codeAlong path).map Prod.snd)) : body.IsLive var source := by
  induction leads with
  | here block =>
    rw [codeAlong, List.flatMap_singleton] at reads
    exact .read block reads
  | step source succ target rest edge onward ih =>
    rw [codeAlong, List.flatMap_cons, List.map_append, live_before_append, live_before_iff] at reads
    rcases reads with here | ⟨passes, later⟩
    · exact .read source here
    · exact .onward source succ edge passes (ih later)

theorem is_live_of_read (block : Block) (ahead : body.ReadAhead block var) : body.IsLive var block := by
  obtain ⟨path, target, leads, front, entry, back, whole, used, unwritten⟩ := ahead
  refine is_live_of_path body var block target path leads ?_
  rw [whole, List.map_append, List.map_cons]
  refine live_before_of_read var _ _ entry.2 used fun earlier member => ?_
  obtain ⟨before, there, rfl⟩ := List.mem_map.mp member
  exact unwritten before there

theorem is_live_mono (other : Body) (edges : ∀ block, other.succs block = body.succs block)
    (code : ∀ block after, LiveBefore var after (body.operationsIn block) → LiveBefore var after (other.operationsIn block))
    (block : Block) (live : body.IsLive var block) : other.IsLive var block := by
  induction live with
  | read block reads => exact .read block (code block _ reads)
  | onward block succ edge passes _ ih => exact .onward block succ (edges block ▸ edge) (code block _ passes) ih

theorem is_live_back (source target : Block) (path : List Block) (leads : Path body source path target)
    (unwritten : ∀ block ∈ path.dropLast, ∀ operation ∈ body.operationsIn block, operation.def? ≠ some var)
    (live : body.IsLive var target) : body.IsLive var source := by
  induction leads with
  | here block => exact live
  | step source succ target rest edge onward ih =>
    obtain ⟨later, rfl⟩ := onward.starts
    rw [List.dropLast_cons_cons] at unwritten
    refine .onward source succ edge (live_before_unwritten var _ (unwritten source List.mem_cons_self)) (ih ?_ live)
    exact fun block member => unwritten block (List.mem_cons_of_mem _ member)

section Loops

variable (accepted : body.check = .ok ()) (dominance : Dominance)
  (solved : body.Solved body.dominatorAnalysis (OrderedSet.Over body.blocks.refs) (Meet.le .intersection) dominance.facts)
  (describes : dominance.order.Describes body) (loop : Loop) (listed : loop ∈ body.loops dominance)

include accepted solved describes listed

-- The path from the last time that the header is met stays in the loop.
theorem header_live (target : Block) (path : List Block) (leads : Path body body.entry path target)
    (inLoop : target ∈ loop.blocks.toList)
    (unwritten : ∀ block ∈ path.dropLast, block ∈ loop.blocks.toList → ∀ operation ∈ body.operationsIn block, operation.def? ≠ some var)
    (live : body.IsLive var target) : body.IsLive var loop.header := by
  have edges := (well_formed_of_check body accepted).edges
  obtain ⟨closed, _⟩ := loops_listed body dominance edges describes loop listed
  have natural := loops_natural body dominance edges describes loop listed
  have met := body.header_dominates accepted dominance solved loop natural target inLoop path leads
  obtain ⟨front, back, whole, gone, onward⟩ := leads.last_time body.entry target loop.header path met
  have reached := closed.reached loop.header closed.grown.entered
  refine body.is_live_back var loop.header target (loop.header :: back) onward (fun block member => ?_) live
  have inPath : block ∈ path.dropLast := by
    rw [whole, List.dropLast_append_of_ne_nil (List.cons_ne_nil _ _)]
    exact List.mem_append_right front member
  obtain ⟨early, late, split⟩ := List.append_of_mem (List.mem_of_mem_dropLast member)
  rw [split] at onward
  obtain ⟨upTo, rest⟩ := onward.cut loop.header block target early late
  refine unwritten block inPath (body.loop_absorbs loop closed edges block target (block :: late) rest ?_ inLoop ?_)
  · obtain ⟨before, toHeader⟩ := reached
    exact ⟨_, toHeader.append body.entry loop.header block before _ upTo⟩
  · intro later
    cases early with
    | nil => exact gone ((List.cons.inj split).2 ▸ later)
    | cons first others =>
      have backs := (List.cons.inj split).2
      exact gone (backs ▸ List.mem_append_right others (List.mem_cons_of_mem _ later))

end Loops

end Body

namespace HoistPlan

variable (plan : HoistPlan) (body other : Body) (var : Var)

theorem live_exact (accepted : body.check = .ok ())
    (solved : body.Solved body.livenessAnalysis (OrderedSet.Over body.usedScope) (Meet.le .union) plan.live) (block : Block)
    (inside : body.blocks.contains block = true) : var ∈ (plan.live.liveIn block).toList ↔ body.IsLive var block := by
  constructor
  · intro live
    exact body.is_live_of_read var block ((Body.mem_live_in body accepted plan.live solved.found block inside var).mp live)
  · intro live
    have covers := plan.planned_covers body accepted solved var
    have edges := (Body.well_formed_of_check body accepted).edges
    induction live with
    | read block reads => exact covers block inside (live_before_mono var False _ _ False.elim reads)
    | onward block succ edge passes _ ih =>
      have later := ih (edges.succInside block succ edge)
      exact covers block inside (live_before_mono var True _ _ (fun _ => ⟨succ, edge, later⟩) passes)

section Moved

variable (frame : body.SameFrame other) (ends : Operation → Prop) (block : Block) (operation : Operation)
  (code : plan.CodeMoved body.operationsIn other.operationsIn ends block operation)

include frame code

theorem unmentioned_live_iff (unread : var ∉ operation.usedVars) (unwritten : operation.def? ≠ some var) (place : Block) :
    other.IsLive var place ↔ body.IsLive var place := by
  have same := code.live_before_iff plan _ _ ends block operation var unread unwritten
  constructor
  · exact other.is_live_mono var body (fun place => (frame.succs place).symm) (fun place after => (same after place).mp) place
  · exact body.is_live_mono var other frame.succs (fun place after => (same after place).mpr) place

theorem outside_live (dominance : Dominance) (natural : Loop.Natural body dominance plan.loop) (edges : body.EdgesAgree)
    (enters : plan.loop.preheader? body = some plan.preheader) (inLoop : block ∈ plan.loop.blocks.toList)
    (preheader : body.IsLive var plan.preheader → other.IsLive var plan.preheader) (place : Block)
    (reached : body.Reaches body.entry place) (outside : place ∉ plan.loop.blocks.toList) (live : body.IsLive var place) :
    other.IsLive var place := by
  have same (place : Block) (apart : place ≠ plan.preheader) (outside : place ∉ plan.loop.blocks.toList) :
      other.operationsIn place = body.operationsIn place :=
    code.elsewhere place apart fun source => outside (source ▸ inLoop)
  induction live with
  | read place reads =>
    by_cases here : place = plan.preheader
    · exact here ▸ preheader (here ▸ .read place reads)
    · exact .read place (same place here outside ▸ reads)
  | onward place succ edge passes later ih =>
    by_cases here : place = plan.preheader
    · exact here ▸ preheader (here ▸ .onward place succ edge passes later)
    · have succOutside : succ ∉ plan.loop.blocks.toList := by
        intro member
        rcases loop_entered body dominance plan.loop natural plan.preheader enters edges place succ reached edge member with
          inside | ⟨_, same⟩
        · exact outside inside
        · exact here same
      refine .onward place succ (frame.succs place ▸ edge) (same place here outside ▸ passes) (ih ?_ succOutside)
      exact body.reaches_succ place succ reached edge

omit frame in
theorem preheader_live_read (used : var ∈ operation.usedVars) (live : body.IsLive var plan.preheader) :
    other.IsLive var plan.preheader := by
  obtain ⟨front, tail, were, are, _⟩ := code.target
  rw [body.is_live_iff, were, live_before_append] at live
  refine .read plan.preheader ?_
  rw [are, live_before_append]
  exact live_before_mono var _ _ front (fun _ => .inl used) live

end Moved

theorem preheader_live_written (block : Block) (operation : Operation)
    (code : plan.CodeMoved body.operationsIn other.operationsIn (var ∉ ·.usedVars) block operation)
    (flows : ∀ succ ∈ body.succs plan.preheader, succ = plan.loop.header) (dead : ¬ body.IsLive var plan.loop.header)
    (live : body.IsLive var plan.preheader) : other.IsLive var plan.preheader := by
  obtain ⟨front, tail, were, are, unread⟩ := code.target
  rw [body.is_live_iff, were, live_before_append] at live
  refine .read plan.preheader ?_
  rw [are, live_before_append]
  refine live_before_mono var _ _ front (fun later => ?_) live
  obtain ⟨succ, edge, atHeader⟩ := live_before_unread var _ tail (fun last member => (unread last member).2) later
  exact (dead (flows succ edge ▸ atHeader)).elim

end HoistPlan

end ThreeAddress
