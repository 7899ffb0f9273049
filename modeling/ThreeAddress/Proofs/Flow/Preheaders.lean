import ThreeAddress.Proofs.Flow.DominatorTree

/-!
What a preheader promises. Control enters a loop with a preheader from there only, and from there it goes nowhere else;
so the preheader is passed once for each time the loop is entered. This fails for a loop that starts the body: it is
entered before anything else runs, and no path leads to its preheader.
-/

set_option autoImplicit false

namespace ThreeAddress

def Loop.entrances (loop : Loop) : Option Block → List Block → List (Option Block × Block)
  | _, [] => []
  | before, block :: rest =>
      (if loop.contains block && !before.any loop.contains then [(before, block)] else []) ++ loop.entrances (some block) rest

namespace Body

variable (body : Body) (accepted : body.check = .ok ()) (dominance : Dominance)
  (solved : body.Solved body.dominatorAnalysis (OrderedSet.Over body.blocks.refs) (Meet.le .intersection) dominance.facts)
  (loop : Loop) (natural : Loop.Natural body dominance loop)

section Header

include accepted solved natural

theorem header_dominates (block : Block) (member : block ∈ loop.blocks.toList) : body.Dominates loop.header block := by
  by_cases same : block = loop.header
  · exact same ▸ body.dominates_refl block
  · obtain ⟨latch, path, latched, onward, avoids⟩ := natural.returns block (.inl member) same
    intro upTo leads
    have whole := leads.append body.entry block latch upTo path onward
    have met := dominator_met body accepted dominance solved loop.header latch latched _ whole
    exact (List.mem_append.mp met).resolve_right fun later => avoids (List.mem_of_mem_tail later)

end Header

section Preheader

variable (pre : Block) (enters : loop.preheader? body = some pre)

include accepted natural enters

theorem entrances_onward (source target : Block) (path : List Block) (leads : Path body source path target)
    (reached : body.Reaches body.entry source) :
    loop.entrances (some source) path.tail = List.replicate (path.dropLast.count pre) (some pre, loop.header) := by
  have edges := (well_formed_of_check body accepted).edges
  obtain ⟨_, outside, _, flows⟩ := Loop.preheader_spec body loop pre enters
  have header : loop.contains loop.header = true := (OrderedSet.contains_iff _ natural.sound _).mpr natural.entered
  induction leads with
  | here => rfl
  | step source succ target path edge onward ih =>
    have later := ih (body.reaches_succ source succ reached edge)
    obtain ⟨rest, rfl⟩ := onward.starts
    rw [List.tail_cons] at later ⊢
    rw [Loop.entrances, later, List.dropLast_cons_cons]
    by_cases fromPre : source = pre
    · have same := flows succ (fromPre ▸ edge)
      rw [fromPre, same, List.count_cons_self, header, Option.any_some, outside]
      exact List.replicate_succ.symm
    · have stays : (loop.contains succ && !(some source).any loop.contains) = false := by
        by_contra entered
        obtain ⟨inside, away⟩ := Bool.and_eq_true_iff.mp (Bool.eq_true_of_not_eq_false entered)
        rcases loop_entered body dominance loop natural pre enters edges source succ reached edge
          ((OrderedSet.contains_iff _ natural.sound succ).mp inside) with inLoop | ⟨_, same⟩
        · have known : loop.contains source = true := (OrderedSet.contains_iff _ natural.sound source).mpr inLoop
          rw [Option.any_some, known] at away
          cases away
        · exact fromPre same
      rw [stays, List.count_cons_of_ne fromPre]
      rfl

include solved

-- The header is met for the first time on an edge from outside, and only the preheader has one.
theorem preheader_dominates (apart : loop.header ≠ body.entry) (block : Block) (member : block ∈ loop.blocks.toList) :
    body.Dominates pre block := by
  have edges := (well_formed_of_check body accepted).edges
  apply body.dominates_trans pre loop.header block _ (body.header_dominates accepted dominance solved loop natural block member)
  intro path leads
  obtain ⟨front, back, whole, fresh, upTo⟩ := leads.first_time body.entry loop.header loop.header path
    (leads.target_mem body.entry loop.header path)
  obtain ⟨early, pred, split, edge, before⟩ := upTo.last_edge body.entry loop.header front apart
  rcases loop_entered body dominance loop natural pre enters edges pred loop.header ⟨front, before⟩ edge natural.entered with
    inLoop | ⟨_, same⟩
  · exact (fresh (body.header_dominates accepted dominance solved loop natural pred inLoop front before)).elim
  · rw [whole, split, same]
    exact List.mem_append_left _ (List.mem_append_right early List.mem_cons_self)

theorem preheader_dominates_iff :
    (∀ block ∈ loop.blocks.toList, body.Dominates pre block) ↔ loop.header ≠ body.entry := by
  refine ⟨fun all starts => ?_, fun apart => body.preheader_dominates accepted dominance solved loop natural pre enters apart⟩
  obtain ⟨_, outside, _⟩ := Loop.preheader_spec body loop pre enters
  have same := body.dominates_entry pre (starts ▸ all loop.header natural.entered)
  exact (OrderedSet.contains_eq_false_iff _ natural.sound pre).mp outside (same.trans starts.symm ▸ natural.entered)

theorem entrances_along (path : List Block) (target : Block) (leads : Path body body.entry path target) :
    loop.entrances none path = (if loop.header = body.entry then [(none, loop.header)] else []) ++
      List.replicate (path.dropLast.count pre) (some pre, loop.header) := by
  obtain ⟨rest, rfl⟩ := leads.starts
  have onward := body.entrances_onward accepted dominance loop natural pre enters body.entry target _ leads
    (reaches_self body body.entry)
  rw [List.tail_cons] at onward
  rw [Loop.entrances, onward]
  by_cases starts : loop.header = body.entry
  · have inside : loop.contains body.entry = true := (OrderedSet.contains_iff _ natural.sound _).mpr (starts ▸ natural.entered)
    rw [inside, if_pos starts, starts]
    rfl
  · have away : loop.contains body.entry = false := (OrderedSet.contains_eq_false_iff _ natural.sound _).mpr
      (entry_outside body accepted dominance solved loop natural starts)
    rw [away, if_neg starts]
    rfl

theorem preheader_reached_iff (describes : dominance.order.Describes body) (member : loop ∈ body.loops dominance) :
    body.Reaches body.entry pre ↔ loop.header ≠ body.entry := by
  have wellFormed := well_formed_of_check body accepted
  obtain ⟨closed, _, latches⟩ := loops_listed body dominance wellFormed.edges describes loop member
  obtain ⟨pred, outside, _⟩ := Loop.preheader_spec body loop pre enters
  refine ⟨fun reached starts => ?_, fun apart => ?_⟩
  · have inside := reaches_inside body wellFormed.edges body.entry pre wellFormed.entry reached
    have above := (body.dominates_iff accepted dominance solved loop.header pre inside).mpr
      ⟨starts ▸ wellFormed.entry, starts ▸ body.entry_dominates pre⟩
    have edge := (edges_mem_iff body wellFormed.edges pre loop.header).mpr pred
    have inLoop := closed.latched pre ((latches pre).mpr ⟨reached, edge, above⟩)
    exact (OrderedSet.contains_eq_false_iff _ natural.sound pre).mp outside inLoop
  · have reached := closed.reached loop.header natural.entered
    exact body.dominator_reached pre loop.header reached
      (body.preheader_dominates accepted dominance solved loop natural pre enters apart loop.header natural.entered)

end Preheader

-- A preheader is outside its loop. It is reached, and dominates the loop, just if the header is not the entry of the body;
-- and then every step into the loop goes from it to the header, and each passage of it is followed by one. A loop whose
-- header is the entry is entered once, where the path starts, and nothing has run by then.
theorem preheaders_precede_loops (body : Body) (accepted : body.check = .ok ()) :
    ∃ dominance, body.dominance = .ok dominance ∧ ∀ loop ∈ body.loops dominance, ∀ pre, loop.preheader? body = some pre →
      loop.contains pre = false ∧
      (body.Reaches body.entry pre ↔ loop.header ≠ body.entry) ∧
      ((∀ block ∈ loop.blocks.toList, body.Dominates pre block) ↔ loop.header ≠ body.entry) ∧
      ∀ path target, Path body body.entry path target →
        loop.entrances none path = (if loop.header = body.entry then [(none, loop.header)] else []) ++
          List.replicate (path.dropLast.count pre) (some pre, loop.header) := by
  obtain ⟨dominance, computed, solved, describes⟩ := body.dominance_total accepted
  refine ⟨dominance, computed, fun loop member pre enters => ?_⟩
  have natural := loops_natural body dominance (well_formed_of_check body accepted).edges describes loop member
  exact ⟨(Loop.preheader_spec body loop pre enters).2.1,
    body.preheader_reached_iff accepted dominance solved loop natural pre enters describes member,
    body.preheader_dominates_iff accepted dominance solved loop natural pre enters,
    body.entrances_along accepted dominance solved loop natural pre enters⟩

-- One loop in another. The inner one is entered anew each time round the outer one.
def nest : Body where
  name := "nest"
  entry := .nth 0
  blocks := .ofList [
    { succs := [.nth 1] },
    { succs := [.nth 2, .nth 5], preds := [.nth 0, .nth 4] },
    { succs := [.nth 3], preds := [.nth 1] },
    { succs := [.nth 3, .nth 4], preds := [.nth 2, .nth 3] },
    { succs := [.nth 1], preds := [.nth 3] },
    { preds := [.nth 1] }]
  cells := .empty
  vars := .empty

theorem nest_preheaders : nest.check = .ok () ∧ ∃ dominance, nest.dominance = .ok dominance ∧
    ∃ inner ∈ nest.loops dominance, inner.preheader? nest = some (.nth 2) ∧ inner.header = .nth 3 ∧
      nest.Reaches nest.entry (.nth 2) ∧ nest.Dominates (.nth 2) (.nth 3) ∧
      ∀ path target, Path nest nest.entry path target →
        inner.entrances none path = List.replicate (path.dropLast.count (.nth 2)) (some (.nth 2), .nth 3) := by
  have accepted : nest.check = .ok () := by rfl
  obtain ⟨dominance, found, promise⟩ := preheaders_precede_loops nest accepted
  have computed : nest.dominance.toOption.map (fun dominance =>
      (nest.loops dominance).head?.map fun loop => (loop.header, loop.preheader? nest, loop.blocks.toList)) =
      some (some (.nth 3, some (.nth 2), [.nth 3])) := by decide +kernel
  rw [found] at computed
  obtain ⟨inner, first, same⟩ := Option.map_eq_some_iff.mp (Option.some.inj computed)
  obtain ⟨header, rest⟩ := Prod.mk.inj same
  obtain ⟨enters, blocks⟩ := Prod.mk.inj rest
  have member := List.mem_of_head? first
  have apart : inner.header ≠ nest.entry := by rw [header]; decide
  obtain ⟨_, reached, dominates, entrances⟩ := promise inner member (.nth 2) enters
  have inside : .nth 3 ∈ inner.blocks.toList := by rw [blocks]; exact List.mem_cons_self
  refine ⟨accepted, dominance, found, inner, member, enters, header, reached.mpr apart, dominates.mpr apart _ inside, ?_⟩
  intro path target leads
  rw [entrances path target leads, if_neg apart, header]
  rfl

-- The loop is the entry itself, and the only other block leads to it but is not reached.
def headless : Body where
  name := "headless"
  entry := .nth 0
  blocks := .ofList [
    { succs := [.nth 0], preds := [.nth 0, .nth 1] },
    { succs := [.nth 0] }]
  cells := .empty
  vars := .empty

theorem headless_preheader_unreached : headless.check = .ok () ∧ ∃ dominance, headless.dominance = .ok dominance ∧
    ∃ loop ∈ headless.loops dominance, loop.preheader? headless = some (.nth 1) ∧
      ¬ headless.Reaches headless.entry (.nth 1) ∧ Path headless headless.entry [.nth 0] (.nth 0) ∧
      loop.entrances none [.nth 0] = [(none, .nth 0)] := by
  have accepted : headless.check = .ok () := by rfl
  obtain ⟨dominance, found, _, describes⟩ := headless.dominance_total accepted
  have computed : headless.dominance.toOption.map (fun dominance =>
      ((headless.loops dominance).head?.map fun loop => (loop.preheader? headless, loop.contains (.nth 0)),
        dominance.order.isReachable (.nth 1))) = some (some (some (.nth 1), true), false) := by decide +kernel
  rw [found] at computed
  obtain ⟨loops, unreached⟩ := Prod.mk.inj (Option.some.inj computed)
  obtain ⟨loop, first, same⟩ := Option.map_eq_some_iff.mp loops
  obtain ⟨enters, holds⟩ := Prod.mk.inj same
  refine ⟨accepted, dominance, found, loop, List.mem_of_head? first, enters, fun reached => ?_, .here _, ?_⟩
  · rw [(describes.reachable (.nth 1) rfl).mpr reached] at unreached
    cases unreached
  · rw [Loop.entrances, holds]
    rfl

end Body

end ThreeAddress
