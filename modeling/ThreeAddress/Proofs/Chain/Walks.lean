import ThreeAddress.Proofs.Chain.Linked

/-!
Walking a chain from both ends in any order. What is left to visit is always a linked run between the walk's two
ends; a step takes its first or its last member off. So the members met in front, then those still left, then
those met at the back from the last one on are the list.
-/

set_option autoImplicit false

namespace ThreeAddress

namespace Walk

inductive Side where
  | front
  | back

def pull (cells : Cells) (walk : Walk) : Side → Except Fault (Option Inst × Walk)
  | .front => walk.next cells
  | .back => walk.nextBack cells

-- The members met in front and those met at the back, each in the order in which they were met.
def pulls (cells : Cells) : Walk → List Side → Except Fault (List Inst × List Inst × Walk)
  | walk, [] => .ok ([], [], walk)
  | walk, side :: rest => do
      let (met, walk) ← walk.pull cells side
      let (fronts, backs, last) ← pulls cells walk rest
      match side with
      | .front => return (met.toList ++ fronts, backs, last)
      | .back => return (fronts, met.toList ++ backs, last)

structure Spans (cells : Cells) (walk : Walk) (before : Inst) (insts : List Inst) (after : Inst) : Prop where
  linked : Linked cells before insts after
  front : walk.front = insts.headD after
  back : walk.back = insts.getLastD before
  remaining : walk.remaining = insts.length

variable (cells : Cells) (walk : Walk) (before after inst : Inst) (insts : List Inst)

theorem pull_nil (side : Side) (spans : Spans cells walk before [] after) : walk.pull cells side = .ok (none, walk) := by
  cases side <;> simp only [pull, next, nextBack, spans.remaining, List.length_nil]

theorem next_spans (spans : Spans cells walk before (inst :: insts) after) :
    ∃ rest, walk.pull cells .front = .ok (some inst, rest) ∧ Spans cells rest inst insts after := by
  obtain ⟨here, linked⟩ := spans.linked
  obtain ⟨cell, found, _, next⟩ := (links_some_iff cells inst before _).mp here
  refine ⟨⟨cell.next, walk.back, insts.length⟩, ?_, ⟨linked, next, ?_, rfl⟩⟩
  · simp only [pull, Walk.next, spans.remaining, List.length_cons, spans.front, List.headD_cons, Arena.get, found, bind,
      Except.bind]
    rfl
  · rw [spans.back, List.getLastD_cons]

theorem next_back_spans (spans : Spans cells walk before (insts ++ [inst]) after) :
    ∃ rest, walk.pull cells .back = .ok (some inst, rest) ∧ Spans cells rest before insts inst := by
  obtain ⟨linked, here, _⟩ := (linked_append cells before after insts [inst]).mp spans.linked
  obtain ⟨cell, found, prev, _⟩ := (links_some_iff cells inst _ _).mp here
  refine ⟨⟨walk.front, cell.prev, insts.length⟩, ?_, ⟨linked, ?_, prev, rfl⟩⟩
  · simp only [pull, nextBack, spans.remaining, List.length_append, List.length_singleton, spans.back,
      List.getLastD_concat, Arena.get, found, bind, Except.bind]
    rfl
  · rw [spans.front]
    cases insts <;> rfl

theorem pulls_split (sides : List Side) (spans : Spans cells walk before insts after) :
    ∃ fronts middle backs rest, walk.pulls cells sides = .ok (fronts, backs, rest) ∧
      insts = fronts ++ middle ++ backs.reverse ∧ rest.remaining = middle.length ∧
      middle.length = insts.length - sides.length := by
  induction sides generalizing walk before insts after with
  | nil => exact ⟨[], insts, [], walk, rfl, by simp, spans.remaining, rfl⟩
  | cons side sides ih =>
    by_cases none : insts = []
    · subst none
      obtain ⟨fronts, middle, backs, rest, ran, split, remaining, length⟩ := ih walk before after [] spans
      refine ⟨fronts, middle, backs, rest, ?_, split, remaining, by simpa using length⟩
      simp only [pulls, pull_nil cells walk before after side spans, ran, bind, Except.bind]
      cases side <;> rfl
    cases side with
    | front =>
      obtain ⟨inst, others, rfl⟩ := List.exists_cons_of_ne_nil none
      obtain ⟨later, met, laterSpans⟩ := next_spans cells walk before after inst others spans
      obtain ⟨fronts, middle, backs, rest, ran, split, remaining, length⟩ := ih later inst after others laterSpans
      refine ⟨inst :: fronts, middle, backs, rest, ?_, congrArg (inst :: ·) split, remaining, by simpa using length⟩
      simp only [pulls, met, ran, bind, Except.bind]
      rfl
    | back =>
      obtain ⟨others, inst, rfl⟩ := (List.eq_nil_or_concat insts).resolve_left none
      rw [List.concat_eq_append] at spans ⊢
      obtain ⟨later, met, laterSpans⟩ := next_back_spans cells walk before after inst others spans
      obtain ⟨fronts, middle, backs, rest, ran, split, remaining, length⟩ := ih later before inst others laterSpans
      refine ⟨fronts, middle, inst :: backs, rest, ?_, ?_, remaining, by simpa using length⟩
      · simp only [pulls, met, ran, bind, Except.bind]
        rfl
      · rw [split, List.reverse_cons, List.append_assoc, List.append_assoc]

end Walk

theorem Chain.walk_spans (chain : Chain) (cells : Cells) (insts : List Inst) (holds : chain.Holds cells insts) :
    Walk.Spans cells chain.walk .invalid insts .invalid :=
  ⟨holds.linked, holds.head, holds.tail, holds.size⟩

end ThreeAddress
