import ThreeAddress.Flow.Path

/-!
Cutting and extending paths. A path comes apart at every block it passes, and a block that it passes is passed for a
first and for a last time.
-/

set_option autoImplicit false

namespace ThreeAddress.Path

variable {body : Body}

theorem starts (source target : Block) (blocks : List Block) (path : Path body source blocks target) :
    ∃ rest, blocks = source :: rest := by
  cases path <;> exact ⟨_, rfl⟩

theorem ends (source target : Block) (blocks : List Block) (path : Path body source blocks target) :
    ∃ front, blocks = front ++ [target] := by
  induction path with
  | here block => exact ⟨[], rfl⟩
  | step source _ target blocks _ _ ih =>
    obtain ⟨front, whole⟩ := ih
    exact ⟨source :: front, congrArg (source :: ·) whole⟩

theorem cut (source block target : Block) (front back : List Block)
    (path : Path body source (front ++ block :: back) target) :
    Path body source (front ++ [block]) block ∧ Path body block (block :: back) target := by
  induction front generalizing source with
  | nil =>
    obtain rfl : source = block := by cases path <;> rfl
    exact ⟨.here source, path⟩
  | cons first rest ih =>
    generalize whole : (first :: rest) ++ block :: back = blocks at path
    cases path with
    | here => simp at whole
    | step _ succ _ later edge onward =>
      obtain ⟨rfl, rfl⟩ := List.cons.inj whole
      obtain ⟨before, after⟩ := ih succ onward
      exact ⟨.step first succ block (rest ++ [block]) edge before, after⟩

theorem between (source target : Block) (blocks : List Block) (path : Path body source blocks target) (block : Block)
    (member : block ∈ blocks) : body.Reaches source block ∧ body.Reaches block target := by
  obtain ⟨front, back, whole⟩ := List.append_of_mem member
  obtain ⟨upTo, onward⟩ := cut source block target front back (whole ▸ path)
  exact ⟨⟨_, upTo⟩, _, onward⟩

theorem extend (source target succ : Block) (blocks : List Block) (path : Path body source blocks target)
    (edge : succ ∈ body.succs target) : Path body source (blocks ++ [succ]) succ :=
  path.append source target succ blocks [target, succ] (.step target succ succ [succ] edge (.here succ))

theorem first_time (source target block : Block) (blocks : List Block) (path : Path body source blocks target)
    (member : block ∈ blocks) : ∃ front back, blocks = front ++ block :: back ∧ block ∉ front ∧
      Path body source (front ++ [block]) block := by
  obtain ⟨front, back, whole, fresh⟩ := List.eq_append_cons_of_mem member
  exact ⟨front, back, whole, fresh, (cut source block target front back (whole ▸ path)).1⟩

theorem last_time (source target block : Block) (blocks : List Block) (path : Path body source blocks target)
    (member : block ∈ blocks) : ∃ front back, blocks = front ++ block :: back ∧ block ∉ back ∧
      Path body block (block :: back) target := by
  obtain ⟨back, front, whole, gone⟩ := List.eq_append_cons_of_mem (List.mem_reverse.mpr member)
  have turned : blocks = front.reverse ++ block :: back.reverse := by
    rw [← List.reverse_reverse blocks, whole, List.reverse_append, List.reverse_cons, List.append_assoc]
    rfl
  refine ⟨front.reverse, back.reverse, turned, fun later => gone (List.mem_reverse.mp later), ?_⟩
  exact (cut source block target front.reverse back.reverse (turned ▸ path)).2

theorem last_edge (source target : Block) (front : List Block) (path : Path body source (front ++ [target]) target)
    (apart : target ≠ source) : ∃ early pred, front = early ++ [pred] ∧ target ∈ body.succs pred ∧
      Path body source front pred := by
  rcases List.eq_nil_or_concat front with none | ⟨early, pred, whole⟩
  · subst none
    cases path with
    | here => exact (apart rfl).elim
    | step _ _ _ _ _ onward => cases onward
  · rw [List.concat_eq_append] at whole
    subst whole
    rw [List.append_assoc] at path
    obtain ⟨before, after⟩ := cut source pred target early [target] path
    cases after with
    | step _ succ _ _ edge onward =>
      have same : succ = target := by cases onward <;> rfl
      exact ⟨early, pred, rfl, same ▸ edge, before⟩

end ThreeAddress.Path
