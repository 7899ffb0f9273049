import ThreeAddress.Proofs.Flow.Search

/-!
Depth-first search by recursion, and the loop with an explicit stack that stands for it. A frame of the stack is a call
that has not come back: from the frame that begins to try some blocks, the loop comes to the same frame with nothing left
to try, and in between it has marked and left what the recursion marks and leaves.
-/

set_option autoImplicit false

namespace ThreeAddress.Postorder

variable (graph : Arena .block (List Block))

theorem closed_iff : Closed graph ↔ ∀ succs ∈ graph.toList, ∀ target ∈ succs, graph.contains target = true := by
  constructor
  · intro closed succs listed target member
    obtain ⟨index, bound, rfl⟩ := List.mem_iff_getElem.mp listed
    exact closed (.nth index) target ⟨_, by simp [Arena.get?, Arena.toList], member⟩
  · rintro all source target ⟨succs, found, member⟩
    cases source with
    | invalid => cases found
    | nth index => exact all succs (Array.mem_toList_iff.mpr (Array.mem_of_getElem? found)) target member

instance : Decidable (Closed graph) := decidable_of_iff _ (closed_iff graph).symm

-- What a search that began with some blocks marked comes back with: the blocks marked by then, and those left on the way,
-- in the order in which they were left.
structure Exploration (seen : List Block) where
  marked : List Block
  left : List Block
  grows : seen ⊆ marked

def unmarked (seen : List Block) : Nat := graph.refs.countP fun block => !seen.contains block

theorem unmarked_le (seen marked : List Block) (grows : seen ⊆ marked) : unmarked graph marked ≤ unmarked graph seen := by
  refine List.countP_mono_left fun block _ fresh => ?_
  simp only [Bool.not_eq_true', ← Bool.not_eq_true, List.contains_iff_mem] at fresh ⊢
  exact fun member => fresh (grows member)

theorem unmarked_lt (seen : List Block) (block : Block) (inside : graph.contains block = true) (fresh : block ∉ seen) :
    unmarked graph (block :: seen) < unmarked graph seen := by
  obtain ⟨front, back, whole⟩ := List.append_of_mem ((Arena.mem_refs_iff graph block).mpr inside)
  have fewer (part : List Block) : (part.countP fun other => !(block :: seen).contains other) ≤
      part.countP fun other => !seen.contains other := by
    refine List.countP_mono_left fun other _ absent => ?_
    simp only [Bool.not_eq_true', ← Bool.not_eq_true, List.contains_iff_mem] at absent ⊢
    exact fun member => absent (List.mem_cons_of_mem block member)
  have before := fewer front
  have after := fewer back
  rw [unmarked, unmarked, whole, List.countP_append, List.countP_append, List.countP_cons_of_neg (by simp),
    List.countP_cons_of_pos (by simpa using fresh)]
  omega

def explore (seen : List Block) : List Block → Exploration seen
  | [] => ⟨seen, [], List.Subset.refl seen⟩
  | block :: rest =>
      if seen.contains block then explore seen rest
      else
        let inner := explore (block :: seen) ((graph.get? block).getD [])
        let outer := explore inner.marked rest
        ⟨outer.marked, inner.left ++ block :: outer.left,
          fun _ member => outer.grows (inner.grows (List.mem_cons_of_mem block member))⟩
termination_by blocks => (unmarked graph seen, blocks.length)
decreasing_by
  · exact Prod.Lex.right _ (Nat.lt_succ_self _)
  · rename_i fresh
    cases found : graph.get? block with
    | none => exact Prod.Lex.right' _ (unmarked_le graph _ _ (List.subset_cons_self block seen)) (Nat.succ_pos _)
    | some succs => exact Prod.Lex.left _ _ (unmarked_lt graph seen block (Arena.contains_of_get _ _ _ found) (by simpa using fresh))
  · exact Prod.Lex.right' _ (unmarked_le graph _ _ fun _ member => inner.grows (List.mem_cons_of_mem block member))
      (Nat.lt_succ_self _)

def depthFirst (entry : Block) : List Block := (explore graph [] [entry]).left

variable {graph}

theorem explore_marked (seen rest : List Block) (block : Block) (known : block ∈ seen) :
    explore graph seen (block :: rest) = explore graph seen rest := by
  rw [explore, if_pos (List.contains_iff_mem.mpr known)]

theorem explore_fresh (seen rest : List Block) (block : Block) (fresh : block ∉ seen) :
    let inner := explore graph (block :: seen) ((graph.get? block).getD [])
    (explore graph seen (block :: rest)).marked = (explore graph inner.marked rest).marked ∧
      (explore graph seen (block :: rest)).left = inner.left ++ block :: (explore graph inner.marked rest).left := by
  rw [explore, if_neg (mt List.contains_iff_mem.mp fresh)]
  exact ⟨rfl, rfl⟩

theorem depth_first_eq (entry : Block) :
    depthFirst graph entry = (explore graph [entry] ((graph.get? entry).getD [])).left ++ [entry] := by
  rw [depthFirst, (explore_fresh [] [] entry List.not_mem_nil).2]
  simp only [explore]

theorem get_get_d (block : Block) (inside : graph.contains block = true) :
    graph.get? block = some ((graph.get? block).getD []) := by
  obtain ⟨succs, found⟩ := (Arena.contains_iff _ _).mp inside
  rw [found, Option.getD_some]

def Marks (graph : Arena .block (List Block)) (table : SideTable .block Bool) (seen : List Block) : Prop :=
  ∀ block, graph.contains block = true → (table.read block = true ↔ block ∈ seen)

theorem marks_write (table : SideTable .block Bool) (seen : List Block) (block : Block) (inside : graph.contains block = true)
    (marks : Marks graph table seen) : Marks graph (table.write block true) (block :: seen) := by
  intro other otherInside
  rw [read_write_valid table block other true inside otherInside, List.mem_cons, ← marks other otherInside]
  by_cases same : other = block <;> simp [same]

theorem visit_add (steps extra : Nat) (stack : List Frame) (table : SideTable .block Bool) (left order : List Block)
    (done : visit graph steps stack table left = .ok order) : visit graph (steps + extra) stack table left = .ok order := by
  fun_induction visit graph steps stack table left with
  | case1 steps table left => simpa [visit] using done
  | case2 frame stack table left => cases done
  | case3 steps block stack table left ih =>
    rw [Nat.succ_add]
    exact ih done
  | case4 steps block succ rest stack table left known ih =>
    rw [Nat.succ_add, visit, if_pos known]
    exact ih done
  | case5 steps block succ rest stack table left unknown ih =>
    rw [Nat.succ_add, visit, if_neg unknown]
    obtain ⟨succs, found, onward⟩ := (bind_ok_iff _ _ _).mp done
    rw [found]
    exact ih succs onward

theorem visit_known (steps : Nat) (parent block : Block) (rest : List Block) (stack : List Frame)
    (table : SideTable .block Bool) (left : List Block) (known : table.read block = true) :
    visit graph (steps + 1) (⟨parent, block :: rest⟩ :: stack) table left =
      visit graph steps (⟨parent, rest⟩ :: stack) table left := by
  rw [visit, if_pos known]

theorem visit_unknown (steps : Nat) (parent block : Block) (rest : List Block) (stack : List Frame)
    (table : SideTable .block Bool) (left : List Block) (inside : graph.contains block = true)
    (unknown : ¬ table.read block = true) :
    visit graph (steps + 1) (⟨parent, block :: rest⟩ :: stack) table left =
      visit graph steps (⟨block, (graph.get? block).getD []⟩ :: ⟨parent, rest⟩ :: stack) (table.write block true) left := by
  rw [visit, if_neg unknown, Arena.get_of_get _ _ _ (get_get_d block inside)]
  rfl

theorem visit_explores (closed : Closed graph) (seen blocks : List Block)
    (inside : ∀ block ∈ blocks, graph.contains block = true) (parent : Block) (stack : List Frame)
    (table : SideTable .block Bool) (left : List Block) (marks : Marks graph table seen) :
    ∃ cost after, Marks graph after (explore graph seen blocks).marked ∧
      ∀ steps, visit graph (steps + cost) (⟨parent, blocks⟩ :: stack) table left =
        visit graph steps (⟨parent, []⟩ :: stack) after ((explore graph seen blocks).left.reverse ++ left) := by
  -- An inner call runs on top of the frame that made it, which then goes on.
  induction seen, blocks using explore.induct graph generalizing parent stack table left with
  | case1 seen =>
    refine ⟨0, table, ?_, fun steps => ?_⟩
    · simpa only [explore] using marks
    · simp [explore]
  | case2 seen block rest known ih =>
    have known := List.contains_iff_mem.mp known
    obtain ⟨blockInside, restInside⟩ := List.forall_mem_cons.mp inside
    obtain ⟨cost, after, afterMarks, runs⟩ := ih restInside parent stack table left marks
    rw [explore_marked seen rest block known]
    refine ⟨cost + 1, after, afterMarks, fun steps => ?_⟩
    rw [← Nat.add_assoc, visit_known _ parent block rest stack table left ((marks block blockInside).mpr known)]
    exact runs steps
  | case3 seen block rest fresh inner innerIh outerIh =>
    have fresh := mt List.contains_iff_mem.mpr fresh
    obtain ⟨blockInside, restInside⟩ := List.forall_mem_cons.mp inside
    obtain ⟨innerCost, between, betweenMarks, nested⟩ :=
      innerIh (fun succ member => closed block succ ⟨_, get_get_d block blockInside, member⟩) block (⟨parent, rest⟩ :: stack)
        (table.write block true) left (marks_write table seen block blockInside marks)
    obtain ⟨outerCost, after, afterMarks, onward⟩ := outerIh restInside parent stack between
      (block :: (inner.left.reverse ++ left)) betweenMarks
    obtain ⟨wholeMarks, wholeLeft⟩ := explore_fresh seen rest block fresh
    rw [wholeMarks, wholeLeft]
    refine ⟨outerCost + 1 + innerCost + 1, after, afterMarks, fun steps => ?_⟩
    rw [show steps + (outerCost + 1 + innerCost + 1) = steps + outerCost + 1 + innerCost + 1 by omega,
      visit_unknown _ parent block rest stack table left blockInside (mt (marks block blockInside).mp fresh), nested, visit,
      onward]
    simp only [inner, List.reverse_append, List.reverse_cons, List.append_assoc, List.cons_append, List.nil_append]

theorem compute_eq (closed : Closed graph) (entry : Block) (inside : graph.contains entry = true) (order : List Block)
    (computed : compute graph entry = .ok order) : order = depthFirst graph entry := by
  have found := get_get_d entry inside
  have marks : Marks graph ((SideTable.blank false).write entry true) [entry] :=
    marks_write _ [] entry inside fun block _ => by simp [SideTable.read_blank]
  obtain ⟨cost, after, _, runs⟩ := visit_explores closed [entry] _
    (fun succ member => closed entry succ ⟨_, found, member⟩) entry [] _ [] marks
  rw [compute, Arena.get_of_get _ _ _ found] at computed
  -- Both runs of the loop are brought to the same number of steps.
  have longer := visit_add (steps graph) (1 + cost) _ _ _ order computed
  rw [← Nat.add_assoc, runs (steps graph + 1), visit] at longer
  simp only [visit, List.append_nil, List.reverse_cons, List.reverse_reverse, Except.ok.injEq] at longer
  rw [← longer, depth_first_eq]

theorem postorder_is_recursive (graph : Arena .block (List Block)) (entry : Block) (closed : Closed graph)
    (inside : graph.contains entry = true) :
    compute graph entry = .ok (depthFirst graph entry) ∧ (depthFirst graph entry).Nodup ∧
      (∀ block, block ∈ depthFirst graph entry ↔ Relation.ReflTransGen (Edge graph) entry block) ∧
      (depthFirst graph entry).getLast? = some entry := by
  obtain ⟨order, computed, once, members⟩ := compute_total closed inside
  obtain rfl : order = depthFirst graph entry := compute_eq closed entry inside order computed
  refine ⟨computed, once, members, ?_⟩
  rw [depth_first_eq, List.getLast?_concat]

-- Edges that are listed twice, lead back or stay where they are, and a block that nothing leads to.
def coil : Arena .block (List Block) :=
  .ofList [[.nth 1, .nth 1, .nth 2], [.nth 1, .nth 3, .nth 0], [.nth 3, .nth 2], [.nth 1], [.nth 0]]

theorem coil_postorder_recursive : Closed coil ∧ coil.contains (.nth 0) = true ∧
    depthFirst coil (.nth 0) = [.nth 3, .nth 1, .nth 2, .nth 0] ∧ ¬ Relation.ReflTransGen (Edge coil) (.nth 0) (.nth 4) := by
  have closed : Closed coil := by decide
  obtain ⟨computed, _, members, _⟩ := postorder_is_recursive coil (.nth 0) closed rfl
  have order : depthFirst coil (.nth 0) = [.nth 3, .nth 1, .nth 2, .nth 0] := Except.ok.inj (computed.symm.trans rfl)
  refine ⟨closed, rfl, order, fun leads => ?_⟩
  have listed := (members (.nth 4)).mpr leads
  rw [order] at listed
  exact absurd listed (by decide)

end ThreeAddress.Postorder
