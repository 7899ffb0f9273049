import Mathlib.Logic.Function.Basic
import ThreeAddress.Proofs.Dataflow.Laws
import ThreeAddress.Proofs.Flow.Reachability

/-!
What the worklist keeps, in whatever order the waiting blocks are taken: a block that does not wait has
facts that fit those of its neighbours.
-/

set_option autoImplicit false

namespace ThreeAddress

variable {φ : Type}

structure BlockFacts.Fits (facts : BlockFacts φ) (body : Body) : Prop where
  entries : facts.atEntry.size = body.blocks.size
  exits : facts.atExit.size = body.blocks.size

theorem Arena.contains_of_size {entity : Entity} {α β : Type} (arena : Arena entity α) (other : Arena entity β)
    (same : arena.size = other.size) (ref : Ref entity) : arena.contains ref = other.contains ref := by
  cases ref with
  | invalid => rfl
  | nth index =>
    simp only [size] at same
    simp only [contains, same]

theorem Arena.get_d_put {entity : Entity} {α : Type} (arena : Arena entity α) (default value : α) (ref : Ref entity)
    (inside : arena.contains ref = true) :
    (fun other => ((arena.put ref value).get? other).getD default) =
      Function.update (fun other => (arena.get? other).getD default) ref value := by
  funext other
  rw [Arena.get_put arena ref other value inside]
  by_cases same : ref = other
  · subst same
    simp
  · rw [if_neg same, Function.update_of_ne (Ne.symm same)]

namespace Solver

def inflow (analysis : Analysis φ) (facts : BlockFacts φ) (block : Block) : φ :=
  match analysis.direction with
  | .forward => (facts.atEntry.get? block).getD analysis.init
  | .backward => (facts.atExit.get? block).getD analysis.init

section Stores

variable (analysis : Analysis φ) (body : Body) (facts : BlockFacts φ) (fits : facts.Fits body) (block : Block)
  (inside : body.blocks.contains block = true) (fact : φ)

theorem outgoing_store_incoming : outgoing analysis (storeIncoming analysis facts block fact) = outgoing analysis facts := by
  funext other
  unfold outgoing storeIncoming
  cases analysis.direction <;> rfl

theorem inflow_store_outgoing : inflow analysis (storeOutgoing analysis facts block fact) = inflow analysis facts := by
  funext other
  unfold inflow storeOutgoing
  cases analysis.direction <;> rfl

include fits

theorem store_incoming_fits : (storeIncoming analysis facts block fact).Fits body := by
  unfold storeIncoming
  cases analysis.direction with
  | forward => exact ⟨(Arena.size_put _ _ _).trans fits.entries, fits.exits⟩
  | backward => exact ⟨fits.entries, (Arena.size_put _ _ _).trans fits.exits⟩

theorem store_outgoing_fits : (storeOutgoing analysis facts block fact).Fits body := by
  unfold storeOutgoing
  cases analysis.direction with
  | forward => exact ⟨fits.entries, (Arena.size_put _ _ _).trans fits.exits⟩
  | backward => exact ⟨(Arena.size_put _ _ _).trans fits.entries, fits.exits⟩

include inside

theorem inflow_store_incoming :
    inflow analysis (storeIncoming analysis facts block fact) = Function.update (inflow analysis facts) block fact := by
  unfold inflow storeIncoming
  cases analysis.direction with
  | forward => exact Arena.get_d_put _ _ _ _ ((Arena.contains_of_size _ _ fits.entries block).trans inside)
  | backward => exact Arena.get_d_put _ _ _ _ ((Arena.contains_of_size _ _ fits.exits block).trans inside)

theorem outgoing_store_outgoing :
    outgoing analysis (storeOutgoing analysis facts block fact) =
      Function.update (outgoing analysis facts) block fact := by
  unfold outgoing storeOutgoing
  cases analysis.direction with
  | forward => exact Arena.get_d_put _ _ _ _ ((Arena.contains_of_size _ _ fits.exits block).trans inside)
  | backward => exact Arena.get_d_put _ _ _ _ ((Arena.contains_of_size _ _ fits.entries block).trans inside)

end Stores

theorem mem_enqueue (queue : List Block) (block other : Block) : other ∈ enqueue queue block ↔ other ∈ queue ∨ other = block := by
  unfold enqueue
  by_cases waits : queue.contains block = true
  · rw [if_pos waits]
    have member := List.contains_iff_mem.mp waits
    exact ⟨.inl, fun either => either.elim id fun same => same ▸ member⟩
  · rw [if_neg waits]
    simp

theorem mem_enqueue_all (queue blocks : List Block) (other : Block) :
    other ∈ blocks.foldl enqueue queue ↔ other ∈ queue ∨ other ∈ blocks := by
  induction blocks generalizing queue with
  | nil => simp
  | cons block rest ih => rw [List.foldl_cons, ih, mem_enqueue, List.mem_cons, or_assoc]

theorem nodup_enqueue_all (queue blocks : List Block) (once : queue.Nodup) : (blocks.foldl enqueue queue).Nodup := by
  induction blocks generalizing queue with
  | nil => exact once
  | cons block rest ih =>
    apply ih
    unfold enqueue
    by_cases waits : queue.contains block = true
    · rwa [if_pos waits]
    · rw [if_neg waits]
      have fresh : block ∉ queue := fun member => waits (List.contains_iff_mem.mpr member)
      exact (List.nodup_cons.mpr ⟨fresh, once⟩).perm (List.perm_append_singleton block queue).symm

-- What a visit does: it either finds the outgoing fact as it is stored, or stores it and queues its readers.
structure Visited (analysis : Analysis φ) (body : Body) (block : Block) (state next : State φ) : Prop where
  fits : next.facts.Fits body
  inflow : inflow analysis next.facts = Function.update (inflow analysis state.facts) block
    (joined analysis body (outgoing analysis state.facts) block)
  outcome :
    (analysis.same (recomputed analysis body (outgoing analysis state.facts) block)
        (outgoing analysis state.facts block) = true ∧
      outgoing analysis next.facts = outgoing analysis state.facts ∧ next.queue = state.queue ∧
      next.stats = ⟨state.stats.visits + 1, state.stats.updates⟩) ∨
    (analysis.same (recomputed analysis body (outgoing analysis state.facts) block)
        (outgoing analysis state.facts block) = false ∧
      outgoing analysis next.facts = Function.update (outgoing analysis state.facts) block
        (recomputed analysis body (outgoing analysis state.facts) block) ∧
      next.queue = (readers analysis body block).foldl enqueue state.queue ∧
      next.stats = ⟨state.stats.visits + 1, state.stats.updates + 1⟩)

theorem visit_visited (analysis : Analysis φ) (body : Body) (block : Block) (state : State φ)
    (fits : state.facts.Fits body) (inside : body.blocks.contains block = true) :
    Visited analysis body block state (visit analysis body block state) := by
  have input := incoming_eq_joined analysis body state.facts block
  have stored := store_incoming_fits analysis body state.facts fits block (joined analysis body (outgoing analysis state.facts) block)
  have before := outgoing_store_incoming analysis state.facts block (joined analysis body (outgoing analysis state.facts) block)
  have inflowNow := inflow_store_incoming analysis body state.facts fits block inside
    (joined analysis body (outgoing analysis state.facts) block)
  have output : analysis.transfer block (joined analysis body (outgoing analysis state.facts) block) =
      recomputed analysis body (outgoing analysis state.facts) block := rfl
  unfold visit visitWith
  simp only [input, before, output]
  by_cases same : analysis.same (recomputed analysis body (outgoing analysis state.facts) block)
      (outgoing analysis state.facts block) = true
  · rw [if_pos same]
    exact ⟨stored, inflowNow, .inl ⟨same, before, rfl, rfl⟩⟩
  · rw [if_neg same]
    refine ⟨store_outgoing_fits analysis body _ stored block _, ?_, .inr ⟨Bool.eq_false_iff.mpr same, ?_, rfl, rfl⟩⟩
    · rw [inflow_store_outgoing, inflowNow]
    · rw [outgoing_store_outgoing analysis body _ stored block inside, before]

inductive Visits (analysis : Analysis φ) (body : Body) : State φ → State φ → Prop where
  | take (front back : List Block) (block : Block) (facts : BlockFacts φ) (stats : SolveStats) :
      Visits analysis body ⟨front ++ block :: back, facts, stats⟩ (visit analysis body block ⟨front ++ back, facts, stats⟩)

def Runs (analysis : Analysis φ) (body : Body) : State φ → State φ → Prop :=
  Relation.ReflTransGen (Visits analysis body)

theorem iterate_runs (analysis : Analysis φ) (body : Body) (budget : Nat) (state last : State φ)
    (settles : iterate analysis body budget state = some last) : Runs analysis body state last ∧ last.queue = [] := by
  fun_induction iterate analysis body budget state with
  | case1 state empty =>
    cases settles
    exact ⟨.refl, List.isEmpty_iff.mp empty⟩
  | case2 => cases settles
  | case3 budget state empty =>
    cases settles
    exact ⟨.refl, empty⟩
  | case4 budget state block queue waits ih =>
    obtain ⟨runs, done⟩ := ih settles
    obtain ⟨waiting, facts, stats⟩ := state
    cases waits
    exact ⟨.head (.take [] queue block facts stats) runs, done⟩

structure Proper (analysis : Analysis φ) (body : Body) (carrier : φ → Prop) (state : State φ) : Prop where
  fits : state.facts.Fits body
  queued : ∀ block ∈ state.queue, body.blocks.contains block = true
  once : state.queue.Nodup
  outs : ∀ block, carrier (outgoing analysis state.facts block)
  ins : ∀ block, carrier (inflow analysis state.facts block)

def SettledAt (analysis : Analysis φ) (body : Body) (facts : BlockFacts φ) (block : Block) : Prop :=
  inflow analysis facts block = joined analysis body (outgoing analysis facts) block ∧
    analysis.same (analysis.transfer block (inflow analysis facts block)) (outgoing analysis facts block) = true

def SolvedAt (analysis : Analysis φ) (body : Body) (facts : BlockFacts φ) (block : Block) : Prop :=
  inflow analysis facts block = joined analysis body (outgoing analysis facts) block ∧
    (outgoing analysis facts block = analysis.transfer block (inflow analysis facts block) ∨
      analysis.same (analysis.transfer block (inflow analysis facts block)) (outgoing analysis facts block) = true)

theorem settled_at_of_solved_at (analysis : Analysis φ) (body : Body) (facts : BlockFacts φ) (block : Block)
    (solved : SolvedAt analysis body facts block)
    (itself : analysis.same (outgoing analysis facts block) (outgoing analysis facts block) = true) :
    SettledAt analysis body facts block := by
  refine ⟨solved.1, solved.2.elim (fun equal => ?_) id⟩
  rw [← equal]
  exact itself

def Waiting (analysis : Analysis φ) (body : Body) (state : State φ) : Prop :=
  ∀ block, body.blocks.contains block = true → block ∈ state.queue ∨ SettledAt analysis body state.facts block

section Invariants

variable (analysis : Analysis φ) (body : Body) (edges : body.EdgesAgree) (carrier : φ → Prop)
  (carries : analysis.Carries body carrier)

theorem update_carried (carrier : φ → Prop) (table : Block → φ) (block : Block) (fact : φ)
    (tableIn : ∀ other, carrier (table other)) (factIn : carrier fact) (other : Block) :
    carrier (Function.update table block fact other) := by
  by_cases same : other = block
  · rw [same, Function.update_self]
    exact factIn
  · rw [Function.update_of_ne same]
    exact tableIn other

section Visited

variable (block : Block) (state next : State φ) (visited : Visited analysis body block state next)

include visited

theorem visited_queue (other : Block) (member : other ∈ next.queue) :
    other ∈ state.queue ∨ other ∈ readers analysis body block := by
  rcases visited.outcome with ⟨_, _, queue, _⟩ | ⟨_, _, queue, _⟩
  · exact .inl (queue ▸ member)
  · rwa [queue, mem_enqueue_all] at member

theorem visited_once (once : state.queue.Nodup) : next.queue.Nodup := by
  rcases visited.outcome with ⟨_, _, queue, _⟩ | ⟨_, _, queue, _⟩
  · exact queue ▸ once
  · rw [queue]
    exact nodup_enqueue_all _ _ once

include carries

theorem visited_outs (outs : ∀ other, carrier (outgoing analysis state.facts other)) (inside : body.blocks.contains block = true)
    (other : Block) : carrier (outgoing analysis next.facts other) := by
  rcases visited.outcome with ⟨_, same, _⟩ | ⟨_, changed, _⟩
  · exact same ▸ outs other
  · rw [changed]
    exact update_carried carrier _ block _ outs (recomputed_carried analysis body carrier carries _ outs block inside) other

theorem visited_ins (outs : ∀ other, carrier (outgoing analysis state.facts other))
    (ins : ∀ other, carrier (inflow analysis state.facts other)) (other : Block) :
    carrier (inflow analysis next.facts other) := by
  rw [visited.inflow]
  exact update_carried carrier _ block _ ins (joined_carried analysis body carrier carries _ outs block) other

omit carries

include edges

-- A visit solves the equations of its block, and only blocks that read the new outgoing fact can be unsettled by it.
theorem visited_solving (other : Block) (before : other = block ∨ other ∈ state.queue ∨ SolvedAt analysis body state.facts other) :
    other ∈ next.queue ∨ SolvedAt analysis body next.facts other := by
  rcases visited.outcome with ⟨same, outs, queue, _⟩ | ⟨_, outs, queue, _⟩
  · simp only [queue, SolvedAt, outs, visited.inflow]
    by_cases here : other = block
    · rw [here, Function.update_self]
      exact .inr ⟨rfl, .inr same⟩
    · rw [Function.update_of_ne here]
      exact before.resolve_left here
  · rw [queue, mem_enqueue_all]
    by_cases reads : other ∈ readers analysis body block
    · exact .inl (.inr reads)
    have unread : ∀ source ∈ sources analysis body other,
        Function.update (outgoing analysis state.facts) block (recomputed analysis body (outgoing analysis state.facts) block)
          source = outgoing analysis state.facts source := by
      intro source member
      refine Function.update_of_ne (fun same => reads ?_) _ _
      exact (mem_readers_iff analysis body edges block other).mpr (same ▸ member)
    simp only [SolvedAt, outs, visited.inflow, joined, meet_from_congr analysis _ _ _ _ unread]
    by_cases here : other = block
    · subst here
      rw [Function.update_self, Function.update_self]
      exact .inr ⟨rfl, .inl rfl⟩
    · rw [Function.update_of_ne here, Function.update_of_ne here]
      exact (before.resolve_left here).imp .inl id

end Visited

include edges

theorem readers_inside (block other : Block) (reads : other ∈ readers analysis body block) :
    body.blocks.contains other = true := by
  unfold readers at reads
  cases direction : analysis.direction with
  | forward => exact edges.succInside block other (by simpa only [direction] using reads)
  | backward => exact edges.predInside block other (by simpa only [direction] using reads)

include carries

theorem visits_proper (state next : State φ) (proper : Proper analysis body carrier state)
    (visits : Visits analysis body state next) : Proper analysis body carrier next := by
  cases visits with
  | take front back block facts stats =>
    have inside := proper.queued block (List.mem_append_right front List.mem_cons_self)
    have others : (front ++ back).Sublist (front ++ block :: back) := (List.sublist_cons_self block back).append_left front
    have visited := visit_visited analysis body block ⟨front ++ back, facts, stats⟩ proper.fits inside
    refine ⟨visited.fits, fun other member => ?_, visited_once analysis body block _ _ visited (others.nodup proper.once),
      visited_outs analysis body carrier carries block _ _ visited proper.outs inside,
      visited_ins analysis body carrier carries block _ _ visited proper.outs proper.ins⟩
    rcases visited_queue analysis body block _ _ visited other member with before | reads
    · exact proper.queued other (others.subset before)
    · exact readers_inside analysis body edges block other reads

omit carries in
theorem visits_solving (state next : State φ) (proper : Proper analysis body carrier state)
    (solving : ∀ block, body.blocks.contains block = true → block ∈ state.queue ∨ SolvedAt analysis body state.facts block)
    (visits : Visits analysis body state next) (other : Block) (otherInside : body.blocks.contains other = true) :
    other ∈ next.queue ∨ SolvedAt analysis body next.facts other := by
  cases visits with
  | take front back block facts stats =>
    have inside := proper.queued block (List.mem_append_right front List.mem_cons_self)
    have visited := visit_visited analysis body block ⟨front ++ back, facts, stats⟩ proper.fits inside
    refine visited_solving analysis body edges block _ _ visited other ?_
    rcases solving other otherInside with waits | solved
    · exact (List.mem_cons.mp (List.perm_middle.mem_iff.mp waits)).imp_right .inl
    · exact .inr (.inr solved)

omit carries in
theorem visits_waiting (reflexive : ∀ fact, carrier fact → analysis.same fact fact = true)
    (carries : analysis.Carries body carrier) (state next : State φ) (proper : Proper analysis body carrier state)
    (waiting : Waiting analysis body state) (visits : Visits analysis body state next) : Waiting analysis body next := by
  have nextProper := visits_proper analysis body edges carrier carries state next proper visits
  intro block inside
  refine (visits_solving analysis body edges carrier state next proper ?_ visits block inside).imp_right fun solved => ?_
  · exact fun other otherInside => (waiting other otherInside).imp_right fun settled => ⟨settled.1, .inr settled.2⟩
  · exact settled_at_of_solved_at analysis body next.facts block solved (reflexive _ (nextProper.outs block))

theorem runs_proper (state last : State φ) (proper : Proper analysis body carrier state)
    (runs : Runs analysis body state last) : Proper analysis body carrier last := by
  induction runs with
  | refl => exact proper
  | tail _ visits ih => exact visits_proper analysis body edges carrier carries _ _ ih visits

theorem runs_waiting (reflexive : ∀ fact, carrier fact → analysis.same fact fact = true) (state last : State φ)
    (proper : Proper analysis body carrier state) (waiting : Waiting analysis body state)
    (runs : Runs analysis body state last) : Waiting analysis body last := by
  induction runs with
  | refl => exact waiting
  | tail before visits ih =>
    exact visits_waiting analysis body edges carrier reflexive carries _ _
      (runs_proper analysis body edges carrier carries state _ proper before) ih visits

end Invariants

theorem mem_seeds_iff (analysis : Analysis φ) (body : Body) (edges : body.EdgesAgree)
    (inside : body.blocks.contains body.entry = true) (order : FlowOrder) (describes : order.Describes body)
    (block : Block) : block ∈ seeds analysis body order ↔ body.blocks.contains block = true := by
  have listed : block ∈ seeds analysis body order ↔
      body.Reaches body.entry block ∨ block ∈ body.blocks.refs.filter fun block => !order.isReachable block := by
    unfold seeds seedOrder
    rw [mem_enqueue_all, List.mem_append, or_iff_right List.not_mem_nil]
    refine or_congr_left ?_
    cases analysis.direction with
    | forward => exact describes.reversed ▸ List.mem_reverse.trans (describes.listed block)
    | backward => exact describes.listed block
  rw [listed, List.mem_filter, Arena.mem_refs_iff]
  constructor
  · intro queued
    cases queued with
    | inl reaches => exact Body.reaches_inside body edges _ _ inside reaches
    | inr other => exact other.1
  · intro blockInside
    by_cases reaches : body.Reaches body.entry block
    · exact .inl reaches
    · have unreached := mt (describes.reachable block blockInside).mp reaches
      exact .inr ⟨blockInside, by simpa using unreached⟩

theorem nodup_seeds (analysis : Analysis φ) (body : Body) (order : FlowOrder) : (seeds analysis body order).Nodup :=
  nodup_enqueue_all [] _ List.nodup_nil

def Within (facts : BlockFacts φ) (carrier : φ → Prop) : Prop :=
  (∀ block fact, facts.atEntry.get? block = some fact → carrier fact) ∧
    ∀ block fact, facts.atExit.get? block = some fact → carrier fact

theorem get_d_within {entity : Entity} (carrier : φ → Prop) (arena : Arena entity φ) (default : φ)
    (slots : ∀ ref fact, arena.get? ref = some fact → carrier fact) (defaultIn : carrier default) (ref : Ref entity) :
    carrier ((arena.get? ref).getD default) := by
  cases found : arena.get? ref with
  | none => exact defaultIn
  | some fact => exact slots ref fact found

section Within

variable (analysis : Analysis φ) (carrier : φ → Prop) (facts : BlockFacts φ) (within : Within facts carrier)
  (initIn : carrier analysis.init) (block : Block)

include within initIn

theorem outgoing_within : carrier (outgoing analysis facts block) := by
  unfold outgoing
  cases analysis.direction with
  | forward => exact get_d_within carrier _ _ within.2 initIn block
  | backward => exact get_d_within carrier _ _ within.1 initIn block

theorem inflow_within : carrier (inflow analysis facts block) := by
  unfold inflow
  cases analysis.direction with
  | forward => exact get_d_within carrier _ _ within.1 initIn block
  | backward => exact get_d_within carrier _ _ within.2 initIn block

end Within

structure Queues (body : Body) (queue : List Block) : Prop where
  once : queue.Nodup
  all : ∀ block, block ∈ queue ↔ body.blocks.contains block = true

theorem start_proper (analysis : Analysis φ) (body : Body) (carrier : φ → Prop) (carries : analysis.Carries body carrier)
    (queue : List Block) (queues : Queues body queue) (facts : BlockFacts φ) (fits : facts.Fits body)
    (within : Within facts carrier) (stats : SolveStats) : Proper analysis body carrier ⟨queue, facts, stats⟩ where
  fits := fits
  queued := fun block member => (queues.all block).mp member
  once := queues.once
  outs := outgoing_within analysis carrier facts within carries.init
  ins := inflow_within analysis carrier facts within carries.init

theorem start_waiting (analysis : Analysis φ) (body : Body) (queue : List Block) (queues : Queues body queue)
    (facts : BlockFacts φ) (stats : SolveStats) : Waiting analysis body ⟨queue, facts, stats⟩ :=
  fun block inside => .inl ((queues.all block).mpr inside)

def first (analysis : Analysis φ) (body : Body) (order : FlowOrder) (facts : BlockFacts φ) : State φ :=
  ⟨seeds analysis body order, facts, {}⟩

theorem solve_within_iterates (analysis : Analysis φ) (body : Body) (accepted : body.check = .ok ())
    (facts : BlockFacts φ) (tagged : facts.tag = analysis.tag) (fits : facts.Fits body) :
    ∃ order, body.flowOrder = .ok order ∧ Queues body (seeds analysis body order) ∧
      ∀ budget, body.solveWithin budget analysis facts =
        match iterate analysis body budget (first analysis body order facts) with
        | some state => .ok (state.facts, state.stats)
        | none => .error .endless := by
  have wellFormed := Body.well_formed_of_check body accepted
  obtain ⟨order, ordered, describes⟩ := Body.flow_order_total body wellFormed.edges wellFormed.entry
  refine ⟨order, ordered, ⟨nodup_seeds analysis body order,
    mem_seeds_iff analysis body wellFormed.edges wellFormed.entry order describes⟩, fun budget => ?_⟩
  have sizes : ¬ (facts.atEntry.size ≠ body.blocks.size ∨ facts.atExit.size ≠ body.blocks.size) := by
    simp [fits.entries, fits.exits]
  have prepared : body.prepare analysis facts = .ok order := by
    simp only [Body.prepare, accepted, ordered, bind, Except.bind, tagged, ne_eq, not_true_eq_false, if_false, sizes]
  rw [Body.solve_within_queue, prepared]
  rfl

theorem initial_fits (analysis : Analysis φ) (body : Body) : (BlockFacts.initial analysis body).Fits body :=
  ⟨by simp [BlockFacts.initial, Arena.replicate, Arena.size], by simp [BlockFacts.initial, Arena.replicate, Arena.size]⟩

theorem initial_slots (analysis : Analysis φ) (body : Body) :
    outgoing analysis (.initial analysis body) = (fun _ => analysis.init) ∧
      inflow analysis (.initial analysis body) = fun _ => analysis.init := by
  have blank (block : Block) :
      ((Arena.replicate body.blocks.size analysis.init : Arena .block φ).get? block).getD analysis.init = analysis.init := by
    cases block with
    | invalid => rfl
    | nth index =>
      simp only [Arena.replicate, Arena.get?, Array.getElem?_replicate]
      split <;> rfl
  constructor
  · funext block
    unfold outgoing
    cases analysis.direction <;> exact blank block
  · funext block
    unfold inflow
    cases analysis.direction <;> exact blank block

theorem initial_within (analysis : Analysis φ) (body : Body) (carrier : φ → Prop) (initIn : carrier analysis.init) :
    Within (.initial analysis body) carrier := by
  have blank (block : Block) (fact : φ)
      (found : (Arena.replicate body.blocks.size analysis.init : Arena .block φ).get? block = some fact) : carrier fact := by
    cases block with
    | invalid => cases found
    | nth index =>
      simp only [Arena.replicate, Arena.get?, Array.getElem?_replicate] at found
      split at found
      · exact Option.some.inj found ▸ initIn
      · cases found
  exact ⟨blank, blank⟩

end Solver

end ThreeAddress
