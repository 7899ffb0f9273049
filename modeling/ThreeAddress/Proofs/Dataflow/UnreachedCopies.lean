import ThreeAddress.Proofs.Dataflow.PathFacts

/-!
Reaching copies do depend on code that is not reached. Such code starts from the set of all copies, but ends copies like
any other code, and what is left of them is merged where it leads to a block that is reached. Which copies it ends is
all that can be seen of it there.
-/

set_option autoImplicit false

namespace ThreeAddress

namespace Copies

variable (copies : Copies)

def EndsIn (code : List (Inst × Operation)) (inst : Inst) : Prop :=
  ∃ entry ∈ code, ∃ copy ∈ copies.list, copy.inst = inst ∧ copies.ends entry.2 copy = true

def through (code : List (Inst × Operation)) (holding : OrderedSet Inst) : OrderedSet Inst :=
  code.foldl (fun holding (inst, operation) => copies.step inst operation holding) holding

theorem spares_iff (code : List (Inst × Operation)) (inst : Inst) :
    (∀ entry ∈ code, copies.Spares entry inst) ↔ ¬ copies.EndsIn code inst := by
  constructor
  · exact fun spares ⟨entry, member, copy, listed, own, ended⟩ => spares entry member copy listed ended own
  · exact fun free entry member copy listed ended own => free ⟨entry, member, copy, listed, own, ended⟩

theorem mem_through (code : List (Inst × Operation)) (holding : OrderedSet Inst) (sound : holding.Sound) (inst : Inst) :
    inst ∈ (copies.through code holding).toList ↔ Brought copies.Makes copies.Spares code inst ∨
      ¬ copies.EndsIn code inst ∧ inst ∈ holding.toList := by
  rw [← spares_iff]
  exact copies.elementwise.mem_fold code holding sound inst

end Copies

namespace Body

def ReachedCopy (body : Body) (copies : Copies) (inst : Inst) : Prop :=
  (copies.find? inst).isSome = true ∧ ∃ block, body.Reaches body.entry block ∧ inst ∈ body.layout block

-- Code that is not reached, but leads to the block, ends the copy that an instruction makes.
def EndedAhead (body : Body) (copies : Copies) (block : Block) (inst : Inst) : Prop :=
  ∃ pred ∈ body.preds block, ¬ body.Reaches body.entry pred ∧
    ∃ before, body.Reaches before pred ∧ copies.EndsIn (body.code before) inst

open Classical in
-- What code that is not reached leaves of the copies that are reached.
noncomputable def survivors (body : Body) (copies : Copies) (block : Block) : OrderedSet Inst :=
  .ofList (copies.all.toList.filter fun inst =>
    body.ReachedCopy copies inst ∧ ∀ before, body.Reaches before block → ¬ copies.EndsIn (body.code before) inst)

section Copies

variable (body : Body) (accepted : body.check = .ok ()) (copies : Copies) (copiesOf : CopiesOf body body.layout copies)
  (scope : List Inst) (covers : ∀ inst ∈ copies.all.toList, inst ∈ scope)

include copiesOf

theorem mem_all_iff (inst : Inst) : inst ∈ copies.all.toList ↔ (copies.find? inst).isSome = true := by
  rw [copiesOf.all, OrderedSet.mem_of_list, List.mem_map, Copies.find_is_some_iff]

theorem mem_survivors (block : Block) (inst : Inst) : inst ∈ (body.survivors copies block).toList ↔
    body.ReachedCopy copies inst ∧ ∀ before, body.Reaches before block → ¬ copies.EndsIn (body.code before) inst := by
  rw [survivors, OrderedSet.mem_of_list, List.mem_filter]
  simp only [decide_eq_true_eq]
  exact and_iff_right_of_imp fun survives => (mem_all_iff body copies copiesOf inst).mpr survives.1.1

include covers

theorem copies_listed (copy : Copy) (member : copy ∈ copies.list) : copy.inst ∈ scope :=
  covers _ ((mem_all_iff body copies copiesOf copy.inst).mpr ((copies.find_is_some_iff copy.inst).mpr ⟨copy, member, rfl⟩))

theorem copies_lawful : (copies.analysis body).Lawful body (OrderedSet.Over scope) (Meet.le .intersection) :=
  Copies.lawful copies body scope ⟨copiesOf.all ▸ OrderedSet.sound_of_list _, covers⟩
    (copies_listed body copies copiesOf scope covers)

include accepted

theorem survivors_stay (low : Block → OrderedSet Inst) (lowIn : ∀ block, (low block).Over scope)
    (elsewhere : ∀ block, ¬ body.Reaches body.entry block → low block = body.survivors copies block) (block : Block)
    (away : ¬ body.Reaches body.entry block) :
    Meet.le .intersection (low block) (Solver.recomputed (copies.analysis body) body low block) := by
  have wellFormed := well_formed_of_check body accepted
  have laws := copies_lawful body copies copiesOf scope covers
  have survives := mem_survivors body copies copiesOf
  have startIn := Solver.start_carried _ body _ laws.toCarries block
  have joinedIn := Solver.joined_carried _ body _ laws.toCarries _ lowIn block
  have joins : Meet.le .intersection (low block) (Solver.joined (copies.analysis body) body low block) := by
    apply (Solver.le_meet_from_iff _ body _ _ laws _ _ _ _ startIn (lowIn block) lowIn).mpr
    rw [elsewhere block away]
    constructor
    · have inner : block ≠ body.entry := fun same => away (same ▸ reaches_self body body.entry)
      have starts : Solver.start (copies.analysis body) body block = copies.all := if_neg inner
      rw [starts]
      exact fun inst member => (mem_all_iff body copies copiesOf inst).mpr ((survives block inst).mp member).1.1
    · intro source edge inst member
      rw [elsewhere source (unreached_preds body accepted block source away edge), survives]
      obtain ⟨reachedCopy, free⟩ := (survives block inst).mp member
      refine ⟨reachedCopy, fun before leads => free before (reaches_trans body before source block leads ?_)⟩
      have leaves := (edges_mem_iff body wellFormed.edges source block).mpr edge
      exact reaches_of_edge body source block block leaves (reaches_self body block)
  intro inst member
  have survivor := member
  rw [elsewhere block away] at survivor
  have free := ((survives block inst).mp survivor).2 block (reaches_self body block)
  exact (copies.mem_through (body.code block) _ joinedIn.sound inst).mpr (.inr ⟨free, joins inst member⟩)

variable (facts : BlockFacts (OrderedSet Inst))
  (answers : Solver.Answers (copies.analysis body) body (OrderedSet.Over scope) (Meet.le .intersection) facts)

include answers

theorem copies_must : Solver.Must (copies.analysis body) body copies.Makes copies.Spares scope facts where
  accepted := accepted
  forward := rfl
  merges := rfl
  boundary := rfl
  gained := by
    intro entry inst ⟨own, tracked⟩
    rw [own]
    exact (mem_all_iff body copies copiesOf entry.1).mpr tracked
  transfer := fun block => copies.elementwise.mem_fold (body.code block)
  laws := copies_lawful body copies copiesOf scope covers
  answers := answers

theorem copies_along (source target : Block) (blocks : List Block) (path : Path body source blocks target)
    (inside : body.blocks.contains source = true) (inst : Inst)
    (held : inst ∈ (Solver.outgoing (copies.analysis body) facts target).toList) :
    ((copies.find? inst).isSome = true ∧ ∃ block ∈ blocks, inst ∈ body.layout block) ∨
      (inst ∈ (Solver.inflow (copies.analysis body) facts source).toList ∧
        ∀ block ∈ blocks, ¬ copies.EndsIn (body.code block) inst) := by
  have must := copies_must body accepted copies copiesOf scope covers facts answers
  rcases must.brought_along inst source target blocks path inside held with
    ⟨front, ⟨own, operation⟩, back, whole, ⟨rfl, tracked⟩, _⟩ | ⟨spared, entered⟩
  · have inCode : (inst, operation) ∈ body.codeAlong blocks := whole ▸ List.mem_append_right front List.mem_cons_self
    exact .inl ⟨tracked, (mem_code_along body accepted blocks inst operation inCode).1⟩
  · refine .inr ⟨entered, fun block member => (copies.spares_iff _ inst).mp fun entry inCode => ?_⟩
    exact spared entry (List.mem_flatMap.mpr ⟨block, member, inCode⟩)

theorem outgoing_reached (block : Block) (reached : body.Reaches body.entry block) (inst : Inst)
    (held : inst ∈ (Solver.outgoing (copies.analysis body) facts block).toList) : body.ReachedCopy copies inst := by
  obtain ⟨blocks, path⟩ := reached
  rcases copies_along body accepted copies copiesOf scope covers facts answers body.entry block blocks path
    (well_formed_of_check body accepted).entry inst held with ⟨found, here, member, placed⟩ | ⟨entered, _⟩
  · exact ⟨found, here, (Path.between body.entry block blocks path here member).1, placed⟩
  · exact ((copies_must body accepted copies copiesOf scope covers facts answers).entry_empty inst entered).elim

theorem inflow_reached (block : Block) (reached : body.Reaches body.entry block) (inst : Inst)
    (held : inst ∈ (Solver.inflow (copies.analysis body) facts block).toList) : body.ReachedCopy copies inst := by
  have wellFormed := well_formed_of_check body accepted
  have laws := copies_lawful body copies copiesOf scope covers
  rcases Relation.ReflTransGen.cases_tail ((reaches_iff body body.entry block).mp reached) with same | ⟨pred, before, edge⟩
  · rw [same] at held
    exact ((copies_must body accepted copies copiesOf scope covers facts answers).entry_empty inst held).elim
  · have inside := reaches_inside body wellFormed.edges _ _ wellFormed.entry reached
    have leaves := (Solver.answers_bounds _ body _ _ laws facts answers block inside).2.1 pred
      ((edges_mem_iff body wellFormed.edges pred block).mp ((graph_edge_iff body pred block).mp edge)) inst held
    exact outgoing_reached body accepted copies copiesOf scope covers facts answers pred
      ((reaches_iff body body.entry pred).mpr before) inst leaves

theorem ended_absent (block : Block) (reached : body.Reaches body.entry block) (inst : Inst)
    (ended : body.EndedAhead copies block inst) : inst ∉ (Solver.inflow (copies.analysis body) facts block).toList := by
  intro held
  have wellFormed := well_formed_of_check body accepted
  have laws := copies_lawful body copies copiesOf scope covers
  have inside := reaches_inside body wellFormed.edges _ _ wellFormed.entry reached
  obtain ⟨pred, edge, away, before, ⟨blocks, path⟩, ends⟩ := ended
  obtain ⟨_, home, homeReached, placed⟩ :=
    inflow_reached body accepted copies copiesOf scope covers facts answers block reached inst held
  have leaves := (Solver.answers_bounds _ body _ _ laws facts answers block inside).2.1 pred edge inst held
  have beforeInside : body.blocks.contains before = true := by
    obtain ⟨entry, member, _⟩ := ends
    rw [code_laid body body.layout wellFormed.laid] at member
    exact placed_inside body body.layout wellFormed.laid before entry.1 ((mem_code_of_iff body _ _ _).mp member).1
  rcases copies_along body accepted copies copiesOf scope covers facts answers before pred blocks path beforeInside inst leaves
    with ⟨_, here, member, again⟩ | ⟨_, free⟩
  · have same := placed_once body body.layout wellFormed.laid home here inst placed again
    rw [same] at homeReached
    exact away (reaches_trans body _ here pred homeReached (Path.between before pred blocks path here member).2)
  · exact free before (Path.source_mem before pred blocks path) ends

end Copies

section Twins

variable (body other : Body) (alike : body.ReachedAlike other) (accepted : body.check = .ok ())
  (otherAccepted : other.check = .ok ()) (copies twins : Copies) (copiesOf : CopiesOf body body.layout copies)
  (twinsOf : CopiesOf other other.layout twins)

include alike copiesOf twinsOf

theorem twin_listed (copy : Copy) (member : copy ∈ copies.list) (block : Block) (reached : body.Reaches body.entry block)
    (placed : copy.inst ∈ body.layout block) : copy ∈ twins.list := by
  obtain ⟨_, moves⟩ := (copiesOf.listed copy).mp member
  apply (twinsOf.listed copy).mpr
  rw [alike.operations block reached copy.inst placed]
  exact ⟨⟨block, alike.layout block reached ▸ placed⟩, moves⟩

theorem twin_reached (inst : Inst) (reachedCopy : body.ReachedCopy copies inst) : other.ReachedCopy twins inst := by
  obtain ⟨found, block, reached, placed⟩ := reachedCopy
  obtain ⟨copy, member, own⟩ := (copies.find_is_some_iff inst).mp found
  rw [← own] at placed
  have twin := twin_listed body other alike copies twins copiesOf twinsOf copy member block reached placed
  refine ⟨(twins.find_is_some_iff inst).mpr ⟨copy, twin, own⟩, block, (alike_reaches body other alike block).mpr reached, ?_⟩
  rw [alike.layout block reached, ← own]
  exact placed

include accepted otherAccepted

theorem twin_ends : twins.ends = copies.ends := by
  obtain ⟨pinned, taken, sound, _⟩ := address_taken_total body body.layout (well_formed_of_check body accepted).laid
  obtain ⟨twinPinned, twinTaken, twinSound, _⟩ :=
    address_taken_total other other.layout (well_formed_of_check other otherAccepted).laid
  obtain rfl : pinned = copies.pinned := Except.ok.inj (taken.symm.trans copiesOf.pinned)
  obtain rfl : twinPinned = twins.pinned := Except.ok.inj (twinTaken.symm.trans twinsOf.pinned)
  have memory := alike.memory _ _ taken twinTaken
  have same (var : Var) : twins.pinned.contains var = copies.pinned.contains var := by
    rw [Bool.eq_iff_iff, OrderedSet.contains_iff _ twinSound, OrderedSet.contains_iff _ sound, memory]
  funext operation copy
  rw [Copies.ends, Copies.ends, Copies.inMemory, Copies.inMemory, same, same]

theorem twin_spares (inst : Inst) (reachedCopy : body.ReachedCopy copies inst) (entry : Inst × Operation)
    (spared : twins.Spares entry inst) : copies.Spares entry inst := by
  intro copy member ended own
  obtain ⟨_, home, homeReached, placed⟩ := reachedCopy
  have twin := twin_listed body other alike copies twins copiesOf twinsOf copy member home homeReached (own ▸ placed)
  rw [← twin_ends body other alike accepted otherAccepted copies twins copiesOf twinsOf] at ended
  exact spared copy twin ended own

theorem twin_brought (block : Block) (reached : body.Reaches body.entry block) (inst : Inst)
    (brought : Brought twins.Makes twins.Spares (body.code block) inst) :
    Brought copies.Makes copies.Spares (body.code block) inst := by
  obtain ⟨front, ⟨own, operation⟩, back, whole, ⟨rfl, tracked⟩, kept⟩ := brought
  have inCode : (inst, operation) ∈ body.code block := whole ▸ List.mem_append_right front List.mem_cons_self
  rw [code_laid body body.layout (well_formed_of_check body accepted).laid] at inCode
  have placed := ((mem_code_of_iff body _ _ _).mp inCode).1
  obtain ⟨twin, inList, same⟩ := (twins.find_is_some_iff inst).mp tracked
  have there : twin.inst ∈ other.layout block := by rw [alike.layout block reached, same]; exact placed
  have listed := twin_listed other body (alike_symm body other alike) twins copies twinsOf copiesOf twin inList block
    ((alike_reaches body other alike block).mpr reached) there
  have alsoTracked := (copies.find_is_some_iff inst).mpr ⟨twin, listed, same⟩
  refine ⟨front, (inst, operation), back, whole, ⟨rfl, alsoTracked⟩, fun later member => ?_⟩
  exact twin_spares body other alike accepted otherAccepted copies twins copiesOf twinsOf inst
    ⟨alsoTracked, block, reached, placed⟩ later (kept later member)

variable (scope : List Inst) (covers : ∀ inst ∈ copies.all.toList, inst ∈ scope)
  (twinCovers : ∀ inst ∈ twins.all.toList, inst ∈ scope) (others : BlockFacts (OrderedSet Inst))
  (otherAnswers : Solver.Answers (twins.analysis other) other (OrderedSet.Over scope) (Meet.le .intersection) others)

include twinCovers otherAnswers

omit accepted in
theorem twin_enters (block : Block) (reached : body.Reaches body.entry block) (inst : Inst)
    (held : inst ∈ (Solver.inflow (twins.analysis other) others block).toList) : body.ReachedCopy copies inst :=
  twin_reached other body (alike_symm body other alike) twins copies twinsOf copiesOf inst
    (inflow_reached other otherAccepted twins twinsOf scope twinCovers others otherAnswers block
      ((alike_reaches body other alike block).mpr reached) inst held)

omit accepted in
theorem twin_leaves (block : Block) (reached : body.Reaches body.entry block) (inst : Inst)
    (held : inst ∈ (Solver.outgoing (twins.analysis other) others block).toList) : body.ReachedCopy copies inst :=
  twin_reached other body (alike_symm body other alike) twins copies twinsOf copiesOf inst
    (outgoing_reached other otherAccepted twins twinsOf scope twinCovers others otherAnswers block
      ((alike_reaches body other alike block).mpr reached) inst held)

theorem copies_pass (block : Block) (reached : body.Reaches body.entry block) :
    Meet.le .intersection ((twins.analysis other).transfer block (Solver.inflow (twins.analysis other) others block))
      ((copies.analysis body).transfer block (Solver.inflow (twins.analysis other) others block)) := by
  have code : other.code block = body.code block :=
    alike_code body other alike accepted otherAccepted .forward block reached
  have sound := (otherAnswers.ins block).sound
  intro inst held
  apply (copies.mem_through (body.code block) _ sound inst).mpr
  have made := (twins.mem_through (other.code block) _ sound inst).mp held
  rw [code] at made
  rcases made with brought | ⟨free, entered⟩
  · exact .inl (twin_brought body other alike accepted otherAccepted copies twins copiesOf twinsOf block reached inst brought)
  · have reachedCopy := twin_enters body other alike otherAccepted copies twins copiesOf twinsOf scope twinCovers others
      otherAnswers block reached inst entered
    refine .inr ⟨(copies.spares_iff _ inst).mp fun entry member => ?_, entered⟩
    exact twin_spares body other alike accepted otherAccepted copies twins copiesOf twinsOf inst reachedCopy entry
      ((twins.spares_iff _ inst).mpr free entry member)

omit accepted in
theorem tracked_outgoing (block : Block) (inst : Inst)
    (member : inst ∈ (body.fillUnreached (Solver.outgoing (twins.analysis other) others) (body.survivors copies) block).toList) :
    inst ∈ copies.all.toList := by
  apply (mem_all_iff body copies copiesOf inst).mpr
  by_cases reached : body.Reaches body.entry block
  · rw [fill_unreached_reached body _ _ block reached] at member
    exact (twin_leaves body other alike otherAccepted copies twins copiesOf twinsOf scope twinCovers others otherAnswers block
      reached inst member).1
  · rw [fill_unreached_elsewhere body _ _ block reached] at member
    exact ((mem_survivors body copies copiesOf block inst).mp member).1.1

omit accepted in
theorem tracked_start (block : Block) (reached : body.Reaches body.entry block) (inst : Inst)
    (held : inst ∈ (Solver.inflow (twins.analysis other) others block).toList) :
    inst ∈ (Solver.start (copies.analysis body) body block).toList := by
  by_cases entry : block = body.entry
  · rw [entry, ← alike.entry] at held
    exact ((copies_must other otherAccepted twins twinsOf scope twinCovers others otherAnswers).entry_empty inst held).elim
  · have starts : Solver.start (copies.analysis body) body block = copies.all := if_neg entry
    rw [starts]
    exact (mem_all_iff body copies copiesOf inst).mpr (twin_enters body other alike otherAccepted copies twins copiesOf twinsOf
      scope twinCovers others otherAnswers block reached inst held).1

include covers

theorem copies_carried
    (apart : ∀ block, body.Reaches body.entry block → ∀ inst, body.EndedAhead copies block inst →
      inst ∉ (Solver.inflow (twins.analysis other) others block).toList) :
    Solver.CarriedOver (copies.analysis body) (twins.analysis other) body other (OrderedSet.Over scope) (Meet.le .intersection)
      others (body.Reaches body.entry)
      (body.fillUnreached (Solver.outgoing (twins.analysis other) others) (body.survivors copies)) := by
  have elsewhere := fill_unreached_elsewhere body (Solver.outgoing (twins.analysis other) others) (body.survivors copies)
  have left (block : Block) : (body.survivors copies block).Over scope :=
    ⟨OrderedSet.sound_of_list _, fun inst member =>
      covers inst ((mem_all_iff body copies copiesOf inst).mpr ((mem_survivors body copies copiesOf block inst).mp member).1.1)⟩
  have lowIn := fill_unreached_all body (OrderedSet.Over scope) (Solver.outgoing (twins.analysis other) others)
    (body.survivors copies) otherAnswers.outs left
  constructor
  case carried => exact lowIn
  case holds => exact fill_unreached_reached body _ _
  case bounded =>
    exact fun block _ => tracked_outgoing body other alike otherAccepted copies twins copiesOf twinsOf scope twinCovers others
      otherAnswers block
  case starts =>
    exact fun block _ => tracked_start body other alike otherAccepted copies twins copiesOf twinsOf scope twinCovers others
      otherAnswers block
  case enters =>
    intro block reached source edge away inst held
    rw [elsewhere source away, mem_survivors body copies copiesOf]
    have reachedCopy := twin_enters body other alike otherAccepted copies twins copiesOf twinsOf scope twinCovers others
      otherAnswers block reached inst held
    refine ⟨reachedCopy, fun before leads ended => ?_⟩
    exact apart block reached inst ⟨source, edge, away, before, leads, ended⟩ held
  case passes =>
    exact copies_pass body other alike accepted otherAccepted copies twins copiesOf twinsOf scope twinCovers others otherAnswers
  case stays =>
    exact fun block _ away => survivors_stay body accepted copies copiesOf scope covers _ lowIn elsewhere block away

end Twins

def HoldsAt (facts : BlockFacts (OrderedSet Inst)) (block : Block) (inst : Inst) : Prop :=
  ∃ holding, facts.atEntry.get? block = some holding ∧ inst ∈ holding.toList

theorem holds_at_iff (body : Body) (copies : Copies) (facts : BlockFacts (OrderedSet Inst)) (fits : facts.Fits body)
    (block : Block) (inside : body.blocks.contains block = true) (inst : Inst) :
    HoldsAt facts block inst ↔ inst ∈ (Solver.inflow (copies.analysis body) facts block).toList := by
  obtain ⟨holding, found⟩ := (Arena.contains_iff _ _).mp ((Arena.contains_of_size _ _ fits.entries block).trans inside)
  have flows : Solver.inflow (copies.analysis body) facts block = holding := by
    show (facts.atEntry.get? block).getD _ = holding
    rw [found]
    rfl
  rw [flows]
  constructor
  · intro ⟨other, again, member⟩
    rw [found] at again
    cases again
    exact member
  · exact fun member => ⟨holding, found, member⟩

theorem agree_holds (body : Body) (facts others : BlockFacts (OrderedSet Inst))
    (sound : ∀ block holding, facts.atEntry.get? block = some holding → holding.Sound)
    (otherSound : ∀ block holding, others.atEntry.get? block = some holding → holding.Sound)
    (agree : body.AgreeReached (· == ·) facts others) (block : Block) (reached : body.Reaches body.entry block) (inst : Inst) :
    HoldsAt others block inst ↔ HoldsAt facts block inst := by
  obtain ⟨⟨holding, otherHolding, found, otherFound, same⟩, _⟩ := agree block reached
  have members :=
    (OrderedSet.beq_iff otherHolding holding (otherSound block _ otherFound) (sound block _ found)).mp same inst
  constructor
  · intro ⟨other, again, member⟩
    rw [otherFound] at again
    cases again
    exact ⟨holding, found, members.mp member⟩
  · intro ⟨other, again, member⟩
    rw [found] at again
    cases again
    exact ⟨otherHolding, otherFound, members.mpr member⟩

theorem ended_holds_nowhere (body : Body) (accepted : body.check = .ok ()) (copies : Copies)
    (copiesOf : CopiesOf body body.layout copies) (scope : List Inst) (covers : ∀ inst ∈ copies.all.toList, inst ∈ scope)
    (facts others : BlockFacts (OrderedSet Inst))
    (answers : Solver.Answers (copies.analysis body) body (OrderedSet.Over scope) (Meet.le .intersection) facts) (block : Block)
    (reached : body.Reaches body.entry block) (inst : Inst) (same : HoldsAt others block inst ↔ HoldsAt facts block inst)
    (ended : body.EndedAhead copies block inst) : ¬ HoldsAt others block inst := by
  intro held
  have wellFormed := well_formed_of_check body accepted
  refine ended_absent body accepted copies copiesOf scope covers facts answers block reached inst ended ?_
  exact (holds_at_iff body copies facts answers.fits block
    (reaches_inside body wellFormed.edges _ _ wellFormed.entry reached) inst).mp (same.mp held)

section Exact

variable (body other : Body) (alike : body.ReachedAlike other) (accepted : body.check = .ok ())
  (otherAccepted : other.check = .ok ())

include alike accepted otherAccepted

theorem copies_agree_of_apart (copies twins : Copies) (copiesOf : CopiesOf body body.layout copies)
    (twinsOf : CopiesOf other other.layout twins) (scope : List Inst) (covers : ∀ inst ∈ copies.all.toList, inst ∈ scope)
    (twinCovers : ∀ inst ∈ twins.all.toList, inst ∈ scope) (facts others : BlockFacts (OrderedSet Inst))
    (answers : Solver.Answers (copies.analysis body) body (OrderedSet.Over scope) (Meet.le .intersection) facts)
    (otherAnswers : Solver.Answers (twins.analysis other) other (OrderedSet.Over scope) (Meet.le .intersection) others)
    (apart : ∀ block, body.Reaches body.entry block → ∀ inst,
      (body.EndedAhead copies block inst → ¬ HoldsAt others block inst) ∧
        (other.EndedAhead twins block inst → ¬ HoldsAt facts block inst)) :
    body.AgreeReached (copies.analysis body).same facts others := by
  have wellFormed := well_formed_of_check body accepted
  have inside (block : Block) (reached : body.Reaches body.entry block) : body.blocks.contains block = true :=
    reaches_inside body wellFormed.edges _ _ wellFormed.entry reached
  have here (block : Block) (reached : other.Reaches other.entry block) : body.Reaches body.entry block :=
    (alike_reaches body other alike block).mp reached
  have brought := copies_carried body other alike accepted otherAccepted copies twins copiesOf twinsOf scope covers twinCovers
    others otherAnswers fun block reached inst ended held => (apart block reached inst).1 ended ((holds_at_iff other twins others
      otherAnswers.fits block ((alike_contains body other alike block).trans (inside block reached)) inst).mpr held)
  have back := copies_carried other body (alike_symm body other alike) otherAccepted accepted twins copies twinsOf copiesOf scope
    twinCovers covers facts answers fun block reached inst ended held => (apart block (here block reached) inst).2 ended
      ((holds_at_iff body copies facts answers.fits block (inside block (here block reached)) inst).mpr held)
  exact Solver.agree_of_carried body other alike accepted (copies.analysis body) (twins.analysis other) rfl _ _
    (copies_lawful body copies copiesOf scope covers) facts others answers otherAnswers otherAccepted
    (copies_lawful other twins twinsOf scope twinCovers) _ _ _ _ brought back
    fun block reached => ⟨reached, (alike_reaches body other alike block).mpr reached⟩

-- The copies agree exactly if no copy holds for one body that code of the other ends ahead.
theorem copies_agree_iff : ∃ copies twins facts others, body.copies = .ok copies ∧ other.copies = .ok twins ∧
    body.analyze (copies.analysis body) = .ok facts ∧ other.analyze (twins.analysis other) = .ok others ∧
    (body.AgreeReached (copies.analysis body).same facts others ↔
      ∀ block, body.Reaches body.entry block → ∀ inst,
        (body.EndedAhead copies block inst → ¬ HoldsAt others block inst) ∧
          (other.EndedAhead twins block inst → ¬ HoldsAt facts block inst)) := by
  obtain ⟨copies, facts, found, copiesOf, solved⟩ := copies_solved body accepted
  obtain ⟨twins, others, twinFound, twinsOf, twinSolved⟩ := copies_solved other otherAccepted
  have covers : ∀ inst ∈ copies.all.toList, inst ∈ copies.all.toList ++ twins.all.toList :=
    fun inst => List.mem_append_left _
  have twinCovers : ∀ inst ∈ twins.all.toList, inst ∈ copies.all.toList ++ twins.all.toList :=
    fun inst => List.mem_append_right _
  have answers := Solver.answers_of_analyze _ body _ _ (copies_lawful body copies copiesOf _ covers) facts solved.found
  have otherAnswers :=
    Solver.answers_of_analyze _ other _ _ (copies_lawful other twins twinsOf _ twinCovers) others twinSolved.found
  refine ⟨copies, twins, facts, others, found, twinFound, solved.found, twinSolved.found, fun agree block reached inst => ?_,
    copies_agree_of_apart body other alike accepted otherAccepted copies twins copiesOf twinsOf _ covers twinCovers facts others
      answers otherAnswers⟩
  have same := agree_holds body facts others (fun block holding found => (solved.within.1 block holding found).sound)
    (fun block holding found => (twinSolved.within.1 block holding found).sound) agree block reached inst
  exact ⟨ended_holds_nowhere body accepted copies copiesOf _ covers facts others answers block reached inst same,
    ended_holds_nowhere other otherAccepted twins twinsOf _ twinCovers others facts otherAnswers block
      ((alike_reaches body other alike block).mpr reached) inst same.symm⟩

theorem unreached_code_shows_in_copies_only :
    (∃ facts others, body.analyze body.dominatorAnalysis = .ok facts ∧ other.analyze other.dominatorAnalysis = .ok others ∧
      body.AgreeReached body.dominatorAnalysis.same facts others) ∧
    (∃ analysis twin facts others, body.constantAnalysis = .ok analysis ∧ other.constantAnalysis = .ok twin ∧
      body.analyze analysis = .ok facts ∧ other.analyze twin = .ok others ∧ body.AgreeReached analysis.same facts others) ∧
    (∃ facts others, body.analyze body.livenessAnalysis = .ok facts ∧ other.analyze other.livenessAnalysis = .ok others ∧
      body.AgreeReached body.livenessAnalysis.same facts others) ∧
    ∃ copies twins facts others, body.copies = .ok copies ∧ other.copies = .ok twins ∧
      body.analyze (copies.analysis body) = .ok facts ∧ other.analyze (twins.analysis other) = .ok others ∧
      (body.AgreeReached (copies.analysis body).same facts others ↔
        ∀ block, body.Reaches body.entry block → ∀ inst,
          (body.EndedAhead copies block inst → ¬ HoldsAt others block inst) ∧
            (other.EndedAhead twins block inst → ¬ HoldsAt facts block inst)) :=
  ⟨dominators_agree body other alike accepted otherAccepted, constants_agree body other alike accepted otherAccepted,
    liveness_agree body other alike accepted otherAccepted, copies_agree_iff body other alike accepted otherAccepted⟩

end Exact

-- A copy, then a block that is also the successor of an empty block that nothing leads to.
def quiet : Body where
  name := "quiet"
  entry := .nth 0
  blocks := .ofList [{ chain := ⟨.nth 0, .nth 1, 2⟩, succs := [.nth 1] },
    { chain := ⟨.nth 2, .nth 3, 2⟩, preds := [.nth 0, .nth 2] }, { succs := [.nth 1] }]
  cells := .ofList [
    { operation := .read (.nth 0), block := .nth 0, next := .nth 1 },
    { operation := .assign (.nth 1) (.var (.nth 0)), block := .nth 0, prev := .nth 0 },
    { operation := .write (.var (.nth 1)), block := .nth 1, next := .nth 3 },
    { operation := .ret (.lit 0), block := .nth 1, prev := .nth 2 }]
  vars := .ofList [some "x", some "t"]

-- The same with a read into the variable of the copy in the block that nothing leads to.
def noisy : Body :=
  { quiet with
    name := "noisy"
    blocks := quiet.blocks.put (.nth 2) { chain := ⟨.nth 4, .nth 4, 1⟩, succs := [.nth 1] }
    cells := .ofList (quiet.cells.toList ++ [{ operation := .read (.nth 1), block := .nth 2 }]) }

theorem quiet_reached (block : Block) (reached : quiet.Reaches quiet.entry block) : block = .nth 0 ∨ block = .nth 1 := by
  obtain ⟨blocks, path⟩ := reached
  have inner (source target : Block) (blocks : List Block) (path : Path quiet source blocks target)
      (starts : source = .nth 0 ∨ source = .nth 1) : target = .nth 0 ∨ target = .nth 1 := by
    induction path with
    | here => exact starts
    | step source succ target blocks edge _ ih =>
      apply ih
      rcases starts with rfl | rfl
      · exact .inr (List.mem_singleton.mp edge)
      · cases edge
  exact inner quiet.entry block blocks path (.inl rfl)

theorem quiet_alike : quiet.ReachedAlike noisy where
  entry := rfl
  size := rfl
  edges := fun source target => by
    have same : noisy.succs source = quiet.succs source := by
      match source with
      | .invalid | .nth 0 | .nth 1 | .nth 2 | .nth (_ + 3) => rfl
    rw [same]
  layout := fun block reached => by
    rcases quiet_reached block reached with rfl | rfl
    · rfl
    · rfl
  operations := fun block reached inst member => by
    rcases quiet_reached block reached with rfl | rfl
    · have placed : inst ∈ [Ref.nth 0, Ref.nth 1] := member
      rcases List.mem_pair.mp placed with rfl | rfl
      · rfl
      · rfl
    · have placed : inst ∈ [Ref.nth 2, Ref.nth 3] := member
      rcases List.mem_pair.mp placed with rfl | rfl
      · rfl
      · rfl
  memory := fun pinned others taken otherTaken => by
    have none : quiet.addressTaken = .ok .empty := by rfl
    have otherNone : noisy.addressTaken = .ok .empty := by rfl
    rw [none] at taken
    rw [otherNone] at otherTaken
    cases taken
    cases otherTaken
    rfl

theorem noisy_shows_in_copies_only : quiet.check = .ok () ∧ noisy.check = .ok () ∧ quiet.ReachedAlike noisy ∧
    (∃ facts others, quiet.analyze quiet.dominatorAnalysis = .ok facts ∧ noisy.analyze noisy.dominatorAnalysis = .ok others ∧
      quiet.AgreeReached quiet.dominatorAnalysis.same facts others) ∧
    (∃ analysis twin facts others, quiet.constantAnalysis = .ok analysis ∧ noisy.constantAnalysis = .ok twin ∧
      quiet.analyze analysis = .ok facts ∧ noisy.analyze twin = .ok others ∧ quiet.AgreeReached analysis.same facts others) ∧
    (∃ facts others, quiet.analyze quiet.livenessAnalysis = .ok facts ∧ noisy.analyze noisy.livenessAnalysis = .ok others ∧
      quiet.AgreeReached quiet.livenessAnalysis.same facts others) ∧
    ∃ copies twins facts others, quiet.copies = .ok copies ∧ noisy.copies = .ok twins ∧
      quiet.analyze (copies.analysis quiet) = .ok facts ∧ noisy.analyze (twins.analysis noisy) = .ok others ∧
      (quiet.AgreeReached (copies.analysis quiet).same facts others ↔
        ∀ block, quiet.Reaches quiet.entry block → ∀ inst,
          (quiet.EndedAhead copies block inst → ¬ HoldsAt others block inst) ∧
            (noisy.EndedAhead twins block inst → ¬ HoldsAt facts block inst)) := by
  have accepted : quiet.check = .ok () := by rfl
  have otherAccepted : noisy.check = .ok () := by rfl
  exact ⟨accepted, otherAccepted, quiet_alike,
    unreached_code_shows_in_copies_only quiet noisy quiet_alike accepted otherAccepted⟩

-- The copy holds at the second block of the first body and not of the second, though nothing that runs tells them apart.
theorem noisy_read_ends_copy : quiet.check = .ok () ∧ noisy.check = .ok () ∧ quiet.ReachedAlike noisy ∧
    ∃ copies twins facts others, quiet.copies = .ok copies ∧ noisy.copies = .ok twins ∧
      quiet.analyze (copies.analysis quiet) = .ok facts ∧ noisy.analyze (twins.analysis noisy) = .ok others ∧
      ¬ quiet.AgreeReached (copies.analysis quiet).same facts others := by
  have accepted : quiet.check = .ok () := by rfl
  have otherAccepted : noisy.check = .ok () := by rfl
  obtain ⟨copies, facts, found, _, solved⟩ := copies_solved quiet accepted
  obtain ⟨twins, others, twinFound, _, twinSolved⟩ := copies_solved noisy otherAccepted
  refine ⟨accepted, otherAccepted, quiet_alike, copies, twins, facts, others, found, twinFound, solved.found, twinSolved.found, ?_⟩
  have differ : (do
      let facts ← quiet.analyze ((← quiet.copies).analysis quiet)
      let others ← noisy.analyze ((← noisy.copies).analysis noisy)
      return others.atEntry.get? (.nth 1) == facts.atEntry.get? (.nth 1) : Except Fault Bool).toOption = some false := by
    decide +kernel
  intro agree
  have reached : quiet.Reaches quiet.entry (.nth 1) :=
    reaches_of_edge quiet (.nth 0) (.nth 1) (.nth 1) List.mem_cons_self (reaches_self quiet _)
  obtain ⟨⟨fact, other, entry, otherEntry, same⟩, _⟩ := agree (.nth 1) reached
  simp only [found, twinFound, solved.found, twinSolved.found, entry, otherEntry, bind, Except.bind, pure, Except.pure,
    Except.toOption, Option.some.injEq] at differ
  have equal : (other == fact) = true := same
  exact Bool.noConfusion (equal.symm.trans differ)

end Body

end ThreeAddress
