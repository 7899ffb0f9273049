import ThreeAddress.Proofs.Dataflow.SameFacts
import ThreeAddress.Proofs.Optimizer.Rewrites
import ThreeAddress.Proofs.Optimizer.Settled

/-!
Constant propagation does all it can at once. An operation that was rewritten by a fact has, under that fact and under all
that know more, the effect on facts that it had before: so no fact of the rewritten body is any better than before, and
nothing is left to substitute or to fold.
-/

set_option autoImplicit false

namespace ThreeAddress

namespace Constants

theorem over_both (low high : ConstFact) (lowSound : low.Sound) (highSound : high.Sound) (more : List Var) :
    low.Over (low.keys ++ high.keys ++ more) ∧ high.Over (low.keys ++ high.keys ++ more) :=
  ⟨Bindings.over_of_keys _ low lowSound fun key bound => by simp [bound],
    Bindings.over_of_keys _ high highSound fun key bound => by simp [bound]⟩

theorem sound_step (pinned : OrderedSet Var) (inst : Inst) (operation : Operation) (fact : ConstFact) (sound : fact.Sound) :
    (step pinned inst operation fact).Sound := by
  have covered := (over_both fact fact sound sound operation.def?.toList).1
  exact Bindings.sound_of_over _ _ (over_step pinned _ inst operation fact covered fun dst defines => by simp [defines])

theorem fold_known (fact : ConstFact) (operation replacement : Operation) (folded : fold? fact operation = some replacement) :
    ∃ dst value, replacement = .assign dst (.lit value) ∧ eval? fact operation = some value := by
  cases operation with
  | binary op dst lhs rhs | unary op dst src =>
    obtain ⟨value, known, made⟩ := Option.map_eq_some_iff.mp folded
    exact ⟨dst, value, made.symm, known⟩
  | _ => cases folded

section Above

variable (low high : ConstFact) (lowSound : low.Sound) (highSound : high.Sound) (less : Bindings.le low high)

include lowSound highSound less

theorem step_le (pinned : OrderedSet Var) (inst : Inst) (operation : Operation) :
    Bindings.le (step pinned inst operation low) (step pinned inst operation high) := by
  obtain ⟨lowOver, highOver⟩ := over_both low high lowSound highSound operation.def?.toList
  exact step_mono pinned _ inst operation low high lowOver highOver (fun dst defines => by simp [defines]) less

variable (notTop : high ≠ .top)

include notTop

theorem get_above (var : Var) (value : Int64) (found : low.get? var = some value) : high.get? var = some value := by
  obtain ⟨lowOver, highOver⟩ := over_both low high lowSound highSound []
  exact Bindings.get_mono _ low high lowOver highOver less notTop var value found

theorem eval_above (operation : Operation) (value : Int64) (found : eval? low operation = some value) :
    eval? high operation = some value := by
  obtain ⟨lowOver, highOver⟩ := over_both low high lowSound highSound []
  exact eval_mono _ low high lowOver highOver less notTop operation value found

theorem operand_substitute (tally : Tally) (operand : Operand) :
    operand? high (tally.substitute (fun var => (low.get? var).map .lit) operand).2 = operand? high operand := by
  rw [Tally.substitute]
  cases known : operand.var?.bind fun var => (low.get? var).map Operand.lit with
  | none => rfl
  | some replacement =>
    obtain ⟨var, reads, replaces⟩ := Option.bind_eq_some_iff.mp known
    obtain ⟨value, found, rfl⟩ := Option.map_eq_some_iff.mp replaces
    by_cases granted : tally.pay.1 = true
    · simp only [granted, if_true]
      cases operand with
      | lit literal => cases reads
      | var name =>
        obtain rfl : name = var := Option.some.inj reads
        exact (get_above low high lowSound highSound less notTop name value found).symm
    · simp only [granted]
      rfl

theorem eval_fold (operation replacement : Operation) (folded : fold? low operation = some replacement) :
    eval? high replacement = eval? high operation := by
  obtain ⟨dst, value, rfl, known⟩ := fold_known low operation replacement folded
  exact (eval_above low high lowSound highSound less notTop operation value known).symm

omit lowSound highSound less notTop in
theorem eval_update_uses {σ : Type} (f : σ → Operand → σ × Operand)
    (same : ∀ state operand, operand? high (f state operand).2 = operand? high operand) (state : σ) (operation : Operation) :
    eval? high (operation.updateUses f state).2 = eval? high operation := by
  cases operation <;> simp only [Operation.updateUses, eval?, same]

theorem eval_edit_step (pinned : OrderedSet Var) (tally : Tally) (inst : Inst) (operation : Operation) :
    eval? high (editStep pinned low tally inst operation).2.2 = eval? high operation := by
  let substituted := operation.updateUses (Tally.substitute fun var => (low.get? var).map .lit) tally
  have first : eval? high substituted.2 = eval? high operation :=
    eval_update_uses high _ (operand_substitute low high lowSound highSound less notTop) tally operation
  exact Tally.replace_holds (fun now => eval? high now = eval? high operation) substituted.1 substituted.2
    (fold? low substituted.2) first fun replacement folded =>
      (eval_fold low high lowSound highSound less notTop substituted.2 replacement folded).trans first

end Above

section Echo

variable (pinned : OrderedSet Var)

theorem step_edit_step (low high : ConstFact) (lowSound : low.Sound) (highSound : high.Sound) (less : Bindings.le low high)
    (tally : Tally) (inst : Inst) (operation : Operation) :
    step pinned inst (editStep pinned low tally inst operation).2.2 high = step pinned inst operation high := by
  have kept := step_keeps pinned low tally inst operation
  cases high with
  | top =>
    have stays (operation : Operation) : step pinned inst operation .top = .top :=
      (Bindings.is_top_iff _).mp (is_top_step pinned inst operation .top)
    rw [stays, stays]
  | known map =>
    have sees := eval_edit_step low (.known map) lowSound highSound less nofun pinned tally inst operation
    have writes : written (editStep pinned low tally inst operation).2.2 (.known map) = written operation (.known map) := by
      rw [written, written, kept.defines, sees]
    rw [step_eq, step_eq, writes, Operation.keeps_clobbers_memory _ _ kept]

theorem transfer_edited (code : List (Inst × Operation)) (tally : Tally) (low high : ConstFact) (lowSound : low.Sound)
    (highSound : high.Sound) (less : Bindings.le low high) :
    (Body.editedCode (editStep pinned) low tally code).2.foldl (fun fact entry => step pinned entry.1 entry.2 fact) high =
      code.foldl (fun fact entry => step pinned entry.1 entry.2 fact) high := by
  induction code generalizing tally low high with
  | nil => rfl
  | cons entry rest ih =>
    obtain ⟨inst, operation⟩ := entry
    let edited := editStep pinned low tally inst operation
    have here := step_edit_step pinned low high lowSound highSound less tally inst operation
    have goesOn := ih edited.2.1 _ _ (sound_step pinned inst edited.2.2 low lowSound)
      (sound_step pinned inst edited.2.2 high highSound) (step_le low high lowSound highSound less pinned inst edited.2.2)
    rw [List.foldl_cons, ← here]
    exact goesOn

end Echo

structure Settled (fact : ConstFact) (operation : Operation) : Prop where
  unknown : ∀ operand ∈ operation.uses, ∀ var, operand = .var var → fact.get? var = none
  unfolded : fold? fact operation = none

def SettledCode (pinned : OrderedSet Var) : ConstFact → List (Inst × Operation) → Prop
  | _, [] => True
  | fact, (inst, operation) :: rest => Settled fact operation ∧ SettledCode pinned (step pinned inst operation fact) rest

section Settled

variable (pinned : OrderedSet Var)

theorem edit_step_settled (fact : ConstFact) (inst : Inst) (operation : Operation) (settled : Settled fact operation)
    (tally : Tally) : editStep pinned fact tally inst operation = (step pinned inst operation fact, tally, operation) := by
  have same := operation.update_uses_unknown (fun var => fact.get? var) settled.unknown tally
  simp only [editStep, same, settled.unfolded, Tally.replace]

theorem idles_settled (fact : ConstFact) (code : List (Inst × Operation)) (settled : SettledCode pinned fact code) :
    Body.Idles (editStep pinned) fact code := by
  induction code generalizing fact with
  | nil => trivial
  | cons entry rest ih =>
    obtain ⟨inst, operation⟩ := entry
    intro tally
    rw [edit_step_settled pinned fact inst operation settled.1 tally]
    exact ⟨rfl, ih _ settled.2⟩

theorem settled_edit_step (fact : ConstFact) (tally : Tally) (unlimited : tally.Unlimited) (inst : Inst)
    (operation : Operation) :
    (editStep pinned fact tally inst operation).2.1.Unlimited ∧ Settled fact (editStep pinned fact tally inst operation).2.2 := by
  obtain ⟨paid, unknown⟩ := operation.update_uses_unlimited (fun var => fact.get? var) tally unlimited
  rw [editStep]
  generalize operation.updateUses (Tally.substitute fun var => (fact.get? var).map .lit) tally = substituted at paid unknown
  obtain ⟨still, becomes⟩ := substituted.1.replace_unlimited paid substituted.2 (fold? fact substituted.2)
  refine ⟨still, ?_⟩
  dsimp only
  rw [becomes]
  cases folded : fold? fact substituted.2 with
  | none => exact ⟨unknown, folded⟩
  | some replacement =>
    obtain ⟨dst, value, rfl, _⟩ := fold_known fact substituted.2 replacement folded
    exact ⟨fun operand member var reads => by simp [Operation.uses, reads] at member, rfl⟩

theorem settled_edited (code : List (Inst × Operation)) (fact : ConstFact) (tally : Tally) (unlimited : tally.Unlimited) :
    SettledCode pinned fact (Body.editedCode (editStep pinned) fact tally code).2 := by
  induction code generalizing fact tally with
  | nil => trivial
  | cons entry rest ih =>
    obtain ⟨paid, settled⟩ := settled_edit_step pinned fact tally unlimited entry.1 entry.2
    exact ⟨settled, ih _ _ paid⟩

end Settled

structure Same (fact other : ConstFact) : Prop where
  sound : fact.Sound
  otherSound : other.Sound
  below : Bindings.le fact other
  above : Bindings.le other fact

section Same

variable (fact other : ConstFact) (same : Same fact other)

include same

theorem same_step (pinned : OrderedSet Var) (inst : Inst) (operation : Operation) :
    Same (step pinned inst operation fact) (step pinned inst operation other) where
  sound := sound_step pinned inst operation fact same.sound
  otherSound := sound_step pinned inst operation other same.otherSound
  below := step_le fact other same.sound same.otherSound same.below pinned inst operation
  above := step_le other fact same.otherSound same.sound same.above pinned inst operation

theorem same_is_top : other.isTop = fact.isTop := by
  have below := same.below
  have above := same.above
  cases other <;> cases fact <;> first | rfl | exact below.elim | exact above.elim

theorem same_get (var : Var) : other.get? var = fact.get? var := by
  have tops := same_is_top fact other same
  cases other with
  | top => rw [(Bindings.is_top_iff fact).mp tops.symm]
  | known larger =>
    cases fact with
    | top => cases tops
    | known map =>
      refine Option.ext fun value => ⟨?_, ?_⟩
      · exact get_above (.known larger) (.known map) same.otherSound same.sound same.above nofun var value
      · exact get_above (.known map) (.known larger) same.sound same.otherSound same.below nofun var value

theorem same_entries : other.entries? = fact.entries? := by
  have tops := same_is_top fact other same
  cases other with
  | top => rw [(Bindings.is_top_iff fact).mp tops.symm]
  | known larger =>
    cases fact with
    | top => cases tops
    | known map =>
      exact congrArg some (OrderedMap.to_list_ext larger map (same.otherSound larger rfl) (same.sound map rfl) fun entry =>
        ⟨same.above entry, same.below entry⟩)

theorem same_settled (operation : Operation) (settled : Settled fact operation) : Settled other operation := by
  have bindings := same_get fact other same
  have operands (operand : Operand) : operand? other operand = operand? fact operand := by
    cases operand with
    | lit value => rfl
    | var name => exact bindings name
  have values : eval? other operation = eval? fact operation := by
    cases operation <;> simp only [eval?, operands]
  have folded : fold? other operation = fold? fact operation := by
    cases operation <;> simp only [fold?, values]
  exact ⟨fun operand member var reads => (bindings var).trans (settled.unknown operand member var reads),
    folded.trans settled.unfolded⟩

theorem same_settled_code (pinned : OrderedSet Var) (code : List (Inst × Operation)) (settled : SettledCode pinned fact code) :
    SettledCode pinned other code := by
  induction code generalizing fact other with
  | nil => trivial
  | cons entry rest ih =>
    obtain ⟨inst, operation⟩ := entry
    exact ⟨same_settled fact other same operation settled.1, ih _ _ (same_step fact other same pinned inst operation) settled.2⟩

end Same

end Constants

namespace Body

theorem known_at_iff (pinned : OrderedSet Var) (body : Body) (facts : BlockFacts ConstFact) (fits : facts.Fits body)
    (block : Block) (inside : body.blocks.contains block = true) (fact : ConstFact) :
    knownAt facts block = some fact ↔
      Solver.inflow (Constants.analysis pinned body) facts block = fact ∧ fact.isTop = false := by
  obtain ⟨stored, found⟩ :=
    (Arena.contains_iff _ _).mp ((Arena.contains_of_size _ _ fits.entries block).trans inside)
  have flows : Solver.inflow (Constants.analysis pinned body) facts block = stored := by
    simp only [Solver.inflow, Constants.analysis, found, Option.getD_some]
  rw [knownAt, found, flows, Option.filter_eq_some_iff, Option.some.injEq, Bool.not_eq_true']

theorem known_at_inside (body : Body) (facts : BlockFacts ConstFact) (fits : facts.Fits body) (block : Block)
    (fact : ConstFact) (begins : knownAt facts block = some fact) : body.blocks.contains block = true := by
  obtain ⟨stored, _⟩ := Option.filter_eq_some_iff.mp begins
  exact (Arena.contains_of_size _ _ fits.entries block).symm.trans (Arena.contains_of_get _ _ _ stored)

theorem propagated_settled (body propagated : Body) (pinned : OrderedSet Var) (facts : BlockFacts ConstFact)
    (fits : facts.Fits body)
    (under : ∀ block, body.blocks.contains block = true →
      EditedUnder (Constants.editStep pinned) Tally.Unlimited (knownAt facts) block (body.code block) (propagated.code block))
    (block : Block) (fact : ConstFact) (begins : knownAt facts block = some fact) :
    Constants.SettledCode pinned fact (propagated.code block) := by
  have code := under block (known_at_inside body facts fits block fact begins)
  rw [EditedUnder, begins] at code
  obtain ⟨tally, unlimited, after⟩ := code
  rw [after]
  exact Constants.settled_edited pinned (body.code block) fact tally unlimited

section Settles

variable (body propagated : Body) (pinned : OrderedSet Var) (facts : BlockFacts ConstFact)
  (edited : CodeEdited (Constants.editStep pinned) (knownAt facts) body propagated)
  (answers : Solver.Answers (Constants.analysis pinned body) body Bindings.Sound Bindings.le facts)

include edited answers

-- Below the solved fact an edited block may well do better, but no fact is ever there.
theorem constants_echo : Solver.Echoes (Constants.analysis pinned body) (Constants.analysis pinned propagated) body
    propagated Bindings.Sound Bindings.le facts where
  blocks := frame_contains body propagated edited.frame
  joins := fun outs block => by
    simp only [Solver.joined, Solver.start, Solver.sources, Constants.analysis, edited.rest.entry, edited.frame.preds]
    rfl
  transfers := fun block fact inside sound less => by
    have code := edited.code block inside
    change (propagated.code block).foldl (fun fact entry => Constants.step pinned entry.1 entry.2 fact) fact =
      (body.code block).foldl (fun fact entry => Constants.step pinned entry.1 entry.2 fact) fact
    rw [EditedFrom] at code
    cases begins : knownAt facts block with
    | none =>
      rw [begins] at code
      rw [code]
    | some start =>
      rw [begins] at code
      obtain ⟨tally, after⟩ := code
      obtain ⟨flows, _⟩ := (known_at_iff pinned body facts answers.fits block inside start).mp begins
      rw [after]
      exact Constants.transfer_edited pinned (body.code block) tally start fact (flows ▸ answers.ins block) sound (flows ▸ less)

variable (accepted : body.check = .ok ()) (again : BlockFacts ConstFact)
  (otherAnswers : Solver.Answers (Constants.analysis pinned propagated) propagated Bindings.Sound Bindings.le again)

include accepted otherAnswers

theorem constants_same (block : Block) (inside : body.blocks.contains block = true) :
    Constants.Same (Solver.inflow (Constants.analysis pinned body) facts block)
        (Solver.inflow (Constants.analysis pinned propagated) again block) ∧
      Constants.Same (Solver.outgoing (Constants.analysis pinned body) facts block)
        (Solver.outgoing (Constants.analysis pinned propagated) again block) := by
  have otherAccepted := (edited_structure _ _ body propagated accepted edited (Constants.step_keeps pinned)).1
  obtain ⟨⟨below, above⟩, outBelow, outAbove⟩ := Solver.echoes_agree _ _ body propagated _ _ accepted otherAccepted
    (Constants.sound_lawful pinned body) (Constants.sound_lawful pinned propagated) facts again answers otherAnswers
    (fun _ _ => trivial) (fun _ _ => trivial) (constants_echo body propagated pinned facts edited answers) block inside
  exact ⟨⟨answers.ins block, otherAnswers.ins block, below, above⟩, answers.outs block, otherAnswers.outs block, outBelow,
    outAbove⟩

-- Where the second run starts from a fact, the first run has started from the same and has left nothing to do.
theorem propagated_idles
    (settled : ∀ block fact, knownAt facts block = some fact → Constants.SettledCode pinned fact (propagated.code block))
    (block : Block) (fact : ConstFact) (begins : knownAt again block = some fact) :
    Idles (Constants.editStep pinned) fact (propagated.code block) := by
  have otherInside := known_at_inside propagated again otherAnswers.fits block fact begins
  have inside := (frame_contains body propagated edited.frame block).symm.trans otherInside
  have same := (constants_same body propagated pinned facts edited answers accepted again otherAnswers block inside).1
  obtain ⟨flows, reached⟩ := (known_at_iff pinned propagated again otherAnswers.fits block otherInside fact).mp begins
  rw [flows] at same
  generalize first : Solver.inflow (Constants.analysis pinned body) facts block = before at same
  have firstBegins : knownAt facts block = some before :=
    (known_at_iff pinned body facts answers.fits block inside before).mpr
      ⟨first, (Constants.same_is_top before fact same).symm.trans reached⟩
  exact Constants.idles_settled pinned fact _
    (Constants.same_settled_code before fact same pinned _ (settled block before firstBegins))

end Settles

def ConstantsEqual (body : Body) (facts others : Arena .block ConstFact) : Prop :=
  ∀ block, body.blocks.contains block = true → ∃ fact other, facts.get? block = some fact ∧
    others.get? block = some other ∧ other.entries? = fact.entries? ∧ (other == fact) = true

theorem constants_equal_of_same (body : Body) (facts others : Arena .block ConstFact) (size : facts.size = body.blocks.size)
    (otherSize : others.size = body.blocks.size)
    (same : ∀ block, body.blocks.contains block = true →
      Constants.Same ((facts.get? block).getD .top) ((others.get? block).getD .top)) : body.ConstantsEqual facts others := by
  intro block inside
  obtain ⟨fact, found⟩ := (Arena.contains_iff _ _).mp ((Arena.contains_of_size _ _ size block).trans inside)
  obtain ⟨other, otherFound⟩ := (Arena.contains_iff _ _).mp ((Arena.contains_of_size _ _ otherSize block).trans inside)
  have equal := same block inside
  rw [found, otherFound] at equal
  refine ⟨fact, other, found, otherFound, Constants.same_entries fact other equal, ?_⟩
  exact ((Constants.sound_lawful .empty body).same_iff other fact equal.otherSound equal.sound).mpr ⟨equal.above, equal.below⟩

theorem constant_propagation_settles (body : Body) (accepted : body.check = .ok ()) (fuel : Fuel)
    (unlimited : fuel.remaining = none) :
    ∃ pinned facts tally propagated again, body.addressTaken = .ok pinned ∧
      body.analyze (Constants.analysis pinned body) = .ok facts ∧ body.propagateConstants fuel = .ok (tally, propagated) ∧
      propagated.addressTaken = .ok pinned ∧
      propagated.analyze (Constants.analysis pinned propagated) = .ok again ∧
      body.ConstantsEqual facts.atEntry again.atEntry ∧ body.ConstantsEqual facts.atExit again.atExit ∧
      (∀ block fact, knownAt facts block = some fact → Constants.SettledCode pinned fact (propagated.code block)) ∧
      ∀ more : Fuel, propagated.propagateConstants more = .ok (⟨more, 0⟩, propagated) := by
  obtain ⟨pinned, taken, _⟩ := address_taken_total body body.layout (well_formed_of_check body accepted).laid
  obtain ⟨facts, solved⟩ := constants_solved body accepted pinned
  obtain ⟨tally, propagated, done, edited, under⟩ := edit_code_edits_under (Constants.editStep pinned) Tally.Unlimited
    (fun fact tally inst operation unlimited => (Constants.settled_edit_step pinned fact tally unlimited inst operation).1)
    (knownAt facts) body accepted fuel unlimited
  have otherAccepted := (edited_structure _ _ body propagated accepted edited (Constants.step_keeps pinned)).1
  have otherTaken := (address_taken_edited _ _ body propagated accepted edited (Constants.step_keeps pinned)).trans taken
  obtain ⟨again, otherSolved⟩ := constants_solved propagated otherAccepted pinned
  have answers := Solver.answers_of_analyze _ body _ _ (Constants.sound_lawful pinned body) facts solved.found
  have otherAnswers :=
    Solver.answers_of_analyze _ propagated _ _ (Constants.sound_lawful pinned propagated) again otherSolved.found
  have same := constants_same body propagated pinned facts edited answers accepted again otherAnswers
  have settled := propagated_settled body propagated pinned facts answers.fits under
  have sizes := edited.frame.blocks
  refine ⟨pinned, facts, tally, propagated, again, taken, solved.found,
    (propagate_constants_eq body fuel pinned facts taken solved.found).trans done, otherTaken, otherSolved.found, ?_, ?_,
    settled, fun more => ?_⟩
  · exact constants_equal_of_same body _ _ answers.fits.entries (otherAnswers.fits.entries.trans sizes)
      fun block inside => (same block inside).1
  · exact constants_equal_of_same body _ _ answers.fits.exits (otherAnswers.fits.exits.trans sizes)
      fun block inside => (same block inside).2
  · rw [propagate_constants_eq propagated more pinned again otherTaken otherSolved.found]
    exact edit_code_idles _ propagated (knownAt again) otherAccepted (fun block _ =>
      propagated_idles body propagated pinned facts edited answers accepted again otherAnswers settled block) more

-- Two ways on which a variable gets one value, once as a literal and once as a product.
def rejoining : Body where
  name := "rejoining"
  entry := .nth 0
  blocks := .ofList [
    { chain := ⟨.nth 0, .nth 1, 2⟩, succs := [.nth 1, .nth 2] },
    { chain := ⟨.nth 2, .nth 3, 2⟩, succs := [.nth 3], preds := [.nth 0] },
    { chain := ⟨.nth 4, .nth 6, 3⟩, succs := [.nth 3], preds := [.nth 0] },
    { chain := ⟨.nth 7, .nth 10, 4⟩, preds := [.nth 1, .nth 2] }]
  cells := .ofList [
    { operation := .read (.nth 0), block := .nth 0, next := .nth 1 },
    { operation := .branch .eq (.var (.nth 0)) (.lit 0) (.nth 4), block := .nth 0, prev := .nth 0 },
    { operation := .assign (.nth 1) (.lit 6), block := .nth 1, next := .nth 3 },
    { operation := .goto (.nth 7), block := .nth 1, prev := .nth 2 },
    { operation := .label, block := .nth 2, next := .nth 5 },
    { operation := .assign (.nth 2) (.lit 2), block := .nth 2, prev := .nth 4, next := .nth 6 },
    { operation := .binary .mul (.nth 1) (.var (.nth 2)) (.lit 3), block := .nth 2, prev := .nth 5 },
    { operation := .label, block := .nth 3, next := .nth 8 },
    { operation := .binary .add (.nth 3) (.var (.nth 1)) (.lit 1), block := .nth 3, prev := .nth 7, next := .nth 9 },
    { operation := .write (.var (.nth 3)), block := .nth 3, prev := .nth 8, next := .nth 10 },
    { operation := .ret (.var (.nth 3)), block := .nth 3, prev := .nth 9 }]
  vars := .ofList [some "k", some "x", some "y", some "z"]

theorem rejoining_settles :
    rejoining.check = .ok () ∧ Fuel.infinite.remaining = none ∧
      ∃ tally propagated, rejoining.propagateConstants .infinite = .ok (tally, propagated) ∧ tally.count = 6 ∧
        propagated.operation? (.nth 10) = some (.ret (.lit 7)) ∧
        propagated.propagateConstants .infinite = .ok (⟨.infinite, 0⟩, propagated) := by
  have accepted : rejoining.check = .ok () := by rfl
  obtain ⟨pinned, facts, tally, propagated, again, _, _, done, _, _, _, _, _, idle⟩ :=
    constant_propagation_settles rejoining accepted .infinite rfl
  have rewritten : (rejoining.propagateConstants .infinite).toOption.map
      (fun after => (after.1.count, after.2.operation? (.nth 10))) = some (6, some (.ret (.lit 7))) := by decide +kernel
  rw [done] at rewritten
  obtain ⟨counted, returns⟩ := Prod.ext_iff.mp (Option.some.inj rewritten)
  exact ⟨accepted, rfl, tally, propagated, done, counted, returns, idle .infinite⟩

end Body

end ThreeAddress
