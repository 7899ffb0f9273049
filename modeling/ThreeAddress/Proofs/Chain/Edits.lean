import ThreeAddress.Proofs.Chain.Linked

/-!
What each edit of a chain does to the list that the chain holds, and what it leaves alone: operations always,
and the links of every instruction that is neither on the list nor moved.
-/

set_option autoImplicit false

namespace ThreeAddress

-- Cells whose links, parents and marks differ for these instructions at most. Operations never differ.
structure Cells.Edited (cells other : Cells) (relinked detached cleared : Inst → Prop) : Prop where
  size : other.size = cells.size
  operation : ∀ inst, (other.get? inst).map Cell.operation = (cells.get? inst).map Cell.operation
  links : ∀ inst, ¬ relinked inst → Cells.links? other inst = Cells.links? cells inst
  parent : ∀ inst, ¬ detached inst → (other.get? inst).map Cell.block = (cells.get? inst).map Cell.block
  mark : ∀ inst, ¬ cleared inst → (other.get? inst).map Cell.mark = (cells.get? inst).map Cell.mark

def nowhere (_ : Inst) : Prop := False

section Edited

variable (cells middle other : Cells) (relinked detached cleared : Inst → Prop)

theorem edited_refl : Cells.Edited cells cells relinked detached cleared where
  size := rfl
  operation := fun _ => rfl
  links := fun _ _ => rfl
  parent := fun _ _ => rfl
  mark := fun _ _ => rfl

theorem edited_trans (first : Cells.Edited cells middle relinked detached cleared)
    (second : Cells.Edited middle other relinked detached cleared) :
    Cells.Edited cells other relinked detached cleared where
  size := second.size.trans first.size
  operation := fun inst => (second.operation inst).trans (first.operation inst)
  links := fun inst outside => (second.links inst outside).trans (first.links inst outside)
  parent := fun inst outside => (second.parent inst outside).trans (first.parent inst outside)
  mark := fun inst outside => (second.mark inst outside).trans (first.mark inst outside)

theorem edited_mono (moreRelinked moreDetached moreCleared : Inst → Prop)
    (edited : Cells.Edited cells other relinked detached cleared) (links : ∀ inst, relinked inst → moreRelinked inst)
    (parents : ∀ inst, detached inst → moreDetached inst) (marks : ∀ inst, cleared inst → moreCleared inst) :
    Cells.Edited cells other moreRelinked moreDetached moreCleared where
  size := edited.size
  operation := edited.operation
  links := fun inst outside => edited.links inst fun inside => outside (links inst inside)
  parent := fun inst outside => edited.parent inst fun inside => outside (parents inst inside)
  mark := fun inst outside => edited.mark inst fun inside => outside (marks inst inside)

theorem edited_append (front back : List Inst) (first : Cells.Edited cells middle (· ∈ front) nowhere nowhere)
    (second : Cells.Edited middle other (· ∈ back) nowhere nowhere) :
    Cells.Edited cells other (· ∈ front ++ back) nowhere nowhere :=
  edited_trans cells middle other _ _ _
    (edited_mono cells middle _ _ _ _ _ _ first (fun _ => List.mem_append_left back) (fun _ => id) (fun _ => id))
    (edited_mono middle other _ _ _ _ _ _ second (fun _ => List.mem_append_right front) (fun _ => id) (fun _ => id))

theorem edited_present (edited : Cells.Edited cells other relinked detached cleared) (inst : Inst) (cell : Cell)
    (found : cells.get? inst = some cell) : ∃ now, other.get? inst = some now := by
  have same := edited.operation inst
  rw [found] at same
  obtain ⟨now, present, _⟩ := Option.map_eq_some_iff.mp same
  exact ⟨now, present⟩

end Edited

theorem modify_present {entity : Entity} {α : Type} (arena : Arena entity α) (ref : Ref entity) (value : α) (f : α → α)
    (found : arena.get? ref = some value) :
    arena.modify ref f = .ok (arena.put ref (f value)) ∧
      ∀ other, (arena.put ref (f value)).get? other = if ref = other then some (f value) else arena.get? other := by
  have inside : arena.contains ref = true := (arena.contains_iff ref).mpr ⟨value, found⟩
  refine ⟨?_, fun other => Arena.get_put arena ref other (f value) inside⟩
  simp [Arena.modify, Arena.get, found, bind, Except.bind, pure, Except.pure]

theorem modify_edited (cells : Cells) (inst : Inst) (cell : Cell) (f : Cell → Cell) (found : cells.get? inst = some cell)
    (relinked detached cleared : Inst → Prop) (operation : (f cell).operation = cell.operation)
    (links : ¬ relinked inst → ((f cell).prev, (f cell).next) = (cell.prev, cell.next))
    (parent : ¬ detached inst → (f cell).block = cell.block) (mark : ¬ cleared inst → (f cell).mark = cell.mark) :
    ∃ other, cells.modify inst f = .ok other ∧ Cells.Edited cells other relinked detached cleared ∧
      other.get? inst = some (f cell) := by
  obtain ⟨done, reads⟩ := modify_present cells inst cell f found
  have kept {β : Type} (view : Cell → β) (shown : Inst → Prop) (blind : ¬ shown inst → view (f cell) = view cell)
      (other : Inst) (hidden : ¬ shown other) :
      ((cells.put inst (f cell)).get? other).map view = (cells.get? other).map view := by
    rw [reads]
    by_cases same : inst = other
    · rw [if_pos same, ← same, found, Option.map_some, Option.map_some, blind (same ▸ hidden)]
    · rw [if_neg same]
  refine ⟨_, done, ⟨Arena.size_put _ _ _, fun other => ?_, ?_, ?_, ?_⟩, ?_⟩
  · exact kept Cell.operation (fun _ => False) (fun _ => operation) other id
  · exact kept (fun cell => (cell.prev, cell.next)) relinked links
  · exact kept Cell.block detached parent
  · exact kept Cell.mark cleared mark
  · rw [reads, if_pos rfl]

theorem modify_links (cells : Cells) (inst : Inst) (cell : Cell) (f : Cell → Cell) (found : cells.get? inst = some cell)
    (operation : (f cell).operation = cell.operation) (mark : (f cell).mark = cell.mark)
    (block : (f cell).block = cell.block) :
    ∃ other, cells.modify inst f = .ok other ∧ Cells.Edited cells other (· = inst) nowhere nowhere ∧
      Cells.links? other inst = some ((f cell).prev, (f cell).next) := by
  obtain ⟨other, done, edited, here⟩ := modify_edited cells inst cell f found (· = inst) nowhere nowhere operation
    (fun apart => (apart rfl).elim) (fun _ => block) (fun _ => mark)
  exact ⟨other, done, edited, by rw [Cells.links?, here]; rfl⟩

theorem detach_edited (cells : Cells) (inst : Inst) (cell : Cell) (found : cells.get? inst = some cell) :
    ∃ other, cells.modify inst (fun cell => { cell with prev := .invalid, next := .invalid, block := .invalid }) = .ok other ∧
      Cells.Edited cells other (· = inst) (· = inst) nowhere := by
  obtain ⟨other, done, edited, _⟩ := modify_edited cells inst cell
    (fun cell => { cell with prev := .invalid, next := .invalid, block := .invalid }) found (· = inst) (· = inst) nowhere rfl
    (fun apart => (apart rfl).elim) (fun apart => (apart rfl).elim) (fun _ => rfl)
  exact ⟨other, done, edited⟩

theorem mark_edited (cells : Cells) (inst : Inst) (cell : Cell) (found : cells.get? inst = some cell) (mark : Bool) :
    ∃ other, cells.modify inst (fun cell => { cell with mark := mark }) = .ok other ∧
      Cells.Edited cells other nowhere nowhere (· = inst) ∧ other.get? inst = some { cell with mark := mark } :=
  modify_edited cells inst cell (fun cell => { cell with mark := mark }) found nowhere nowhere (· = inst) rfl
    (fun _ => rfl) (fun _ => rfl) (fun apart => (apart rfl).elim)

theorem adopt_edited (cells : Cells) (inst : Inst) (cell : Cell) (found : cells.get? inst = some cell) (block : Block) :
    ∃ other, cells.modify inst (fun cell => { cell with block := block }) = .ok other ∧
      Cells.Edited cells other nowhere (· = inst) nowhere ∧ other.get? inst = some { cell with block := block } :=
  modify_edited cells inst cell (fun cell => { cell with block := block }) found nowhere (· = inst) nowhere rfl
    (fun _ => rfl) (fun apart => (apart rfl).elim) (fun _ => rfl)

theorem linked_retarget (cells other : Cells) (before after next : Inst) (front : List Inst) (once : front.Nodup)
    (linked : Linked cells before front after)
    (same : ∀ inst, front.getLast? ≠ some inst → Cells.links? other inst = Cells.links? cells inst)
    (last : ∀ inst prev, front.getLast? = some inst → Cells.links? cells inst = some (prev, after) →
      Cells.links? other inst = some (prev, next)) : Linked other before front next := by
  rcases List.eq_nil_or_concat front with none | ⟨early, final, whole⟩
  · subst none
    trivial
  · subst whole
    rw [List.concat_eq_append] at linked last same once ⊢
    obtain ⟨earlyLinked, here, _⟩ := (linked_append cells before after early [final]).mp linked
    have ends : (early ++ [final]).getLast? = some final := by simp
    refine (linked_append other before next early [final]).mpr ⟨?_, last final _ ends here, trivial⟩
    refine (linked_congr cells other before final early fun inst member => same inst ?_).mpr earlyLinked
    rw [ends]
    intro collision
    cases collision
    exact (List.nodup_append.mp once).2.2 final member final (List.mem_singleton.mpr rfl) rfl

theorem linked_reenter (cells other : Cells) (before prev after : Inst) (back : List Inst) (once : back.Nodup)
    (linked : Linked cells before back after)
    (same : ∀ inst, back.head? ≠ some inst → Cells.links? other inst = Cells.links? cells inst)
    (first : ∀ inst next, back.head? = some inst → Cells.links? cells inst = some (before, next) →
      Cells.links? other inst = some (prev, next)) : Linked other prev back after := by
  cases back with
  | nil => trivial
  | cons inst rest =>
    refine ⟨first inst _ rfl linked.1, ?_⟩
    refine (linked_congr cells other inst after rest fun later member => same later ?_).mpr linked.2
    intro collision
    cases collision
    exact (List.nodup_cons.mp once).1 member

theorem lead_linked (cells : Cells) (front : List Inst) (after next : Inst) (some : front ≠ []) (once : front.Nodup)
    (linked : Linked cells .invalid front after) :
    ∃ index other, front.getLastD .invalid = .nth index ∧
      cells.modify (.nth index) (fun cell => { cell with next := next }) = .ok other ∧
      Cells.Edited cells other (· ∈ front) nowhere nowhere ∧ Linked other .invalid front next := by
  rcases List.eq_nil_or_concat front with none | ⟨early, last, rfl⟩
  · exact (some none).elim
  rw [List.concat_eq_append] at linked once ⊢
  obtain ⟨_, here, _⟩ := (linked_append cells .invalid after early [last]).mp linked
  obtain ⟨cell, found, prev, _⟩ := (links_some_iff cells last _ _).mp here
  obtain ⟨other, done, edited, links⟩ := modify_links cells last cell (fun cell => { cell with next := next }) found
    rfl rfl rfl
  cases last with
  | invalid => cases found
  | nth index =>
    refine ⟨index, other, by simp, done, edited_mono cells other _ _ _ _ _ _ edited ?_ (fun _ => id) (fun _ => id), ?_⟩
    · intro other same
      exact List.mem_append_right early (List.mem_singleton.mpr same)
    · refine linked_retarget cells other .invalid after _ _ once linked (fun other apart => ?_) (fun other before same link => ?_)
      · refine edited.links other fun same => apart ?_
        rw [same]
        simp
      · obtain rfl : Ref.nth index = other := by simpa using same
        cases here.symm.trans link
        rw [links, ← prev]

theorem enter_linked (cells : Cells) (back : List Inst) (before prev : Inst) (some : back ≠ []) (once : back.Nodup)
    (linked : Linked cells before back .invalid) :
    ∃ index other, back.headD .invalid = .nth index ∧
      cells.modify (.nth index) (fun cell => { cell with prev := prev }) = .ok other ∧
      Cells.Edited cells other (· ∈ back) nowhere nowhere ∧ Linked other prev back .invalid := by
  cases back with
  | nil => exact (some rfl).elim
  | cons first rest =>
    obtain ⟨cell, found, _, next⟩ := (links_some_iff cells first _ _).mp linked.1
    obtain ⟨other, done, edited, links⟩ := modify_links cells first cell (fun cell => { cell with prev := prev }) found
      rfl rfl rfl
    cases first with
    | invalid => cases found
    | nth index =>
      refine ⟨index, other, rfl, done, edited_mono cells other _ _ _ _ _ _ edited ?_ (fun _ => id) (fun _ => id), ?_⟩
      · exact fun other same => same ▸ List.mem_cons_self
      · refine linked_reenter cells other before _ .invalid _ once linked (fun other apart => ?_) (fun other after same link => ?_)
        · exact edited.links other fun same => apart (by rw [same]; rfl)
        · obtain rfl : Ref.nth index = other := by simpa using same
          cases linked.1.symm.trans link
          rw [links, ← next]

namespace Chain

theorem close_forward_linked (chain : Chain) (cells : Cells) (front back : List Inst) (inst : Inst) (once : front.Nodup)
    (linked : Linked cells .invalid front inst) :
    ∃ other, chain.closeForward cells (front.getLastD .invalid) (back.headD .invalid) =
        .ok ({ chain with head := if front = [] then back.headD .invalid else chain.head }, other) ∧
      Cells.Edited cells other (· ∈ front) nowhere nowhere ∧ Linked other .invalid front (back.headD .invalid) := by
  by_cases none : front = []
  · subst none
    exact ⟨cells, rfl, edited_refl cells _ _ _, trivial⟩
  · obtain ⟨index, other, last, done, edited, led⟩ := lead_linked cells front inst (back.headD .invalid) none once linked
    refine ⟨other, ?_, edited, led⟩
    rw [last, if_neg none]
    simp only [closeForward, done, bind, Except.bind]
    rfl

theorem close_backward_linked (chain : Chain) (cells : Cells) (front back : List Inst) (inst : Inst) (once : back.Nodup)
    (linked : Linked cells inst back .invalid) :
    ∃ other, chain.closeBackward cells (front.getLastD .invalid) (back.headD .invalid) =
        .ok ({ chain with tail := if back = [] then front.getLastD .invalid else chain.tail }, other) ∧
      Cells.Edited cells other (· ∈ back) nowhere nowhere ∧ Linked other (front.getLastD .invalid) back .invalid := by
  by_cases none : back = []
  · subst none
    exact ⟨cells, rfl, edited_refl cells _ _ _, trivial⟩
  · obtain ⟨index, other, first, done, edited, entered⟩ :=
      enter_linked cells back inst (front.getLastD .invalid) none once linked
    refine ⟨other, ?_, edited, entered⟩
    rw [first, if_neg none]
    simp only [closeBackward, done, bind, Except.bind]
    rfl

theorem head_d_append_ne (front back : List Inst) (default : Inst) :
    (front ++ back).headD default = if front = [] then back.headD default else front.headD default := by
  cases front <;> simp

theorem get_last_d_cons_ne (inst : Inst) (back : List Inst) (default : Inst) (some : back ≠ []) :
    (inst :: back).getLastD default = back.getLastD default := by
  cases back with
  | nil => exact (some rfl).elim
  | cons other rest => rw [List.getLastD_cons, List.getLastD_cons, List.getLastD_cons]

theorem get_last_d_append_ne (front back : List Inst) (default : Inst) :
    (front ++ back).getLastD default = if back = [] then front.getLastD default else back.getLastD default := by
  rcases List.eq_nil_or_concat back with none | ⟨early, last, whole⟩
  · simp [none]
  · subst whole
    simp [← List.append_assoc]

theorem close_gap_linked (chain : Chain) (cells : Cells) (front back : List Inst) (inst : Inst)
    (linked : Linked cells .invalid (front ++ inst :: back) .invalid) :
    ∃ shifted first second,
      chain.closeForward cells (front.getLastD .invalid) (back.headD .invalid) = .ok (shifted, first) ∧
      shifted.closeBackward first (front.getLastD .invalid) (back.headD .invalid) =
        .ok (⟨if front = [] then back.headD .invalid else chain.head, if back = [] then front.getLastD .invalid else chain.tail,
          chain.size⟩, second) ∧
      Linked second .invalid (front ++ back) .invalid ∧ Cells.Edited cells second (· ∈ front ++ back) nowhere nowhere := by
  obtain ⟨frontOnce, restOnce, apart⟩ := List.nodup_append.mp (linked_nodup cells .invalid _ linked)
  obtain ⟨frontLinked, _, backLinked⟩ := (linked_append cells .invalid .invalid front (inst :: back)).mp linked
  obtain ⟨first, closedFront, firstEdited, firstLinked⟩ :=
    close_forward_linked chain cells front back inst frontOnce frontLinked
  have backStill : Linked first inst back .invalid :=
    (linked_congr cells first inst .invalid back fun other member =>
      firstEdited.links other fun inFront => apart other inFront other (List.mem_cons_of_mem _ member) rfl).mpr backLinked
  obtain ⟨second, closedBack, secondEdited, secondLinked⟩ := close_backward_linked
    { chain with head := if front = [] then back.headD .invalid else chain.head } first front back inst
    (List.nodup_cons.mp restOnce).2 backStill
  have frontStill : Linked second .invalid front (back.headD .invalid) :=
    (linked_congr first second .invalid _ front fun other member =>
      secondEdited.links other fun inBack => apart other member other (List.mem_cons_of_mem _ inBack) rfl).mpr firstLinked
  exact ⟨_, first, second, closedFront, closedBack, (linked_append _ _ _ front back).mpr ⟨frontStill, secondLinked⟩,
    edited_append cells first second front back firstEdited secondEdited⟩

theorem unlink_holds (chain : Chain) (cells : Cells) (front back : List Inst) (inst : Inst)
    (holds : chain.Holds cells (front ++ inst :: back)) :
    ∃ shorter other, chain.unlink cells inst = .ok (shorter, other) ∧ shorter.Holds other (front ++ back) ∧
      Cells.Edited cells other (· ∈ front ++ inst :: back) (· = inst) nowhere := by
  have fresh := (List.nodup_cons.mp ((linked_nodup cells .invalid _ holds.linked).perm List.perm_middle)).1
  obtain ⟨_, here, _⟩ := (linked_append cells .invalid .invalid front (inst :: back)).mp holds.linked
  obtain ⟨gone, found, prev, next⟩ := (links_some_iff cells inst _ _).mp here
  obtain ⟨shifted, first, second, closedFront, closedBack, secondLinked, edited⟩ :=
    close_gap_linked chain cells front back inst holds.linked
  obtain ⟨cell, present⟩ := edited_present cells second _ _ _ edited inst gone found
  obtain ⟨third, detached, thirdEdited⟩ := detach_edited second inst cell present
  have size : chain.size = front.length + back.length + 1 := by
    rw [holds.size, List.length_append, List.length_cons]
    omega
  refine ⟨⟨if front = [] then back.headD .invalid else chain.head, if back = [] then front.getLastD .invalid else chain.tail,
    front.length + back.length⟩, third, ?_, ⟨?_, ?_, ?_, List.length_append.symm⟩, ?_⟩
  · simp only [unlink, Arena.get, found, bind, Except.bind, prev, next, closedFront, closedBack, detached]
    simp only [size]
    rfl
  · exact (linked_congr second _ _ _ _ fun other member =>
      thirdEdited.links other fun same => fresh (same ▸ member)).mpr secondLinked
  · rw [head_d_append_ne, holds.head, head_d_append_ne]
    by_cases none : front = [] <;> simp [none]
  · rw [get_last_d_append_ne, holds.tail, get_last_d_append_ne, if_neg (List.cons_ne_nil inst back)]
    by_cases none : back = []
    · rw [if_pos none, if_pos none]
    · rw [if_neg none, if_neg none, get_last_d_cons_ne inst back .invalid none]
  · refine edited_trans cells second third _ _ _
      (edited_mono cells second _ _ _ _ _ _ edited (fun other member => ?_) (fun _ no => no.elim) (fun _ => id))
      (edited_mono second third _ _ _ _ _ _ thirdEdited
        (fun other same => same ▸ List.mem_append_right _ List.mem_cons_self) (fun _ => id) (fun _ => id))
    exact List.perm_middle.mem_iff.mpr (List.mem_cons_of_mem inst member)

-- The links between an instruction and the member behind it, before the one in front is told.
theorem splice_linked (cells : Cells) (front back : List Inst) (member inst : Inst)
    (linked : Linked cells .invalid (front ++ member :: back) .invalid) (fresh : inst ∉ front ++ member :: back)
    (cell : Cell) (present : cells.get? inst = some cell) :
    ∃ old first second, cells.get? member = some old ∧ old.prev = front.getLastD .invalid ∧
      cells.modify inst (fun cell => { cell with prev := old.prev, next := member }) = .ok first ∧
      first.modify member (fun cell => { cell with prev := inst }) = .ok second ∧
      Linked second .invalid front member ∧ Linked second (front.getLastD .invalid) (inst :: member :: back) .invalid ∧
      Cells.Edited cells second (· ∈ front ++ inst :: member :: back) nowhere nowhere := by
  obtain ⟨_, restOnce, apart⟩ := List.nodup_append.mp (linked_nodup cells .invalid _ linked)
  obtain ⟨frontLinked, restLinked⟩ := (linked_append cells .invalid .invalid front (member :: back)).mp linked
  have instFront : inst ∉ front := fun inFront => fresh (List.mem_append_left _ inFront)
  have instRest : inst ∉ member :: back := fun inRest => fresh (List.mem_append_right _ inRest)
  obtain ⟨old, found, prev, next⟩ := (links_some_iff cells member _ _).mp restLinked.1
  obtain ⟨first, linkedIn, firstEdited, instLinks⟩ := modify_links cells inst cell
    (fun cell => { cell with prev := old.prev, next := member }) present rfl rfl rfl
  obtain ⟨now, memberPresent⟩ := edited_present cells first _ _ _ firstEdited member old found
  have memberLinks : Cells.links? first member = Cells.links? cells member :=
    firstEdited.links member fun same => instRest (same ▸ List.mem_cons_self)
  obtain ⟨second, linkedBack, secondEdited, backLinks⟩ := modify_links first member now
    (fun cell => { cell with prev := inst }) memberPresent rfl rfl rfl
  have nowNext : now.next = back.headD .invalid := by
    rw [restLinked.1] at memberLinks
    obtain ⟨same, foundSame, _, nextSame⟩ := (links_some_iff first member _ _).mp memberLinks
    rw [memberPresent] at foundSame
    cases foundSame
    exact nextSame
  refine ⟨old, first, second, found, prev, linkedIn, linkedBack, ?_, ⟨?_, backLinks.trans (by rw [nowNext]), ?_⟩, ?_⟩
  · refine (linked_congr cells second .invalid member front fun other inFront => ?_).mpr frontLinked
    have notMember : other ≠ member := fun same => apart other inFront member List.mem_cons_self same
    have notInst : other ≠ inst := fun same => instFront (same ▸ inFront)
    exact (secondEdited.links other notMember).trans (firstEdited.links other notInst)
  · rw [secondEdited.links inst fun same => instRest (same ▸ List.mem_cons_self), instLinks, prev]
    rfl
  · refine (linked_congr cells second member .invalid back fun other inBack => ?_).mpr restLinked.2
    have notMember : other ≠ member := fun same => (List.nodup_cons.mp restOnce).1 (same ▸ inBack)
    have notInst : other ≠ inst := fun same => instRest (same ▸ List.mem_cons_of_mem _ inBack)
    exact (secondEdited.links other notMember).trans (firstEdited.links other notInst)
  · exact edited_trans cells first second _ _ _
      (edited_mono cells first _ _ _ _ _ _ firstEdited (fun other same => by simp [same]) (fun _ => id) (fun _ => id))
      (edited_mono first second _ _ _ _ _ _ secondEdited (fun other same => by simp [same]) (fun _ => id) (fun _ => id))

theorem insert_before_holds (chain : Chain) (cells : Cells) (front back : List Inst) (member inst : Inst)
    (holds : chain.Holds cells (front ++ member :: back)) (fresh : inst ∉ front ++ member :: back) (cell : Cell)
    (present : cells.get? inst = some cell) :
    ∃ longer other, chain.insertBefore cells member inst = .ok (longer, other) ∧
      longer.Holds other (front ++ inst :: member :: back) ∧
      Cells.Edited cells other (· ∈ front ++ inst :: member :: back) nowhere nowhere := by
  obtain ⟨frontOnce, _, apart⟩ := List.nodup_append.mp (linked_nodup cells .invalid _ holds.linked)
  have instFront : inst ∉ front := fun inFront => fresh (List.mem_append_left _ inFront)
  obtain ⟨old, first, second, found, prev, linkedIn, linkedBack, frontSecond, restSecond, edited⟩ :=
    splice_linked cells front back member inst holds.linked fresh cell present
  have length : chain.size + 1 = (front ++ inst :: member :: back).length := by
    simp [holds.size, Nat.add_assoc]
  have tail : chain.tail = (front ++ inst :: member :: back).getLastD .invalid := by
    rw [holds.tail, get_last_d_append_ne, get_last_d_append_ne]
    simp
  rw [prev] at linkedIn
  by_cases none : front = []
  · subst none
    refine ⟨⟨inst, chain.tail, chain.size + 1⟩, second, ?_, ⟨restSecond, rfl, tail, length⟩, edited⟩
    simp only [insertBefore, Arena.get, found, bind, Except.bind, prev, linkedIn, linkedBack]
    rfl
  · obtain ⟨index, third, last, done, thirdEdited, frontThird⟩ :=
      lead_linked second front member inst none frontOnce frontSecond
    have restThird : Linked third (front.getLastD .invalid) (inst :: member :: back) .invalid := by
      refine (linked_congr second third _ .invalid (inst :: member :: back) fun other inRest => ?_).mpr restSecond
      refine thirdEdited.links other fun inFront => ?_
      cases List.mem_cons.mp inRest with
      | inl same => exact instFront (same ▸ inFront)
      | inr later => exact apart other inFront other later rfl
    refine ⟨⟨chain.head, chain.tail, chain.size + 1⟩, third, ?_, ⟨?_, ?_, tail, length⟩, ?_⟩
    · simp only [insertBefore, Arena.get, found, bind, Except.bind, prev, linkedIn, linkedBack]
      rw [last]
      simp only [done]
      rfl
    · exact (linked_append third .invalid .invalid front _).mpr ⟨frontThird, restThird⟩
    · rw [holds.head, head_d_append_ne, head_d_append_ne, if_neg none, if_neg none]
    · exact edited_trans cells second third _ _ _ edited (edited_mono second third _ _ _ _ _ _ thirdEdited
        (fun other inFront => List.mem_append_left _ inFront) (fun _ => id) (fun _ => id))

theorem append_holds (chain : Chain) (cells : Cells) (insts : List Inst) (inst : Inst) (holds : chain.Holds cells insts)
    (fresh : inst ∉ insts) (cell : Cell) (present : cells.get? inst = some cell) :
    ∃ longer other, chain.append cells inst = .ok (longer, other) ∧ longer.Holds other (insts ++ [inst]) ∧
      Cells.Edited cells other (· ∈ insts ++ [inst]) nowhere nowhere := by
  obtain ⟨first, linkedIn, firstEdited, instLinks⟩ := modify_links cells inst cell
    (fun cell => { cell with prev := chain.tail, next := .invalid }) present rfl rfl rfl
  have firstAll := edited_mono cells first _ _ _ (· ∈ insts ++ [inst]) nowhere nowhere firstEdited
    (fun other same => by simp [same]) (fun _ => id) (fun _ => id)
  have instsFirst : Linked first .invalid insts .invalid :=
    (linked_congr cells first .invalid .invalid insts fun other member =>
      firstEdited.links other fun same => fresh (same ▸ member)).mpr holds.linked
  have length : chain.size + 1 = (insts ++ [inst]).length := by
    rw [holds.size, List.length_append, List.length_singleton]
  by_cases none : insts = []
  · subst none
    refine ⟨⟨inst, inst, chain.size + 1⟩, first, ?_, ⟨⟨?_, trivial⟩, rfl, rfl, length⟩, firstAll⟩
    · simp only [append, linkedIn, bind, Except.bind]
      rw [holds.tail]
      rfl
    · rw [instLinks, holds.tail]
      rfl
  · have once := linked_nodup cells .invalid _ holds.linked
    obtain ⟨index, second, last, done, secondEdited, instsSecond⟩ :=
      lead_linked first insts .invalid inst none once instsFirst
    have instSecond : Cells.links? second inst = some (insts.getLastD .invalid, .invalid) := by
      rw [secondEdited.links inst fresh, instLinks, holds.tail]
    refine ⟨⟨chain.head, inst, chain.size + 1⟩, second, ?_, ⟨?_, ?_, by simp, length⟩, ?_⟩
    · simp only [append, linkedIn, bind, Except.bind]
      rw [holds.tail, last]
      simp only [done]
      rfl
    · exact (linked_append second .invalid .invalid insts [inst]).mpr ⟨instsSecond, instSecond, trivial⟩
    · rw [head_d_append_ne, if_neg none]
      exact holds.head
    · exact edited_trans cells first second _ _ _ firstAll (edited_mono first second _ _ _ _ _ _ secondEdited
        (fun other member => List.mem_append_left _ member) (fun _ => id) (fun _ => id))

theorem is_marked_congr (cells other : Cells) (inst : Inst)
    (same : (other.get? inst).map Cell.mark = (cells.get? inst).map Cell.mark) :
    isMarked other inst = isMarked cells inst := by
  have read (cells : Cells) : isMarked cells inst = ((cells.get? inst).map Cell.mark).getD false := by
    rw [isMarked]
    cases cells.get? inst <;> rfl
  rw [read, read, same]

theorem unlink_clear_holds (chain : Chain) (cells : Cells) (front back : List Inst) (inst : Inst)
    (holds : chain.Holds cells (front ++ inst :: back)) :
    ∃ shorter first second, chain.unlink cells inst = .ok (shorter, first) ∧
      first.modify inst (fun cell => { cell with mark := false }) = .ok second ∧ shorter.Holds second (front ++ back) ∧
      Cells.Edited cells second (· ∈ front ++ inst :: back) (· = inst) (· = inst) ∧ isMarked second inst = false := by
  have member : inst ∈ front ++ inst :: back := List.mem_append_right front List.mem_cons_self
  obtain ⟨cell, found⟩ := linked_present cells _ _ _ holds.linked inst member
  obtain ⟨shorter, first, unlinked, shorterHolds, firstEdited⟩ := unlink_holds chain cells front back inst holds
  obtain ⟨now, present⟩ := edited_present cells first _ _ _ firstEdited inst cell found
  obtain ⟨second, cleared, secondEdited, unmarked⟩ := mark_edited first inst now present false
  refine ⟨shorter, first, second, unlinked, cleared, ⟨?_, shorterHolds.head, shorterHolds.tail, shorterHolds.size⟩, ?_, ?_⟩
  · exact (linked_congr first second _ _ _ fun other _ => secondEdited.links other id).mpr shorterHolds.linked
  · exact edited_trans cells first second _ _ _
      (edited_mono cells first _ _ _ _ _ _ firstEdited (fun _ => id) (fun _ => id) (fun _ no => no.elim))
      (edited_mono first second _ _ _ _ _ _ secondEdited (fun _ no => no.elim) (fun _ no => no.elim) (fun _ => id))
  · rw [isMarked, unmarked]
    rfl

theorem filter_gone_cons (front back rest : List Inst) (inst : Inst) (absent : inst ∉ front ++ back) :
    (front ++ inst :: back).filter (fun other => !(inst :: rest).contains other) =
      (front ++ back).filter fun other => !rest.contains other := by
  have keep (part : List Inst) (inPart : ∀ other ∈ part, other ∈ front ++ back) :
      part.filter (fun other => !(inst :: rest).contains other) = part.filter fun other => !rest.contains other := by
    refine List.filter_congr fun other member => ?_
    have different : other ≠ inst := fun collision => absent (collision ▸ inPart other member)
    simp [different]
  rw [List.filter_append, List.filter_append, List.filter_cons_of_neg (by simp),
    keep front fun other => List.mem_append_left back, keep back fun other => List.mem_append_right front]

theorem unlink_all_holds (chain : Chain) (cells : Cells) (insts gone : List Inst) (holds : chain.Holds cells insts)
    (once : gone.Nodup) (members : ∀ inst ∈ gone, inst ∈ insts) :
    ∃ shorter other, chain.unlinkAll cells gone = .ok (shorter, other) ∧
      shorter.Holds other (insts.filter fun inst => !gone.contains inst) ∧
      Cells.Edited cells other (· ∈ insts) (· ∈ gone) (· ∈ gone) ∧ ∀ inst ∈ gone, isMarked other inst = false := by
  induction gone generalizing chain cells insts with
  | nil =>
    have same : insts.filter (fun inst => !([] : List Inst).contains inst) = insts := List.filter_eq_self.mpr (by simp)
    exact ⟨chain, cells, rfl, same.symm ▸ holds, edited_refl cells _ _ _, fun _ none => nomatch none⟩
  | cons inst rest ih =>
    obtain ⟨fresh, restOnce⟩ := List.nodup_cons.mp once
    obtain ⟨front, back, rfl⟩ := List.append_of_mem (members inst List.mem_cons_self)
    have absent := (List.nodup_cons.mp ((linked_nodup cells .invalid _ holds.linked).perm List.perm_middle)).1
    obtain ⟨shorter, first, second, unlinked, cleared, shorterHolds, firstEdited, unmarked⟩ :=
      unlink_clear_holds chain cells front back inst holds
    obtain ⟨last, third, dropped, lastHolds, restEdited, restCleared⟩ := ih shorter second (front ++ back) shorterHolds
      restOnce fun other member => by
        have inWhole := members other (List.mem_cons_of_mem _ member)
        have different : other ≠ inst := fun same => fresh (same ▸ member)
        simpa [different] using inWhole
    refine ⟨last, third, ?_, filter_gone_cons front back rest inst absent ▸ lastHolds, ?_, fun other member => ?_⟩
    · simp only [unlinkAll, unlinked, cleared, bind, Except.bind]
      exact dropped
    · have here (other : Inst) (same : other = inst) : other ∈ inst :: rest := same ▸ List.mem_cons_self
      exact edited_trans cells second third _ _ _
        (edited_mono cells second _ _ _ _ _ _ firstEdited (fun _ => id) here here)
        (edited_mono second third _ _ _ _ _ _ restEdited
          (fun other member => List.perm_middle.mem_iff.mpr (List.mem_cons_of_mem inst member))
          (fun _ => List.mem_cons_of_mem inst) (fun _ => List.mem_cons_of_mem inst))
    · rcases List.mem_cons.mp member with here | later
      · rw [here, is_marked_congr second third inst (restEdited.mark inst fresh), unmarked]
      · exact restCleared other later

theorem remove_marked_holds (chain : Chain) (cells : Cells) (insts : List Inst) (holds : chain.Holds cells insts) :
    ∃ shorter other, chain.removeMarked cells = .ok (shorter, other, (insts.filter (isMarked cells)).length) ∧
      shorter.Holds other (insts.filter fun inst => !isMarked cells inst) ∧
      Cells.Edited cells other (· ∈ insts) (· ∈ insts.filter (isMarked cells)) (· ∈ insts.filter (isMarked cells)) ∧
      ∀ inst ∈ insts.filter (isMarked cells), isMarked other inst = false := by
  have once := (linked_nodup cells .invalid _ holds.linked).filter (isMarked cells)
  obtain ⟨shorter, other, dropped, shorterHolds, changed⟩ := unlink_all_holds chain cells insts (insts.filter (isMarked cells))
    holds once fun inst member => (List.mem_filter.mp member).1
  refine ⟨shorter, other, ?_, ?_, changed⟩
  · simp only [removeMarked, members_holds chain cells insts holds, bind, Except.bind, dropped]
    rfl
  · have same : insts.filter (fun inst => !(insts.filter (isMarked cells)).contains inst) =
        insts.filter fun inst => !isMarked cells inst := by
      refine List.filter_congr fun inst member => ?_
      by_cases marked : isMarked cells inst = true <;> simp [marked, member]
    rw [← same]
    exact shorterHolds

end Chain

end ThreeAddress
