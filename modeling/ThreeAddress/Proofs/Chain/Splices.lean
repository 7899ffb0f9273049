import ThreeAddress.Proofs.Chain.Edits

/-!
Edits at the ends of chains: placing an instruction in front, joining two chains and cutting one. Each has one
form for an end that is there and one for an empty chain, and rewrites at most the two cells that meet.
-/

set_option autoImplicit false

namespace ThreeAddress

namespace Chain

theorem prepend_holds (chain : Chain) (cells : Cells) (insts : List Inst) (inst : Inst) (holds : chain.Holds cells insts)
    (fresh : inst ∉ insts) (cell : Cell) (present : cells.get? inst = some cell) :
    ∃ longer other, chain.prepend cells inst = .ok (longer, other) ∧ longer.Holds other (inst :: insts) ∧
      Cells.Edited cells other (· ∈ inst :: insts) nowhere nowhere := by
  obtain ⟨first, linkedIn, firstEdited, instLinks⟩ := modify_links cells inst cell
    (fun cell => { cell with prev := .invalid, next := chain.head }) present rfl rfl rfl
  have firstAll := edited_mono cells first _ _ _ (· ∈ inst :: insts) nowhere nowhere firstEdited
    (fun other same => same ▸ List.mem_cons_self) (fun _ => id) (fun _ => id)
  have instsFirst : Linked first .invalid insts .invalid :=
    (linked_congr cells first .invalid .invalid insts fun other member =>
      firstEdited.links other fun same => fresh (same ▸ member)).mpr holds.linked
  have ends := holds.head
  by_cases none : insts = []
  · subst none
    refine ⟨⟨inst, inst, chain.size + 1⟩, first, ?_, ⟨⟨?_, trivial⟩, rfl, rfl, ?_⟩, firstAll⟩
    · simp only [prepend, linkedIn, bind, Except.bind]
      rw [ends]
      rfl
    · rw [instLinks, ends]
    · rw [holds.size]
      rfl
  · have once := linked_nodup cells .invalid _ holds.linked
    obtain ⟨index, second, headEq, linkedBack, secondEdited, restSecond⟩ :=
      enter_linked first insts .invalid inst none once instsFirst
    refine ⟨⟨inst, chain.tail, chain.size + 1⟩, second, ?_, ⟨⟨?_, restSecond⟩, rfl, ?_, ?_⟩, ?_⟩
    · simp only [prepend, linkedIn, bind, Except.bind]
      rw [ends, headEq]
      simp only [linkedBack]
      rfl
    · rw [secondEdited.links inst fresh, instLinks, ends]
    · rw [holds.tail, get_last_d_cons_ne inst insts .invalid none]
    · rw [holds.size, List.length_cons]
    · exact edited_trans cells first second _ _ _ firstAll (edited_mono first second _ _ _ _ _ _ secondEdited
        (fun other member => List.mem_cons_of_mem _ member) (fun _ => id) (fun _ => id))

theorem retie_linked (cells : Cells) (front back : List Inst) (before after prev next : Inst) (frontSome : front ≠ [])
    (backSome : back ≠ []) (apart : ∀ inst ∈ front, inst ∉ back) (frontOnce : front.Nodup) (backOnce : back.Nodup)
    (frontLinked : Linked cells .invalid front after) (backLinked : Linked cells before back .invalid) :
    ∃ last start first second, front.getLastD .invalid = .nth last ∧ back.headD .invalid = .nth start ∧
      cells.modify (.nth last) (fun cell => { cell with next := next }) = .ok first ∧
      first.modify (.nth start) (fun cell => { cell with prev := prev }) = .ok second ∧
      Linked second .invalid front next ∧ Linked second prev back .invalid ∧
      Cells.Edited cells second (· ∈ front ++ back) nowhere nowhere := by
  obtain ⟨last, first, lastEq, ledOn, firstEdited, frontFirst⟩ :=
    lead_linked cells front after next frontSome frontOnce frontLinked
  have backFirst : Linked first before back .invalid :=
    (linked_congr cells first before .invalid back fun inst member =>
      firstEdited.links inst fun inFront => apart inst inFront member).mpr backLinked
  obtain ⟨start, second, startEq, entered, secondEdited, backSecond⟩ :=
    enter_linked first back before prev backSome backOnce backFirst
  have frontSecond : Linked second .invalid front next :=
    (linked_congr first second .invalid next front fun inst member =>
      secondEdited.links inst fun inBack => apart inst member inBack).mpr frontFirst
  exact ⟨last, start, first, second, lastEq, startEq, ledOn, entered, frontSecond, backSecond,
    edited_append cells first second front back firstEdited secondEdited⟩

theorem concat_holds (chain back : Chain) (cells : Cells) (insts others : List Inst) (holds : chain.Holds cells insts)
    (backHolds : back.Holds cells others) (apart : ∀ inst ∈ insts, inst ∉ others) :
    ∃ joined other, chain.concat cells back = .ok (joined, other) ∧ joined.Holds other (insts ++ others) ∧
      Cells.Edited cells other (· ∈ insts ++ others) nowhere nowhere := by
  by_cases nothing : others = []
  · subst nothing
    refine ⟨chain, cells, ?_, (List.append_nil insts).symm ▸ holds, edited_refl cells _ _ _⟩
    simp [concat, isEmpty, backHolds.size]
  have counted : back.isEmpty = false := by
    have some := List.length_pos_iff.mpr nothing
    simp only [isEmpty, backHolds.size, decide_eq_false_iff_not]
    omega
  by_cases none : insts = []
  · subst none
    refine ⟨back, cells, ?_, backHolds, edited_refl cells _ _ _⟩
    simp [concat, counted, holds.tail]
  obtain ⟨last, start, first, second, lastEq, startEq, ledOn, entered, instsLinked, othersLinked, edited⟩ :=
    retie_linked cells insts others .invalid .invalid chain.tail back.head none nothing apart
      (linked_nodup cells .invalid _ holds.linked) (linked_nodup cells .invalid _ backHolds.linked) holds.linked
      backHolds.linked
  refine ⟨⟨chain.head, back.tail, chain.size + back.size⟩, second, ?_, ⟨?_, ?_, ?_, ?_⟩, edited⟩
  · have tailIs : chain.tail = .nth last := holds.tail.trans lastEq
    have headIs : back.head = .nth start := backHolds.head.trans startEq
    rw [headIs] at ledOn
    rw [tailIs] at entered
    simp only [concat, counted, tailIs, headIs, ledOn, entered, bind, Except.bind]
    rfl
  · rw [holds.tail] at othersLinked
    rw [backHolds.head] at instsLinked
    exact (linked_append second .invalid .invalid insts others).mpr ⟨instsLinked, othersLinked⟩
  · rw [head_d_append_ne, if_neg none]
    exact holds.head
  · rw [get_last_d_append_ne, if_neg nothing]
    exact backHolds.tail
  · rw [holds.size, backHolds.size, List.length_append]

theorem count_from_linked (cells : Cells) (before : Inst) (insts : List Inst) (steps : Nat)
    (linked : Linked cells before insts .invalid) (enough : insts.length ≤ steps) :
    countFrom cells steps (insts.headD .invalid) = .ok insts.length := by
  induction insts generalizing before steps with
  | nil => cases steps <;> rfl
  | cons inst rest ih =>
    obtain ⟨cell, found, _, next⟩ := (links_some_iff cells inst before _).mp linked.1
    cases steps with
    | zero => simp at enough
    | succ steps =>
      have later := ih inst steps linked.2 (by simpa using enough)
      cases inst with
      | invalid => cases found
      | nth index =>
        simp only [List.headD_cons, countFrom, Arena.get, found, next, later, bind, Except.bind]
        rfl

theorem split_off_holds (chain : Chain) (cells : Cells) (front back : List Inst) (start : Inst)
    (holds : chain.Holds cells (front ++ start :: back)) :
    ∃ before suffix other, chain.splitOff cells start = .ok (before, suffix, other) ∧ before.Holds other front ∧
      suffix.Holds other (start :: back) ∧ Cells.Edited cells other (· ∈ front ++ start :: back) nowhere nowhere := by
  obtain ⟨frontOnce, backOnce, apart⟩ := List.nodup_append.mp (linked_nodup cells .invalid _ holds.linked)
  obtain ⟨frontLinked, backLinked⟩ := (linked_append cells .invalid .invalid front (start :: back)).mp holds.linked
  have bound := linked_length cells .invalid _ holds.linked
  have length : chain.size = front.length + (start :: back).length := holds.size.trans List.length_append
  rw [List.length_append] at bound
  have counted : countFrom cells (cells.size + 1) start = .ok (start :: back).length :=
    count_from_linked cells _ (start :: back) _ backLinked (by omega)
  obtain ⟨cell, found, prev, _⟩ := (links_some_iff cells start _ _).mp backLinked.1
  have tail : chain.tail = (start :: back).getLastD .invalid := by
    rw [holds.tail, get_last_d_append_ne, if_neg (List.cons_ne_nil start back)]
  by_cases none : front = []
  · subst none
    refine ⟨⟨.invalid, .invalid, 0⟩, ⟨start, chain.tail, (start :: back).length⟩, cells, ?_,
      ⟨trivial, rfl, rfl, rfl⟩, ⟨backLinked, rfl, tail, rfl⟩, edited_refl cells _ _ _⟩
    rw [List.getLastD_nil] at prev
    simp only [splitOff, counted, Arena.get, found, prev, bind, Except.bind, pure, Except.pure]
    rw [if_neg (by omega), length, List.length_nil, Nat.zero_add, Nat.sub_self]
  obtain ⟨last, index, first, second, lastEq, startEq, ledOn, entered, frontSecond, backSecond, edited⟩ :=
    retie_linked cells front (start :: back) _ start .invalid .invalid none (List.cons_ne_nil _ _)
      (fun inst inFront inBack => apart inst inFront inst inBack rfl) frontOnce backOnce frontLinked backLinked
  refine ⟨⟨chain.head, .nth last, front.length⟩, ⟨start, chain.tail, (start :: back).length⟩, second, ?_,
    ⟨frontSecond, ?_, lastEq.symm, rfl⟩, ⟨backSecond, rfl, tail, rfl⟩, edited⟩
  · rw [List.headD_cons] at startEq
    rw [lastEq] at prev
    rw [← startEq] at entered
    simp only [splitOff, counted, Arena.get, found, prev, ledOn, entered, bind, Except.bind, pure, Except.pure]
    rw [if_neg (by omega), length, Nat.add_sub_cancel]
  · rw [holds.head, head_d_append_ne, if_neg none]

end Chain

end ThreeAddress
