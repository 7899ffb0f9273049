/-!
Sets of code points, given as closed ranges that ascend and keep apart. A search stops at the first
range that is not wholly below the code point, so what lies low is found at once.
-/

set_option autoImplicit false

namespace ThreeAddress

def ascendingRanges : List (Nat × Nat) → Bool
  | [] => true
  | [(low, high)] => low ≤ high
  | (low, high) :: (next, last) :: rest =>
      low ≤ high && high + 1 < next && ascendingRanges ((next, last) :: rest)

structure CodeSet where
  ranges : List (Nat × Nat)
  ascending : ascendingRanges ranges = true

namespace CodeSet

def search (code : Nat) : List (Nat × Nat) → Bool
  | [] => false
  | (low, high) :: rest => low ≤ code && (code ≤ high || search code rest)

def contains (set : CodeSet) (char : Char) : Bool := search char.toNat set.ranges

theorem low_le_of_mem (low high : Nat) (rest : List (Nat × Nat)) (range : Nat × Nat)
    (ascending : ascendingRanges ((low, high) :: rest) = true) (member : range ∈ rest) : low ≤ range.1 := by
  induction rest generalizing low high with
  | nil => cases member
  | cons next tail ih =>
    simp only [ascendingRanges, Bool.and_eq_true, decide_eq_true_eq] at ascending
    obtain ⟨⟨ordered, apart⟩, later⟩ := ascending
    rcases List.mem_cons.mp member with same | deeper
    · rw [same]
      omega
    · have := ih next.1 next.2 later deeper
      omega

theorem search_eq_true_iff (code : Nat) (ranges : List (Nat × Nat)) (ascending : ascendingRanges ranges = true) :
    search code ranges = true ↔ ∃ range ∈ ranges, range.1 ≤ code ∧ code ≤ range.2 := by
  induction ranges with
  | nil => simp [search]
  | cons first rest ih =>
    have tail : ascendingRanges rest = true := by
      cases rest with
      | nil => rfl
      | cons next rest =>
        simp only [ascendingRanges, Bool.and_eq_true] at ascending
        exact ascending.2
    simp only [search, Bool.and_eq_true, Bool.or_eq_true, decide_eq_true_eq, ih tail, List.mem_cons]
    constructor
    · rintro ⟨above, inside | ⟨range, member, within⟩⟩
      · exact ⟨first, .inl rfl, above, inside⟩
      · exact ⟨range, .inr member, within⟩
    · rintro ⟨range, same | member, above, inside⟩
      · subst same
        exact ⟨above, .inl inside⟩
      · exact ⟨Nat.le_trans (low_le_of_mem first.1 first.2 rest range ascending member) above,
          .inr ⟨range, member, above, inside⟩⟩

theorem contains_iff (set : CodeSet) (char : Char) :
    set.contains char = true ↔ ∃ range ∈ set.ranges, range.1 ≤ char.toNat ∧ char.toNat ≤ range.2 :=
  search_eq_true_iff char.toNat set.ranges set.ascending

end CodeSet

end ThreeAddress
