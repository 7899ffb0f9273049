import Mathlib.Tactic.Tauto
import ThreeAddress.Operation
import ThreeAddress.Proofs.OrderedSet.Membership

/-!
Sets that are transformed element by element: an instruction brings an element in, or keeps it if it is there, and does
not look at the others. So what code leaves in a set can be told from the code, one element at a time.
-/

set_option autoImplicit false

namespace ThreeAddress

section Brought

variable {κ : Type} (gains keeps : Inst × Operation → κ → Prop)

-- This code brings the element in, and goes on without losing it.
def Brought (code : List (Inst × Operation)) (element : κ) : Prop :=
  ∃ front entry back, code = front ++ entry :: back ∧ gains entry element ∧ ∀ later ∈ back, keeps later element

variable (element : κ)

theorem brought_nothing : ¬ Brought gains keeps [] element := by
  intro ⟨front, entry, back, whole, _⟩
  exact List.append_ne_nil_of_right_ne_nil front (List.cons_ne_nil entry back) whole.symm

theorem brought_cons (first : Inst × Operation) (rest : List (Inst × Operation)) : Brought gains keeps (first :: rest) element ↔
    Brought gains keeps rest element ∨ (∀ entry ∈ rest, keeps entry element) ∧ gains first element := by
  constructor
  · intro ⟨front, entry, back, whole, gained, kept⟩
    cases front with
    | nil =>
      obtain ⟨rfl, rfl⟩ := List.cons.inj whole
      exact .inr ⟨kept, gained⟩
    | cons _ front => exact .inl ⟨front, entry, back, (List.cons.inj whole).2, gained, kept⟩
  · rintro (⟨front, entry, back, whole, gained, kept⟩ | ⟨kept, gained⟩)
    · exact ⟨first :: front, entry, back, congrArg (first :: ·) whole, gained, kept⟩
    · exact ⟨[], first, rest, rfl, gained, kept⟩

theorem brought_append (front back : List (Inst × Operation)) : Brought gains keeps (front ++ back) element ↔
    Brought gains keeps back element ∨ (∀ entry ∈ back, keeps entry element) ∧ Brought gains keeps front element := by
  induction front with
  | nil =>
    have nothing := brought_nothing gains keeps element
    exact ⟨.inl, fun either => either.elim id fun ⟨_, brought⟩ => (nothing brought).elim⟩
  | cons first rest ih =>
    rw [List.cons_append, brought_cons, brought_cons, ih, List.forall_mem_append]
    tauto

theorem brought_reverse (code : List (Inst × Operation)) : Brought gains keeps code.reverse element ↔
    ∃ front entry back, code = front ++ entry :: back ∧ gains entry element ∧ ∀ earlier ∈ front, keeps earlier element := by
  have turned (front back : List (Inst × Operation)) (entry : Inst × Operation) :
      (front ++ entry :: back).reverse = back.reverse ++ entry :: front.reverse := by simp
  constructor
  · intro ⟨front, entry, back, whole, gained, kept⟩
    refine ⟨back.reverse, entry, front.reverse, ?_, gained, fun earlier member => kept earlier (List.mem_reverse.mp member)⟩
    rw [← turned, ← whole, List.reverse_reverse]
  · intro ⟨front, entry, back, whole, gained, kept⟩
    refine ⟨back.reverse, entry, front.reverse, ?_, gained, fun earlier member => kept earlier (List.mem_reverse.mp member)⟩
    rw [whole, turned]

end Brought

section Sets

variable {κ : Type} [Ord κ]

structure Elementwise (step : Inst → Operation → OrderedSet κ → OrderedSet κ) (gains keeps : Inst × Operation → κ → Prop) :
    Prop where
  sound : ∀ inst operation set, set.Sound → (step inst operation set).Sound
  members : ∀ inst operation set, set.Sound → ∀ element, element ∈ (step inst operation set).toList ↔
    gains (inst, operation) element ∨ keeps (inst, operation) element ∧ element ∈ set.toList

namespace Elementwise

variable {step : Inst → Operation → OrderedSet κ → OrderedSet κ} {gains keeps : Inst × Operation → κ → Prop}
  (elementwise : Elementwise step gains keeps) (code : List (Inst × Operation))

include elementwise

theorem mem_fold (set : OrderedSet κ) (sound : set.Sound) (element : κ) :
    element ∈ (code.foldl (fun set (inst, operation) => step inst operation set) set).toList ↔
      Brought gains keeps code element ∨ (∀ entry ∈ code, keeps entry element) ∧ element ∈ set.toList := by
  induction code generalizing set with
  | nil =>
    have nothing := brought_nothing gains keeps element
    simp [nothing]
  | cons first rest ih =>
    obtain ⟨inst, operation⟩ := first
    rw [List.foldl_cons, ih _ (elementwise.sound inst operation set sound), elementwise.members inst operation set sound,
      brought_cons, List.forall_mem_cons]
    tauto

theorem sound_fold (set : OrderedSet κ) (sound : set.Sound) :
    (code.foldl (fun set (inst, operation) => step inst operation set) set).Sound :=
  List.foldlRecOn code _ sound fun set sound (inst, operation) _ => elementwise.sound inst operation set sound

theorem fold_mono (low high : OrderedSet κ) (lowSound : low.Sound) (highSound : high.Sound)
    (subset : ∀ element ∈ low.toList, element ∈ high.toList) (element : κ)
    (member : element ∈ (code.foldl (fun set (inst, operation) => step inst operation set) low).toList) :
    element ∈ (code.foldl (fun set (inst, operation) => step inst operation set) high).toList := by
  apply (elementwise.mem_fold code high highSound element).mpr
  exact ((elementwise.mem_fold code low lowSound element).mp member).imp_right fun ⟨kept, before⟩ => ⟨kept, subset element before⟩

end Elementwise

end Sets

end ThreeAddress
