import ThreeAddress.Body.Basic

/-!
Paths through a body along its edges. A path lists the blocks passed, both ends included.
-/

set_option autoImplicit false

namespace ThreeAddress

inductive Path (body : Body) : Block → List Block → Block → Prop where
  | here (block : Block) : Path body block [block] block
  | step (source succ target : Block) (blocks : List Block) (edge : succ ∈ body.succs source)
      (rest : Path body succ blocks target) : Path body source (source :: blocks) target

namespace Path

variable {body : Body}

theorem source_mem (source target : Block) (blocks : List Block) (path : Path body source blocks target) :
    source ∈ blocks := by
  cases path <;> simp

theorem target_mem (source target : Block) (blocks : List Block) (path : Path body source blocks target) :
    target ∈ blocks := by
  induction path with
  | here => simp
  | step source succ target blocks _ _ ih => exact List.mem_cons_of_mem source ih

theorem append (source middle target : Block) (front back : List Block)
    (first : Path body source front middle) (second : Path body middle back target) :
    Path body source (front ++ back.tail) target := by
  induction first with
  | here =>
    cases second with
    | here => exact .here _
    | step _ succ _ blocks edge rest => exact .step _ succ target blocks edge rest
  | step source succ middle blocks edge _ ih =>
    exact .step source succ target (blocks ++ back.tail) edge (ih second)

end Path

namespace Body

def Reaches (body : Body) (source target : Block) : Prop := ∃ blocks, Path body source blocks target

theorem reaches_self (body : Body) (block : Block) : body.Reaches block block := ⟨[block], .here block⟩

theorem reaches_of_edge (body : Body) (source succ target : Block) (edge : succ ∈ body.succs source)
    (reaches : body.Reaches succ target) : body.Reaches source target := by
  obtain ⟨blocks, path⟩ := reaches
  exact ⟨source :: blocks, .step source succ target blocks edge path⟩

end Body

end ThreeAddress
