import Mathlib.Tactic

/-! Finite runs of a labelled step relation. -/

/-- `Steps R s cs t`: from `s`, the labels `cs` lead to `t` one after the other. -/
inductive Steps {σ ι : Type} (R : σ → ι → σ → Prop) : σ → List ι → σ → Prop
  | nil (s : σ) : Steps R s [] s
  | cons {s t u : σ} {c : ι} {cs : List ι} (head : R s c t) (tail : Steps R t cs u) :
      Steps R s (c :: cs) u

namespace Steps
variable {σ ι : Type} {R : σ → ι → σ → Prop}

/-- What every step preserves holds at the end. -/
theorem preserved {Inv : σ → Prop} (hstep : ∀ s c t, Inv s → R s c t → Inv t) {s t : σ} {cs : List ι}
    (h : Steps R s cs t) (hs : Inv s) : Inv t := by
  induction h with
  | nil s => exact hs
  | cons head tail ih => exact ih (hstep _ _ _ hs head)

theorem append {s t u : σ} {cs ds : List ι} (h : Steps R s cs t) (h' : Steps R t ds u) :
    Steps R s (cs ++ ds) u := by
  induction h with
  | nil s => exact h'
  | cons head tail ih => exact .cons head (ih h')

end Steps
