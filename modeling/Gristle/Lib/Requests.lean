import Gristle.Lib.Prog

/-! Programs that serve requests one after the other, and programs that follow others: from related states
they return the same, in related states. -/
namespace Prog
variable {σ τ ι ο α β : Type}

/-- Serve these requests, and collect the replies. -/
def serve (f : ι → Prog σ ο) : List ι → Prog σ (List ο)
  | [] => pure []
  | i :: rest => do
    let o ← f i
    let os ← serve f rest
    pure (o :: os)

/-- Whenever `y` returns, `x` returns the same from a related state, and the states are related again. -/
def Follows (R : σ → τ → Prop) (x : Prog σ α) (y : Prog τ α) : Prop :=
  ∀ s t a t', R s t → y t = .ok (a,t') → x.Returns s fun b s' => b = a ∧ R s' t'

section Follows
variable {R : σ → τ → Prop}

theorem follows_pure (a : α) : Follows R (pure a : Prog σ α) (pure a : Prog τ α) := by
  intro s t b t' hR h
  obtain ⟨rfl,rfl⟩ : a = b ∧ t = t' := by simpa using h
  exact returns_pure ⟨rfl,hR⟩

theorem follows_bind {x : Prog σ α} {y : Prog τ α} {f : α → Prog σ β} {g : α → Prog τ β}
    (hx : Follows R x y) (hf : ∀ a, Follows R (f a) (g a)) : Follows R (x >>= f) (y >>= g) := by
  intro s t b t' hR h
  obtain ⟨a,u,hu,h⟩ := bind_ok h
  apply (hx s t a u hR hu).bind
  rintro a' s' ⟨rfl,hR'⟩
  exact hf a' s' u b t' hR' h

/-- What follows request by request follows over all of them. -/
theorem follows_serve {f : ι → Prog σ ο} {g : ι → Prog τ ο} {requests : List ι}
    (h : ∀ i ∈ requests, Follows R (f i) (g i)) : Follows R (serve f requests) (serve g requests) := by
  induction requests with
  | nil => exact follows_pure []
  | cons i rest ih =>
    apply follows_bind (h i (by simp))
    intro o
    apply follows_bind (ih fun j hj => h j (by simp [hj]))
    intro os
    exact follows_pure (o :: os)

end Follows

/-- Requests that are always answered are answered all. -/
theorem serve_returns {f : ι → Prog σ ο} (h : ∀ i s, (f i).Returns s fun _ _ => True) (requests : List ι)
    (s : σ) : (serve f requests).Returns s fun _ _ => True := by
  induction requests generalizing s with
  | nil => exact returns_pure trivial
  | cons i rest ih =>
    apply (h i s).bind
    intro o t _
    apply (ih t).bind
    intro os u _
    exact returns_pure trivial

end Prog
