import Gristle.Lib.Prog

/-! Programs that do not stop for a given reason, as long as their state meets a condition, and that
keep the condition. -/
namespace Prog
variable {σ τ α β : Type} {e : Stop} {P : σ → Prop}

/-! ### Runs that stop -/

theorem bind_of_error {x : Prog σ α} {f : α → Prog σ β} {s : σ} (h : x s = .error e) :
    (x >>= f) s = .error e := by rw [bind_apply,h]

theorem bind_error_of_ok {x : Prog σ α} {f : α → Prog σ β} {s t : σ} {a : α} (hx : x s = .ok (a,t))
    (hf : f a t = .error e) : (x >>= f) s = .error e := by rw [bind_of_ok hx,hf]

/-! ### Runs that return -/

section Every
variable {x : Prog σ α} {s : σ} {Q : α → σ → Prop}

theorem every_pure {a : α} (h : Q a s) : (pure a : Prog σ α).Every s Q := (every_of_ok rfl).2 h

theorem every_modify {f : σ → σ} {Q : Unit → σ → Prop} (h : Q () (f s)) : (modify f).Every s Q :=
  (every_of_ok rfl).2 h

theorem every_ite {c : Prop} [Decidable c] {y : Prog σ α} (hx : c → x.Every s Q) (hy : ¬ c → y.Every s Q) :
    (if c then x else y).Every s Q := by
  split
  · exact hx ‹_›
  · exact hy ‹_›

theorem Every.bind {f : α → Prog σ β} {R : β → σ → Prop} (hx : x.Every s Q)
    (hf : ∀ a t, Q a t → (f a).Every t R) : (x >>= f).Every s R := by
  intro b u hu
  obtain ⟨a,t,ht,hu⟩ := bind_ok hu
  exact hf a t (hx a t ht) b u hu

theorem every_bind_of_ok {f : α → Prog σ β} {R : β → σ → Prop} {a : α} {t : σ} (hx : x s = .ok (a,t))
    (hf : (f a).Every t R) : (x >>= f).Every s R := by
  unfold Every
  rwa [bind_of_ok hx]

theorem Returns.every (h : x.Returns s Q) : x.Every s Q := fun _ _ hx => h.of_ok hx

end Every

/-! ### Runs that do not stop -/

/-- The run from `s` does not stop with `e`; where it returns, it does so as `Q` says. -/
def Safe (e : Stop) (x : Prog σ α) (s : σ) (Q : α → σ → Prop) : Prop := x s ≠ .error e ∧ x.Every s Q

/-- From a state with `P` the program does not stop with `e`, and where it returns `P` holds again. -/
def Avoids (e : Stop) (P : σ → Prop) (x : Prog σ α) : Prop := ∀ s, P s → x.Safe e s fun _ => P

section Safe
variable {x : Prog σ α} {s : σ} {Q : α → σ → Prop}

theorem safe_of_ok {a : α} {t : σ} (h : x s = .ok (a,t)) (hq : Q a t) : x.Safe e s Q :=
  ⟨by simp [h],(every_of_ok h).2 hq⟩

theorem safe_of_error {k : Stop} (h : x s = .error k) (he : k ≠ e) : x.Safe e s Q := by
  refine ⟨by simpa [h] using he,fun a t ht => ?_⟩
  simp [h] at ht

theorem Safe.bind {f : α → Prog σ β} {R : β → σ → Prop} (hx : x.Safe e s Q)
    (hf : ∀ a t, Q a t → (f a).Safe e t R) : (x >>= f).Safe e s R := by
  obtain ⟨herror,hevery⟩ := hx
  cases h : x s with
  | error k =>
    rw [h] at herror
    exact safe_of_error (bind_of_error h) (by simpa using herror)
  | ok p =>
    have hrest := hf p.1 p.2 (hevery p.1 p.2 h)
    unfold Safe Every at hrest ⊢
    rwa [bind_of_ok h]

theorem safe_bind_of_ok {f : α → Prog σ β} {R : β → σ → Prop} {a : α} {t : σ} (hx : x s = .ok (a,t))
    (hf : (f a).Safe e t R) : (x >>= f).Safe e s R := by
  unfold Safe Every
  rwa [bind_of_ok hx]

end Safe

theorem avoids_pure (a : α) : Avoids e P (pure a : Prog σ α) := by
  intro s hs
  exact safe_of_ok rfl hs

theorem avoids_get : Avoids e P (get : Prog σ σ) := by
  intro s hs
  exact safe_of_ok rfl hs

/-- To stop for another reason is allowed. -/
theorem avoids_stop {k : Stop} (h : k ≠ e) : Avoids e P (stop k : Prog σ α) := by
  intro s _
  exact safe_of_error rfl h

theorem avoids_modify {f : σ → σ} (h : ∀ s, P s → P (f s)) : Avoids e P (modify f) := by
  intro s hs
  exact safe_of_ok rfl (h s hs)

theorem avoids_ite {c : Prop} [Decidable c] {x y : Prog σ α} (hx : Avoids e P x) (hy : Avoids e P y) :
    Avoids e P (if c then x else y) := by
  split
  · exact hx
  · exact hy

theorem avoids_bind {x : Prog σ α} {f : α → Prog σ β} (hx : Avoids e P x) (hf : ∀ a, Avoids e P (f a)) :
    Avoids e P (x >>= f) := by
  intro s hs
  apply (hx s hs).bind
  intro a t ht
  exact hf a t ht

/-- A component of the state that `P` says nothing about. -/
theorem avoids_zoom {view : σ → τ} {put : σ → τ → σ} {x : Prog τ α} (hx : ∀ t, x t ≠ .error e)
    (hput : ∀ s t, P s → P (put s t)) : Avoids e P (zoom view put x) := by
  intro s hs
  have herror := hx (view s)
  cases h : x (view s) with
  | error k =>
    rw [h] at herror
    exact safe_of_error (k := k) (by rw [zoom,h]) (by simpa using herror)
  | ok p => exact safe_of_ok (a := p.1) (t := put s p.2) (by rw [zoom,h]) (hput s p.2 hs)

end Prog
