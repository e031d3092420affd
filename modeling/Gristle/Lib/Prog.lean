import Mathlib.Tactic

/-! State programs that return or stop. A C function becomes a value of `Prog`; the rules below
say how facts about calls compose, for any type of state. -/

/-- Why a call has no result: a loop ran out of fuel, the C program divides by zero or shifts by the
width of a type or more, or it has no defined behaviour for another reason. -/
inductive Stop
  | fuel
  | arithmetic
  | undefined
  deriving DecidableEq, Repr

/-- A program over states `σ` with results in `α`. -/
def Prog (σ α : Type) := σ → Except Stop (α × σ)

namespace Prog
variable {σ τ α β : Type}

instance : Monad (Prog σ) where
  pure a := fun s => .ok (a,s)
  bind x f := fun s => match x s with
    | .error e => .error e
    | .ok (a,t) => f a t

/-- The program has no result. -/
def stop (e : Stop) : Prog σ α := fun _ => .error e

/-- The current state. -/
def get : Prog σ σ := fun s => .ok (s,s)

def modify (f : σ → σ) : Prog σ Unit := fun s => .ok ((),f s)

/-- Run a program on one component of the state. -/
def zoom (view : σ → τ) (put : σ → τ → σ) (x : Prog τ α) : Prog σ α := fun s =>
  match x (view s) with
  | .error e => .error e
  | .ok (a,t) => .ok (a,put s t)

@[simp] theorem pure_apply (a : α) (s : σ) : (pure a : Prog σ α) s = .ok (a,s) := rfl

theorem bind_apply (x : Prog σ α) (f : α → Prog σ β) (s : σ) :
    (x >>= f) s = match x s with
      | .error e => .error e
      | .ok (a,t) => f a t := rfl

theorem bind_of_ok {x : Prog σ α} {f : α → Prog σ β} {s t : σ} {a : α}
    (h : x s = .ok (a,t)) : (x >>= f) s = f a t := by rw [bind_apply,h]

@[simp] theorem get_apply (s : σ) : (get : Prog σ σ) s = .ok (s,s) := rfl
@[simp] theorem modify_apply (f : σ → σ) (s : σ) : modify f s = .ok ((),f s) := rfl
@[simp] theorem stop_apply (e : Stop) (s : σ) : (stop e : Prog σ α) s = .error e := rfl

@[simp] theorem pure_bind (a : α) (f : α → Prog σ β) : (pure a >>= f) = f a := rfl

/-- Running an alternative is running the chosen branch. -/
theorem run_ite (c : Prop) [Decidable c] (x y : Prog σ α) (s : σ) :
    (if c then x else y) s = if c then x s else y s := by split <;> rfl

theorem bind_ok {x : Prog σ α} {f : α → Prog σ β} {s t : σ} {b : β}
    (h : (x >>= f) s = .ok (b,t)) : ∃ a u, x s = .ok (a,u) ∧ f a u = .ok (b,t) := by
  rw [bind_apply] at h
  cases hx : x s with
  | error e => simp [hx] at h
  | ok p => exact ⟨p.1,p.2,rfl,by simpa [hx] using h⟩

theorem zoom_ok {view : σ → τ} {put : σ → τ → σ} {x : Prog τ α} {s t : σ} {a : α}
    (h : zoom view put x s = .ok (a,t)) : ∃ u, x (view s) = .ok (a,u) ∧ t = put s u := by
  rw [zoom] at h
  cases hx : x (view s) with
  | error e => simp [hx] at h
  | ok p =>
    simp only [hx,Except.ok.injEq,Prod.mk.injEq] at h
    exact ⟨p.2,by simp [← h.1],h.2.symm⟩

/-- Run a program and test its result and its last state. -/
def test (x : Prog σ α) (s : σ) (p : α → σ → Bool) : Bool :=
  match x s with
  | .error _ => false
  | .ok (a,t) => p a t

theorem ok_of_test {x : Prog σ α} {s : σ} {p : α → σ → Bool} (h : x.test s p = true) :
    ∃ a t, x s = .ok (a,t) ∧ p a t = true := by
  unfold test at h
  cases hx : x s with
  | error e => simp [hx] at h
  | ok q => exact ⟨q.1,q.2,rfl,by simpa [hx] using h⟩

/-! ### What every returning run preserves -/

/-- Every run that returns relates the state before to the state after. -/
def Keeps (R : σ → σ → Prop) (x : Prog σ α) : Prop :=
  ∀ s a t, x s = .ok (a,t) → R s t

section Keeps
variable {R : σ → σ → Prop}

theorem Keeps.mono {S : σ → σ → Prop} {x : Prog σ α} (hRS : ∀ s t, R s t → S s t)
    (h : Keeps R x) : Keeps S x := fun s a t hx => hRS s t (h s a t hx)

theorem Keeps.of_ok {x : Prog σ α} {s t : σ} {a : α} (hx : Keeps R x) (h : x s = .ok (a,t)) : R s t :=
  hx s a t h

theorem keeps_stop (e : Stop) : Keeps R (stop e : Prog σ α) := by
  intro s a t h
  simp at h

theorem keeps_modify {f : σ → σ} (h : ∀ s, R s (f s)) : Keeps R (modify f) := by
  intro s a t hs
  obtain rfl : f s = t := by simpa using hs
  exact h s

theorem keeps_ite {c : Prop} [Decidable c] {x y : Prog σ α} (hx : Keeps R x) (hy : Keeps R y) :
    Keeps R (if c then x else y) := by
  split
  · exact hx
  · exact hy

variable [Std.Refl R]

theorem keeps_pure (a : α) : Keeps R (pure a : Prog σ α) := by
  intro s b t h
  obtain ⟨-,rfl⟩ : a = b ∧ s = t := by simpa using h
  exact Std.Refl.refl s

theorem keeps_get : Keeps R (get : Prog σ σ) := by
  intro s b t h
  obtain ⟨-,rfl⟩ : s = b ∧ s = t := by simpa using h
  exact Std.Refl.refl s

omit [Std.Refl R] in
theorem keeps_bind [IsTrans σ R] {x : Prog σ α} {f : α → Prog σ β} (hx : Keeps R x)
    (hf : ∀ a, Keeps R (f a)) : Keeps R (x >>= f) := by
  intro s b t h
  obtain ⟨a,u,hxu,hfu⟩ := bind_ok h
  exact IsTrans.trans _ _ _ (hx s a u hxu) (hf a u b t hfu)

end Keeps

/-! ### Programs that return less often -/

/-- Every run of `x` that returns is a run of `y`. -/
def Within (x y : Prog σ α) : Prop := ∀ s a t, x s = .ok (a,t) → y s = .ok (a,t)

theorem within_refl (x : Prog σ α) : Within x x := fun _ _ _ h => h

theorem within_stop (e : Stop) (y : Prog σ α) : Within (stop e) y := by
  intro s a t h
  simp at h

theorem within_ite {c : Prop} [Decidable c] {x y x' y' : Prog σ α} (hx : Within x x')
    (hy : Within y y') : Within (if c then x else y) (if c then x' else y') := by
  split
  · exact hx
  · exact hy

theorem within_bind {x x' : Prog σ α} {f f' : α → Prog σ β} (hx : Within x x')
    (hf : ∀ a, Within (f a) (f' a)) : Within (x >>= f) (x' >>= f') := by
  intro s b t h
  obtain ⟨a,u,hu,h⟩ := bind_ok h
  rw [bind_of_ok (hx s a u hu)]
  exact hf a u b t h

/-- Where `y` goes on, the other program may stop. -/
theorem within_guard {b : Bool} {e : Stop} {x y : Prog σ α} (h : Within x y) :
    Within (if b = true then stop e else x) y := by
  split
  · exact within_stop e y
  · exact h

/-! ### Conditions on a run that may not return -/

/-- Every run from `s` that returns does so with a result and a state as `Q` says. -/
def Every (x : Prog σ α) (s : σ) (Q : α → σ → Prop) : Prop := ∀ a t, x s = .ok (a,t) → Q a t

theorem every_of_ok {x : Prog σ α} {s t : σ} {a : α} {Q : α → σ → Prop} (h : x s = .ok (a,t)) :
    x.Every s Q ↔ Q a t := by
  refine ⟨fun hx => hx a t h,fun hq b u hu => ?_⟩
  obtain ⟨rfl,rfl⟩ : a = b ∧ t = u := by simpa [hu,eq_comm] using h
  exact hq

/-! ### What a run from a given state returns -/

/-- The run from `s` returns, with a result and a state as `Q` says. -/
def Returns (x : Prog σ α) (s : σ) (Q : α → σ → Prop) : Prop := ∃ a t, x s = .ok (a,t) ∧ Q a t

section Returns
variable {x : Prog σ α} {s : σ} {Q R : α → σ → Prop}

theorem Returns.of_ok {t : σ} {a : α} (h : x.Returns s Q) (hx : x s = .ok (a,t)) : Q a t := by
  obtain ⟨b,u,hu,hq⟩ := h
  obtain ⟨rfl,rfl⟩ : b = a ∧ u = t := by simpa [hx,eq_comm] using hu
  exact hq

theorem Returns.mono (h : x.Returns s Q) (hQR : ∀ a t, Q a t → R a t) : x.Returns s R := by
  obtain ⟨a,t,hx,hq⟩ := h
  exact ⟨a,t,hx,hQR a t hq⟩

/-- What every run keeps holds of this one too. -/
theorem Returns.keeps {S : σ → σ → Prop} (h : x.Returns s Q) (hk : Keeps S x) :
    x.Returns s fun a t => Q a t ∧ S s t := by
  obtain ⟨a,t,hx,hq⟩ := h
  exact ⟨a,t,hx,hq,hk s a t hx⟩

theorem returns_pure {a : α} (h : Q a s) : (pure a : Prog σ α).Returns s Q := ⟨a,s,rfl,h⟩

theorem returns_modify {f : σ → σ} {Q : Unit → σ → Prop} (h : Q () (f s)) :
    (modify f).Returns s Q := ⟨(),f s,rfl,h⟩

theorem Returns.bind {f : α → Prog σ β} {S : β → σ → Prop} (hx : x.Returns s Q)
    (hf : ∀ a t, Q a t → (f a).Returns t S) : (x >>= f).Returns s S := by
  obtain ⟨a,t,hxt,hq⟩ := hx
  obtain ⟨b,u,hu,hs⟩ := hf a t hq
  exact ⟨b,u,by rw [bind_of_ok hxt,hu],hs⟩

/-- A first program whose result is known. -/
theorem returns_bind_of_ok {f : α → Prog σ β} {S : β → σ → Prop} {t : σ} {a : α}
    (hx : x s = .ok (a,t)) (hf : (f a).Returns t S) : (x >>= f).Returns s S := by
  obtain ⟨b,u,hu,hs⟩ := hf
  exact ⟨b,u,by rw [bind_of_ok hx,hu],hs⟩

theorem returns_ite {c : Prop} [Decidable c] {y : Prog σ α} (hx : c → x.Returns s Q)
    (hy : ¬ c → y.Returns s Q) : (if c then x else y).Returns s Q := by
  split
  · exact hx ‹_›
  · exact hy ‹_›

end Returns

end Prog
