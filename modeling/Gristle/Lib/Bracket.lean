import Mathlib.Tactic

/-! Histories in which one thing is taken and given back, newest event first. An event weighs 1 when it
takes the thing, -1 when it gives it back and 0 otherwise. -/

namespace Bracket
variable {ε : Type} (weight : ε → ℤ)

/-- How often the thing is held at the end. -/
def held : List ε → ℤ
  | [] => 0
  | e :: es => weight e + held es

@[simp] theorem held_nil : held weight [] = 0 := rfl
@[simp] theorem held_cons (e : ε) (es : List ε) : held weight (e :: es) = weight e + held weight es := rfl

@[simp] theorem held_append (es fs : List ε) : held weight (fs ++ es) = held weight fs + held weight es := by
  induction fs with
  | nil => simp
  | cons e fs ih => simp [ih,add_assoc]

/-- At no time is the thing taken twice or given back twice. -/
def Once (es : List ε) : Prop := ∀ fs, fs <:+ es → 0 ≤ held weight fs ∧ held weight fs ≤ 1

/-- The thing is taken only when it is free, and given back as often as it was taken. -/
structure Released (es : List ε) : Prop where
  once : Once weight es
  settled : held weight es = 0

variable {weight}

theorem once_nil : Once weight [] := by
  intro fs hfs
  rw [List.suffix_nil.1 hfs]
  simp

theorem Once.cons {e : ε} {es : List ε} (h : Once weight es) (h₀ : 0 ≤ held weight (e :: es))
    (h₁ : held weight (e :: es) ≤ 1) : Once weight (e :: es) := by
  intro fs hfs
  rcases List.suffix_cons_iff.1 hfs with rfl | hfs
  · exact ⟨h₀,h₁⟩
  · exact h fs hfs

theorem Once.tail {e : ε} {es : List ε} (h : Once weight (e :: es)) : Once weight es := by
  intro fs hfs
  exact h fs (hfs.trans (List.suffix_cons e es))

/-- A history that goes on after everything was given back. -/
theorem Once.append {es fs : List ε} (h : Released weight es) (h' : Once weight fs) :
    Once weight (fs ++ es) := by
  induction fs with
  | nil => exact h.once
  | cons e fs ih =>
    have hhead := h' (e :: fs) List.suffix_rfl
    apply Once.cons (ih h'.tail)
    · rw [← List.cons_append,held_append,h.settled,add_zero]
      exact hhead.1
    · rw [← List.cons_append,held_append,h.settled,add_zero]
      exact hhead.2

theorem released_nil : Released weight [] := ⟨once_nil,rfl⟩

theorem Released.append {es fs : List ε} (h : Released weight es) (h' : Released weight fs) :
    Released weight (fs ++ es) :=
  ⟨h'.once.append h,by rw [held_append,h.settled,h'.settled,add_zero]⟩

/-- Events without weight change nothing. -/
theorem held_quiet {es : List ε} (h : ∀ e ∈ es, weight e = 0) : held weight es = 0 := by
  induction es with
  | nil => rfl
  | cons e es ih =>
    have htail : held weight es = 0 := ih fun e he => h e (by simp [he])
    simp [h e (by simp),htail]

theorem Once.quiet {es fs : List ε} (h : Once weight es) (hfs : ∀ e ∈ fs, weight e = 0) :
    Once weight (fs ++ es) := by
  induction fs with
  | nil => exact h
  | cons e fs ih =>
    have htail := ih fun e he => hfs e (by simp [he])
    have hlast := htail (fs ++ es) List.suffix_rfl
    apply htail.cons
    · rw [held_cons,hfs e (by simp),zero_add]
      exact hlast.1
    · rw [held_cons,hfs e (by simp),zero_add]
      exact hlast.2

theorem released_quiet {es : List ε} (h : ∀ e ∈ es, weight e = 0) : Released weight es := by
  have honce := once_nil.quiet h
  rw [List.append_nil] at honce
  exact ⟨honce,held_quiet h⟩

/-- Take, do something else, give back. -/
theorem released_wrap {take give : ε} {es : List ε} (ht : weight take = 1) (hg : weight give = -1)
    (h : ∀ e ∈ es, weight e = 0) : Released weight (give :: es ++ [take]) := by
  have htake : Once weight [take] := once_nil.cons (by simp [ht]) (by simp [ht])
  have hbody := htake.quiet h
  have hheld : held weight (give :: es ++ [take]) = 0 := by
    simp [ht,hg,held_quiet h]
  exact ⟨hbody.cons (by rw [← List.cons_append,hheld]) (by rw [← List.cons_append,hheld]; decide),hheld⟩

end Bracket
