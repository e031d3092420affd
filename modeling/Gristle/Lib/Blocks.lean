import Mathlib.Data.Vector.Basic
import Mathlib.Tactic

/-! Folding a function over the blocks of a list: every full block of `n` elements goes through the
function, what is left over is kept. -/

/-- The first `n` elements of a list that has as many. -/
def leadingBlock {α : Type} {n : ℕ} (l : List α) (h : n ≤ l.length) : List.Vector α n :=
  ⟨l.take n,List.length_take_of_le h⟩

/-- The state after the full blocks of the list, and the elements that fill no block. -/
def foldBlocks {α σ : Type} {n : ℕ} (f : σ → List.Vector α n → σ) (s : σ) (l : List α) : σ × List α :=
  if h : 0 < n ∧ n ≤ l.length then
    foldBlocks f (f s (leadingBlock l h.2)) (l.drop n)
  else (s,l)
termination_by l.length
decreasing_by
  rw [List.length_drop]
  omega

section FoldBlocks
variable {α σ τ : Type} {n : ℕ} (f : σ → List.Vector α n → σ)

theorem foldBlocks_short (s : σ) {l : List α} (h : l.length < n) : foldBlocks f s l = (s,l) := by
  rw [foldBlocks,dif_neg (by omega)]

theorem foldBlocks_block (hn : 0 < n) (s : σ) (b : List.Vector α n) (l : List α) :
    foldBlocks f s (b.toList ++ l) = foldBlocks f (f s b) l := by
  have hb : b.toList.length = n := b.toList_length
  have htake : (b.toList ++ l).take n = b.toList := List.take_left' hb
  have hdrop : (b.toList ++ l).drop n = l := List.drop_left' hb
  rw [foldBlocks,dif_pos ⟨hn,by rw [List.length_append]; omega⟩,hdrop]
  congr 2
  exact List.Vector.eq _ _ htake

theorem foldBlocks_single (hn : 0 < n) (s : σ) (b : List.Vector α n) :
    foldBlocks f s b.toList = (f s b,[]) := by
  have h := foldBlocks_block f hn s b []
  rw [List.append_nil] at h
  rw [h,foldBlocks_short f _ (by simpa using hn)]

/-- A property of state and list that every block keeps holds at the end. -/
theorem foldBlocks_induction {P : σ → List α → Prop}
    (hP : ∀ s (b : List.Vector α n) l, P s (b.toList ++ l) → P (f s b) l) {s : σ} {l : List α} (h : P s l) :
    P (foldBlocks f s l).1 (foldBlocks f s l).2 := by
  induction s, l using foldBlocks.induct f with
  | case1 s l hl ih =>
    rw [foldBlocks,dif_pos hl]
    apply ih
    apply hP
    exact (List.take_append_drop n l).symm ▸ h
  | case2 s l hl =>
    rw [foldBlocks,dif_neg hl]
    exact h

theorem length_foldBlocks (hn : 0 < n) (s : σ) (l : List α) :
    (foldBlocks f s l).2.length = l.length % n := by
  induction s, l using foldBlocks.induct f with
  | case1 s l hl ih =>
    rw [foldBlocks,dif_pos hl,ih,List.length_drop]
    exact (Nat.mod_eq_sub_mod hl.2).symm
  | case2 s l hl =>
    rw [foldBlocks,dif_neg hl,Nat.mod_eq_of_lt (by omega)]

theorem length_foldBlocks_lt (hn : 0 < n) (s : σ) (l : List α) : (foldBlocks f s l).2.length < n := by
  rw [length_foldBlocks f hn]
  exact Nat.mod_lt _ hn

/-- Folding over a list in two pieces: the second piece is folded after what the first left over. -/
theorem foldBlocks_append (hn : 0 < n) (s : σ) (l m : List α) :
    foldBlocks f s (l ++ m) = foldBlocks f (foldBlocks f s l).1 ((foldBlocks f s l).2 ++ m) := by
  apply foldBlocks_induction f (P := fun s' l' => foldBlocks f s (l ++ m) = foldBlocks f s' (l' ++ m))
  · intro s' b l' h
    rw [h,List.append_assoc,foldBlocks_block f hn]
  · rfl

/-- Two folds whose steps correspond under a map of the states. -/
theorem foldBlocks_map {g : τ → List.Vector α n → τ} {u : σ → τ} (hu : ∀ s b, u (f s b) = g (u s) b)
    (s : σ) (l : List α) :
    foldBlocks g (u s) l = (u (foldBlocks f s l).1,(foldBlocks f s l).2) := by
  induction s, l using foldBlocks.induct f with
  | case1 s l hl ih =>
    rw [foldBlocks,dif_pos hl,← hu,ih]
    conv_rhs => rw [foldBlocks,dif_pos hl]
  | case2 s l hl =>
    rw [foldBlocks,dif_neg hl]
    conv_rhs => rw [foldBlocks,dif_neg hl]

end FoldBlocks
