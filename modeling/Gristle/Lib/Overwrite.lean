import Mathlib.Tactic

/-! Writing over a list: the elements from a position on are replaced, and the list grows when they
reach past its end. -/

/-- The list with `ys` written over it from position `p` on. -/
def overwrite {α : Type} (xs : List α) (p : ℕ) (ys : List α) : List α :=
  xs.take p ++ ys ++ xs.drop (p + ys.length)

section Overwrite
variable {α : Type} {xs : List α} {p : ℕ}

@[simp] theorem overwrite_nil (xs : List α) (p : ℕ) : overwrite xs p [] = xs := by
  rw [overwrite,List.append_nil,List.length_nil,Nat.add_zero,List.take_append_drop]

theorem length_overwrite (h : p ≤ xs.length) (ys : List α) :
    (overwrite xs p ys).length = max xs.length (p + ys.length) := by
  rw [overwrite,List.length_append,List.length_append,List.length_take,List.length_drop]
  omega

theorem getElem?_overwrite (h : p ≤ xs.length) (ys : List α) (i : ℕ) : (overwrite xs p ys)[i]? =
    if p ≤ i ∧ i < p + ys.length then ys[i-p]? else xs[i]? := by
  have hp : (xs.take p).length = p := by rw [List.length_take,min_eq_left h]
  rw [overwrite,List.append_assoc]
  by_cases hlt : i < p
  · rw [List.getElem?_append_left (by omega),List.getElem?_take_of_lt hlt,if_neg (by omega)]
  rw [List.getElem?_append_right (by omega),hp]
  by_cases hin : i < p + ys.length
  · rw [List.getElem?_append_left (by omega),if_pos (by omega)]
  · rw [List.getElem?_append_right (by omega),List.getElem?_drop,if_neg (by omega)]
    congr 1
    omega

/-- Writing element by element is writing at once. -/
theorem overwrite_cons (h : p ≤ xs.length) (y : α) (ys : List α) :
    overwrite (overwrite xs p [y]) (p+1) ys = overwrite xs p (y :: ys) := by
  have hlen : p + 1 ≤ (overwrite xs p [y]).length := by
    rw [length_overwrite h]
    exact le_max_right _ _
  apply List.ext_getElem?
  intro i
  rw [getElem?_overwrite hlen,getElem?_overwrite h,getElem?_overwrite h,List.length_singleton,
    List.length_cons]
  by_cases hin : p + 1 ≤ i ∧ i < p + 1 + ys.length
  · rw [if_pos hin,if_pos (by omega),show i - p = i - (p+1) + 1 by omega,List.getElem?_cons_succ]
  rw [if_neg hin]
  by_cases hi : i = p
  · subst hi
    rw [if_pos (by omega),if_pos (by omega)]
    simp
  · rw [if_neg (by omega),if_neg (by omega)]

/-- A list given by a function of the index. -/
theorem map_range_eq_overwrite {u v : ℕ → α} {n : ℕ} {y : α} (h : p ≤ n) (hy : v p = y)
    (hv : ∀ i < n, i ≠ p → v i = u i) :
    (List.range (if p = n then n + 1 else n)).map v = overwrite ((List.range n).map u) p [y] := by
  set m := if p = n then n + 1 else n with hm
  have hrange (i : ℕ) : i < m ↔ i < n ∨ i = p := by
    rw [hm]
    split <;> omega
  apply List.ext_getElem?
  intro i
  rw [getElem?_overwrite (by simpa using h),List.length_singleton,List.getElem?_map,List.getElem?_map]
  by_cases hi : i = p
  · subst hi
    rw [if_pos (by omega),List.getElem?_range ((hrange i).2 (.inr rfl)),Option.map_some,hy]
    simp
  rw [if_neg (by omega)]
  by_cases hin : i < n
  · rw [List.getElem?_range ((hrange i).2 (.inl hin)),List.getElem?_range hin,Option.map_some,
      Option.map_some,hv i hin hi]
  · have hout : ¬ i < m := fun h => ((hrange i).1 h).elim hin hi
    rw [List.getElem?_eq_none (by simpa using hout),List.getElem?_eq_none (by simpa using hin)]
    rfl

end Overwrite
