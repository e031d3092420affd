import Mathlib.Tactic

/-! Chains of a partial successor function: the list of nodes from a first one to one without a
successor. Such a list is determined by its head and repeats no node. -/

/-- From `a` the successors are the rest of the list, and the last node has none. -/
inductive ChainFrom {α : Type} (next : α → Option α) : α → List α → Prop
  | last {a : α} (h : next a = none) : ChainFrom next a [a]
  | cons {a b : α} {l : List α} (h : next a = some b) (tail : ChainFrom next b l) :
      ChainFrom next a (a :: l)

namespace ChainFrom
variable {α : Type} {next next' : α → Option α} {a b x y : α} {l l' : List α}

theorem head_mem (h : ChainFrom next a l) : a ∈ l := by
  cases h <;> simp

theorem length_pos (h : ChainFrom next a l) : 0 < l.length := by
  cases h <;> simp

theorem getElem_zero (h : ChainFrom next a l) : l[0]? = some a := by
  cases h <;> rfl

/-- The head determines the chain. -/
theorem unique (h : ChainFrom next a l) (h' : ChainFrom next a l') : l = l' := by
  induction h generalizing l' with
  | last hn =>
    cases h' with
    | last => rfl
    | cons hs => simp [hn] at hs
  | cons hs tail ih =>
    cases h' with
    | last hn => simp [hs] at hn
    | cons hs' tail' =>
      obtain rfl : _ = _ := Option.some.inj (hs.symm.trans hs')
      rw [ih tail']

/-- Every node of a chain starts the chain of the nodes behind it. -/
theorem suffix (h : ChainFrom next a l) (hx : x ∈ l) :
    ∃ l₁ l₂, l = l₁ ++ l₂ ∧ ChainFrom next x l₂ := by
  induction h with
  | last hn =>
    obtain rfl := List.mem_singleton.1 hx
    exact ⟨[],_,rfl,.last hn⟩
  | cons hs tail ih =>
    rcases List.mem_cons.1 hx with rfl | hx
    · exact ⟨[],_,rfl,.cons hs tail⟩
    · obtain ⟨l₁,l₂,rfl,hl⟩ := ih hx
      exact ⟨_ :: l₁,l₂,rfl,hl⟩

theorem nodup (h : ChainFrom next a l) : l.Nodup := by
  induction h with
  | last => simp
  | @cons a b l hs tail ih =>
    refine List.nodup_cons.2 ⟨fun hmem => ?_,ih⟩
    obtain ⟨l₁,l₂,hl,htail⟩ := tail.suffix hmem
    have hlen := congrArg List.length ((ChainFrom.cons hs tail).unique htail)
    have hlen' := congrArg List.length hl
    simp only [List.length_cons] at hlen
    simp only [List.length_append] at hlen'
    omega

/-- A chain is closed under successors. -/
theorem next_mem (h : ChainFrom next a l) (hx : x ∈ l) (hy : next x = some y) : y ∈ l := by
  obtain ⟨l₁,l₂,rfl,hl⟩ := h.suffix hx
  cases hl with
  | last hn => simp [hn] at hy
  | cons hs tail =>
    obtain rfl : _ = _ := Option.some.inj (hs.symm.trans hy)
    simp [tail.head_mem]

/-- Consecutive nodes are linked. -/
theorem next_getElem (h : ChainFrom next a l) {i : ℕ} (hi : i + 1 < l.length) :
    next l[i] = some l[i+1] := by
  induction h generalizing i with
  | last => simp at hi
  | cons hs tail ih =>
    cases i with
    | zero =>
      have h₀ := tail.getElem_zero
      rw [List.getElem?_eq_getElem tail.length_pos] at h₀
      rw [List.getElem_cons_zero,List.getElem_cons_succ,Option.some.inj h₀,hs]
    | succ i => exact ih (by simpa using hi)

theorem next_last (h : ChainFrom next a l) {i : ℕ} (hi : i < l.length) (hl : i + 1 = l.length) :
    next l[i] = none := by
  induction h generalizing i with
  | last hn =>
    obtain rfl : i = 0 := by simpa using hl
    exact hn
  | cons hs tail ih =>
    cases i with
    | zero =>
      have := tail.length_pos
      rw [List.length_cons] at hl
      omega
    | succ i => exact ih (by simpa using hi) (by simpa using hl)

/-- Only the successors of the nodes on it matter for a chain. -/
theorem congr (h : ChainFrom next a l) (hn : ∀ x ∈ l, next' x = next x) : ChainFrom next' a l := by
  induction h with
  | last hs => exact .last ((hn _ (by simp)).trans hs)
  | cons hs tail ih =>
    exact .cons ((hn _ (by simp)).trans hs) (ih fun x hx => hn x (by simp [hx]))

/-- Link a last node behind a chain. -/
theorem extend (h : ChainFrom next a l) (hx : next x = none) (hlink : next' x = some y)
    (hy : next' y = none) (hn : ∀ z ∈ l, z ≠ x → next' z = next z) (hmem : x ∈ l) :
    ChainFrom next' a (l ++ [y]) := by
  induction h with
  | last hs =>
    obtain rfl := List.mem_singleton.1 hmem
    exact .cons hlink (.last hy)
  | @cons a b l hs tail ih =>
    have hax : a ≠ x := by
      rintro rfl
      simp [hs] at hx
    refine .cons ((hn a (by simp) hax).trans hs) (ih ?_ ?_)
    · exact fun z hz => hn z (by simp [hz])
    · exact (List.mem_cons.1 hmem).resolve_left hax.symm

end ChainFrom
