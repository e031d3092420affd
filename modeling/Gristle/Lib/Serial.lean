import Mathlib.Tactic

/-! A serial line: its master sends one symbol at a time and receives one for it. The device at the other
end is any machine. Stated here is what it answers to a sequence of symbols, and which of its answers to
a symbol that is repeated is the first of a given kind. -/

/-- A device that answers every symbol with a symbol. -/
structure Responder (σ ι ο : Type) where
  answer : σ → ι → ο
  next : σ → ι → σ

namespace Responder
variable {σ ι ο : Type} (D : Responder σ ι ο)

/-- The device after these symbols. -/
def after (s : σ) (l : List ι) : σ := l.foldl D.next s

/-- The answers to these symbols. -/
def replies : σ → List ι → List ο
  | _, [] => []
  | s, b :: l => D.answer s b :: replies (D.next s b) l

@[simp] theorem after_nil (s : σ) : D.after s [] = s := rfl

@[simp] theorem after_cons (s : σ) (b : ι) (l : List ι) : D.after s (b :: l) = D.after (D.next s b) l := rfl

@[simp] theorem after_append (s : σ) (l m : List ι) : D.after s (l ++ m) = D.after (D.after s l) m :=
  List.foldl_append

@[simp] theorem replies_nil (s : σ) : D.replies s [] = [] := rfl

@[simp] theorem replies_cons (s : σ) (b : ι) (l : List ι) :
    D.replies s (b :: l) = D.answer s b :: D.replies (D.next s b) l := rfl

theorem replies_append (s : σ) (l m : List ι) :
    D.replies s (l ++ m) = D.replies s l ++ D.replies (D.after s l) m := by
  induction l generalizing s with
  | nil => rfl
  | cons b l ih => rw [List.cons_append,replies_cons,replies_cons,ih,after_cons,List.cons_append]

@[simp] theorem length_replies (s : σ) (l : List ι) : (D.replies s l).length = l.length := by
  induction l generalizing s with
  | nil => rfl
  | cons b l ih => rw [replies_cons,List.length_cons,List.length_cons,ih]

/-- Between `s` and `t` the device answers these symbols with those. -/
structure Exchanges (s : σ) (sent : List ι) (received : List ο) (t : σ) : Prop where
  replies : D.replies s sent = received
  after : D.after s sent = t

section Exchanges
variable {D} {s t u : σ} {b : ι} {sent sent' : List ι} {received received' : List ο}

theorem Exchanges.append (h : D.Exchanges s sent received t) (h' : D.Exchanges t sent' received' u) :
    D.Exchanges s (sent ++ sent') (received ++ received') u where
  replies := by rw [D.replies_append,h.replies,h.after,h'.replies]
  after := by rw [D.after_append,h.after,h'.after]

/-- An exchange in two parts. -/
theorem Exchanges.split (h : D.Exchanges s (sent ++ sent') (received ++ received') t)
    (hlen : sent.length = received.length) :
    D.Exchanges s sent received (D.after s sent) ∧ D.Exchanges (D.after s sent) sent' received' t := by
  have hreplies := h.replies
  rw [D.replies_append] at hreplies
  obtain ⟨hleft,hright⟩ := List.append_inj hreplies (by rw [D.length_replies,hlen])
  refine ⟨⟨hleft,rfl⟩,hright,?_⟩
  rw [← D.after_append,h.after]

end Exchanges

/-! ### A symbol that is repeated -/

/-- The device after `n` times the symbol `b`. -/
def idle (b : ι) (s : σ) (n : ℕ) : σ := D.after s (List.replicate n b)

/-- Answer number `n` to the symbol `b`, sent again and again. -/
def nth (b : ι) (s : σ) (n : ℕ) : ο := D.answer (D.idle b s n) b

/-- Answer number `n` is the first with `P`. -/
structure FirstAt (P : ο → Prop) (b : ι) (s : σ) (n : ℕ) : Prop where
  holds : P (D.nth b s n)
  before : ∀ i < n, ¬ P (D.nth b s i)

section Repeated
variable {b : ι} {s : σ} {n : ℕ} {P : ο → Prop}

theorem idle_zero (b : ι) (s : σ) : D.idle b s 0 = s := rfl

theorem idle_succ (b : ι) (s : σ) (n : ℕ) : D.idle b s (n+1) = D.idle b (D.next s b) n := rfl

theorem idle_add (b : ι) (s : σ) (m n : ℕ) : D.idle b s (m+n) = D.idle b (D.idle b s m) n := by
  rw [idle,List.replicate_add,after_append]
  rfl

theorem nth_zero (b : ι) (s : σ) : D.nth b s 0 = D.answer s b := rfl

theorem nth_succ (b : ι) (s : σ) (n : ℕ) : D.nth b s (n+1) = D.nth b (D.next s b) n := rfl

theorem replies_replicate (b : ι) (s : σ) (n : ℕ) :
    D.replies s (List.replicate n b) = (List.range n).map (D.nth b s) := by
  induction n generalizing s with
  | zero => rfl
  | succ n ih =>
    rw [List.replicate_succ,replies_cons,ih,List.range_succ_eq_map,List.map_cons,List.map_map]
    rfl

variable {D}

/-- An answer of the kind comes first somewhere, if there is one. -/
theorem exists_firstAt (h : P (D.nth b s n)) : ∃ k ≤ n, D.FirstAt P b s k := by
  classical
  have hex : ∃ k, P (D.nth b s k) := ⟨n,h⟩
  exact ⟨Nat.find hex,Nat.find_min' hex h,Nat.find_spec hex,fun i hi => Nat.find_min hex hi⟩

theorem FirstAt.unique {m : ℕ} (h : D.FirstAt P b s n) (h' : D.FirstAt P b s m) : n = m := by
  rcases Nat.lt_trichotomy n m with hlt | heq | hgt
  · exact absurd h.holds (h'.before n hlt)
  · exact heq
  · exact absurd h'.holds (h.before m hgt)

theorem firstAt_zero (h : P (D.answer s b)) : D.FirstAt P b s 0 := ⟨h,fun _ hi => absurd hi (Nat.not_lt_zero _)⟩

/-- If the next answer is not of the kind, the search goes on behind it. -/
theorem firstAt_succ (h : ¬ P (D.answer s b)) : D.FirstAt P b s (n+1) ↔ D.FirstAt P b (D.next s b) n := by
  constructor
  · rintro ⟨hn,hbefore⟩
    exact ⟨hn,fun i hi => hbefore (i+1) (Nat.succ_lt_succ hi)⟩
  · rintro ⟨hn,hbefore⟩
    refine ⟨hn,fun i hi => ?_⟩
    cases i with
    | zero => exact h
    | succ i => exact hbefore i (Nat.lt_of_succ_lt_succ hi)

/-- The first answer of the kind is read off an exchange. -/
theorem Exchanges.firstAt {t : σ} {waiting rest : List ο} {c : ο}
    (h : D.Exchanges s (List.replicate (waiting.length + 1 + rest.length) b) (waiting ++ c :: rest) t)
    (hwaiting : ∀ x ∈ waiting, ¬ P x) (hc : P c) : D.FirstAt P b s waiting.length ∧
      D.nth b s waiting.length = c ∧
      D.Exchanges (D.idle b s (waiting.length + 1)) (List.replicate rest.length b) rest t := by
  have hall := h.replies
  rw [replies_replicate] at hall
  have hget (i : ℕ) (hi : i < waiting.length + 1 + rest.length) :
      (waiting ++ c :: rest)[i]? = some (D.nth b s i) := by
    rw [← hall,List.getElem?_map,List.getElem?_range hi]
    rfl
  have hlast : D.nth b s waiting.length = c := by
    have hlen := hget waiting.length (by omega)
    rw [List.getElem?_append_right (Nat.le_refl _),Nat.sub_self,List.getElem?_cons_zero] at hlen
    exact (Option.some.inj hlen).symm
  refine ⟨⟨hlast ▸ hc,fun i hi => ?_⟩,hlast,?_⟩
  · have hi' := hget i (by omega)
    rw [List.getElem?_append_left hi] at hi'
    exact hwaiting _ (List.mem_of_getElem? hi')
  · have hsplit : D.Exchanges s (List.replicate (waiting.length + 1) b ++ List.replicate rest.length b)
        ((waiting ++ [c]) ++ rest) t := by
      rw [← List.replicate_add,List.append_assoc]
      exact h
    exact (hsplit.split (by simp)).2

end Repeated

end Responder
