import Mathlib.Data.Nat.Find
import Mathlib.Tactic

/-! The Gregorian calendar, extended over all years: the number of a day and the date of a day. Day 0
is the first of January 1970; months count from 0. -/
namespace Calendar

def leap (y : ℤ) : Prop := y % 4 = 0 ∧ (y % 100 ≠ 0 ∨ y % 400 = 0)

instance (y : ℤ) : Decidable (leap y) := inferInstanceAs (Decidable (_ ∧ _))

/-- The number of the first day of a year. -/
def beforeYear (y : ℤ) : ℤ := 365*(y - 1970) + (y - 1969)/4 - (y - 1901)/100 + (y - 1601)/400

/-- The days of a year before one of its months. -/
def beforeMonth (y m : ℤ) : ℤ :=
  [0,31,59,90,120,151,181,212,243,273,304,334].getD m.toNat 334 + if leap y ∧ 2 ≤ m then 1 else 0

/-- The number of a day. Months and days outside their ranges carry over. -/
def day (y m d : ℤ) : ℤ := beforeYear (y + m/12) + beforeMonth (y + m/12) (m % 12) + d - 1

theorem beforeYear_succ (y : ℤ) : beforeYear (y+1) = beforeYear y + 365 + if leap y then 1 else 0 := by
  by_cases h : leap y
  · rw [if_pos h]
    unfold leap at h
    unfold beforeYear
    omega
  · rw [if_neg h]
    unfold leap at h
    unfold beforeYear
    omega

theorem beforeYear_strictMono : StrictMono beforeYear := by
  refine strictMono_int_of_lt_succ fun y => ?_
  rw [beforeYear_succ]
  split <;> omega

/-- The months of a year, one after the other. -/
theorem beforeMonth_succ (y : ℤ) {m : ℤ} (h₀ : 0 ≤ m) (h : m < 11) :
    beforeMonth y m + 28 ≤ beforeMonth y (m+1) ∧ beforeMonth y (m+1) ≤ beforeMonth y m + 31 := by
  unfold beforeMonth
  interval_cases m <;> by_cases hy : leap y <;> simp [hy]

theorem beforeMonth_bounds (y : ℤ) {m : ℤ} (h₀ : 0 ≤ m) (h : m < 12) :
    0 ≤ beforeMonth y m ∧ beforeMonth y m ≤ 334 + if leap y then 1 else 0 := by
  unfold beforeMonth
  interval_cases m <;> by_cases hy : leap y <;> simp [hy]

/-- A date with its month and day in range. -/
structure InRange (m d : ℤ) : Prop where
  month : 0 ≤ m ∧ m < 12
  day : 1 ≤ d ∧ d ≤ 31

theorem day_of_inRange (y : ℤ) {m d : ℤ} (h : InRange m d) : day y m d = beforeYear y + beforeMonth y m + d - 1 := by
  have hm := h.month
  rw [day,Int.ediv_eq_zero_of_lt hm.1 hm.2,Int.emod_eq_of_lt hm.1 hm.2,Int.add_zero]

/-- The days of a year lie between its first day and that of the next year. -/
theorem day_bounds (y : ℤ) {m d : ℤ} (h : InRange m d) :
    beforeYear y ≤ day y m d ∧ day y m d < beforeYear (y+1) := by
  have hm := beforeMonth_bounds y h.month.1 h.month.2
  have hd := h.day
  rw [day_of_inRange y h,beforeYear_succ]
  omega

/-- A day of one of the years `k, …, l-1` has a date in these years. -/
theorem year_bounds {k l y m d : ℤ} (h : InRange m d) (hk : beforeYear k ≤ day y m d)
    (hl : day y m d < beforeYear l) : k ≤ y ∧ y < l := by
  obtain ⟨h₁,h₂⟩ := day_bounds y h
  have hky := beforeYear_strictMono.lt_iff_lt.1 (Int.lt_of_le_of_lt hk h₂)
  have hyl := beforeYear_strictMono.lt_iff_lt.1 (Int.lt_of_le_of_lt h₁ hl)
  omega

/-! ### The date of a day -/

/-- The year of day `n`, counted from 1970. -/
def yearOf (n : ℕ) : ℕ := Nat.findGreatest (fun k => beforeYear (1970 + k) ≤ n) (n/365)

/-- The month of the day with `n` days of its year before it. -/
def monthOf (y n : ℤ) : ℕ := Nat.findGreatest (fun m => beforeMonth y m ≤ n) 11

theorem yearOf_spec (n : ℕ) :
    beforeYear (1970 + yearOf n) ≤ n ∧ (n : ℤ) < beforeYear (1970 + yearOf n + 1) := by
  have hzero : beforeYear (1970 + (0 : ℕ)) ≤ n := by
    change (0 : ℤ) ≤ n
    omega
  refine ⟨@Nat.findGreatest_spec _ (fun k : ℕ => beforeYear (1970 + k) ≤ n) _ _ (Nat.zero_le _) hzero,?_⟩
  by_contra hle
  have hle := Int.not_lt.1 hle
  have hbound : yearOf n + 1 ≤ n/365 := by
    unfold beforeYear at hle
    omega
  exact Nat.findGreatest_is_greatest (Nat.lt_succ_self (yearOf n)) hbound (by push_cast; rwa [← Int.add_assoc])

theorem monthOf_spec (y : ℤ) {n : ℤ} (h₀ : 0 ≤ n) (h : n < 365 + if leap y then 1 else 0) :
    monthOf y n < 12 ∧ beforeMonth y (monthOf y n) ≤ n ∧ n < beforeMonth y (monthOf y n) + 31 := by
  have hzero : beforeMonth y (0 : ℕ) ≤ n := by
    simpa [beforeMonth] using h₀
  have hle : monthOf y n ≤ 11 := Nat.findGreatest_le 11
  refine ⟨by omega,@Nat.findGreatest_spec _ (fun m : ℕ => beforeMonth y m ≤ n) _ _ (Nat.zero_le _) hzero,?_⟩
  rcases Nat.lt_or_eq_of_le hle with hlt | heq
  · have hnext := @Nat.findGreatest_is_greatest (monthOf y n + 1) (fun m : ℕ => beforeMonth y m ≤ n) _ 11
      (Nat.lt_succ_self _) hlt
    have hsucc := @beforeMonth_succ y (monthOf y n) (by omega) (by omega)
    push_cast at hnext
    omega
  · rw [heq]
    have : beforeMonth y (11 : ℕ) = 334 + if leap y then 1 else 0 := by
      by_cases hy : leap y <;> simp [beforeMonth,hy]
    omega

/-- Every day from day 0 on has a date. -/
theorem day_date (n : ℕ) {y m d : ℤ} (hy : y = 1970 + yearOf n)
    (hm : m = monthOf y (n - beforeYear y)) (hd : d = n - beforeYear y - beforeMonth y m + 1) :
    InRange m d ∧ day y m d = n := by
  obtain ⟨h₁,h₂⟩ := yearOf_spec n
  rw [← hy,beforeYear_succ] at h₂
  rw [← hy] at h₁
  obtain ⟨h₃,h₄,h₅⟩ := @monthOf_spec y (n - beforeYear y) (by omega) (by omega)
  rw [← hm] at h₄ h₅
  have hrange : InRange m d := ⟨⟨by omega,by omega⟩,by omega,by omega⟩
  refine ⟨hrange,?_⟩
  rw [day_of_inRange y hrange]
  omega

end Calendar
