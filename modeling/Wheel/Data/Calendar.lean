import Mathlib

/-!
# The civil calendar

Days are counted from the first day of the year 0 of the proleptic Gregorian calendar. A day
has a year, a month and a day of the month, and a later day has a later date
(`date_lt_of_lt`).
-/

namespace Calendar

/-- The days before a year. -/
def daysBeforeYear (y : ℕ) : ℕ := 365 * y + (y + 3) / 4 - (y + 99) / 100 + (y + 399) / 400

/-- The year a day is in. -/
def yearOf (day : ℕ) : ℕ := Nat.findGreatest (fun y => daysBeforeYear y ≤ day) (day / 365)

def isLeap (y : ℕ) : Bool := y % 4 = 0 ∧ (y % 100 ≠ 0 ∨ y % 400 = 0)

/-- The days of a year before each of its months. -/
def monthStarts (leap : Bool) : List ℕ :=
  if leap then [0, 31, 60, 91, 121, 152, 182, 213, 244, 274, 305, 335]
  else [0, 31, 59, 90, 120, 151, 181, 212, 243, 273, 304, 334]

/-- The day of its year, from 0. -/
def dayOfYear (day : ℕ) : ℕ := day - daysBeforeYear (yearOf day)

/-- The month of a day of a year, from 1. -/
def monthIn (leap : Bool) (d : ℕ) : ℕ := (monthStarts leap).countP (· ≤ d)

/-- The day of its month of a day of a year, from 1. -/
def dayIn (leap : Bool) (d : ℕ) : ℕ := d - (monthStarts leap).getD (monthIn leap d - 1) 0 + 1

def monthOf (day : ℕ) : ℕ := monthIn (isLeap (yearOf day)) (dayOfYear day)

def dayOf (day : ℕ) : ℕ := dayIn (isLeap (yearOf day)) (dayOfYear day)

/-! ## Years -/

/-- The multiples below the next number. -/
theorem multiples_succ (y n : ℕ) (hn : 0 < n) :
    (y + n) / n = (y + (n - 1)) / n + if y % n = 0 then 1 else 0 := by
  have hdiv := Nat.div_add_mod y n
  have hmod := Nat.mod_lt y hn
  rw [Nat.add_div_right _ hn]
  split
  · rename_i h
    have hq : (y + (n - 1)) / n = y / n :=
      Nat.div_eq_of_lt_le (by rw [Nat.mul_comm]; omega) (by rw [Nat.mul_comm, Nat.mul_succ]; omega)
    rw [hq]
  · rename_i h
    have hq : (y + (n - 1)) / n = y / n + 1 :=
      Nat.div_eq_of_lt_le (by rw [Nat.mul_comm, Nat.mul_succ]; omega)
        (by rw [Nat.mul_comm, Nat.mul_succ, Nat.mul_succ]; omega)
    rw [hq]

theorem daysBeforeYear_succ (y : ℕ) :
    daysBeforeYear (y + 1) = daysBeforeYear y + if isLeap y then 366 else 365 := by
  have h4 := multiples_succ y 4 (by decide)
  have h100 := multiples_succ y 100 (by decide)
  have h400 := multiples_succ y 400 (by decide)
  have hle : (y + 99) / 100 ≤ (y + 3) / 4 := by omega
  have hdvd100 : y % 100 = 0 → y % 4 = 0 := by omega
  have hdvd400 : y % 400 = 0 → y % 100 = 0 := by omega
  unfold daysBeforeYear isLeap
  rw [show y + 1 + 3 = y + 4 from rfl, show y + 1 + 99 = y + 100 from rfl,
    show y + 1 + 399 = y + 400 from rfl, h4, h100, h400]
  generalize (y + 99) / 100 = b at hle ⊢
  generalize (y + 3) / 4 = a at hle ⊢
  generalize (y + (400 - 1)) / 400 = c at *
  by_cases h4' : y % 4 = 0
  · by_cases h100' : y % 100 = 0
    · by_cases h400' : y % 400 = 0
      · simp [h4', h100', h400']
        omega
      · simp [h4', h100', h400']
        omega
    · have h400' : ¬ y % 400 = 0 := fun h => h100' (hdvd400 h)
      simp [h4', h100', h400']
      omega
  · have h100' : ¬ y % 100 = 0 := fun h => h4' (hdvd100 h)
    have h400' : ¬ y % 400 = 0 := fun h => h100' (hdvd400 h)
    simp [h4', h100', h400']
    omega

theorem daysBeforeYear_mono : Monotone daysBeforeYear := by
  refine monotone_nat_of_le_succ fun y => ?_
  rw [daysBeforeYear_succ]
  exact Nat.le_add_right _ _

theorem le_daysBeforeYear (y : ℕ) : 365 * y ≤ daysBeforeYear y := by
  unfold daysBeforeYear
  omega

theorem daysBeforeYear_yearOf_le (day : ℕ) : daysBeforeYear (yearOf day) ≤ day :=
  Nat.findGreatest_spec (P := fun y => daysBeforeYear y ≤ day) (Nat.zero_le _) (Nat.zero_le _)

theorem lt_daysBeforeYear_succ (day : ℕ) : day < daysBeforeYear (yearOf day + 1) := by
  by_contra h
  have hle : daysBeforeYear (yearOf day + 1) ≤ day := Nat.le_of_not_lt h
  have hbound : yearOf day + 1 ≤ day / 365 := by
    have h365 := le_daysBeforeYear (yearOf day + 1)
    omega
  have hgreatest : yearOf day + 1 ≤ yearOf day :=
    Nat.le_findGreatest (P := fun y => daysBeforeYear y ≤ day) hbound hle
  omega

theorem yearOf_mono {d d' : ℕ} (h : d ≤ d') : yearOf d ≤ yearOf d' := by
  by_contra hlt
  have hyear : yearOf d' + 1 ≤ yearOf d := by omega
  have hdays := daysBeforeYear_mono hyear
  have hd := daysBeforeYear_yearOf_le d
  have hd' := lt_daysBeforeYear_succ d'
  omega

theorem yearOf_lt {day y : ℕ} (h : day < daysBeforeYear y) : yearOf day < y := by
  by_contra hle
  have hdays := daysBeforeYear_mono (Nat.le_of_not_lt hle)
  have hday := daysBeforeYear_yearOf_le day
  omega

theorem dayOfYear_lt (day : ℕ) : dayOfYear day < 366 := by
  have hle := daysBeforeYear_yearOf_le day
  have hlt := lt_daysBeforeYear_succ day
  rw [daysBeforeYear_succ] at hlt
  unfold dayOfYear
  split at hlt <;> omega

/-! ## Months -/

theorem monthIn_mono (leap : Bool) {d d' : ℕ} (h : d ≤ d') : monthIn leap d ≤ monthIn leap d' :=
  List.countP_mono_left fun _ _ hs => decide_eq_true ((of_decide_eq_true hs).trans h)

theorem monthIn_le (leap : Bool) (d : ℕ) : monthIn leap d ≤ 12 := by
  have hle := List.countP_le_length (p := fun s => decide (s ≤ d)) (l := monthStarts leap)
  cases leap <;> exact hle

theorem start_le (leap : Bool) {d : ℕ} (h : d < 366) :
    (monthStarts leap).getD (monthIn leap d - 1) 0 ≤ d := by
  revert d
  cases leap <;> decide +kernel

theorem dayIn_lt (leap : Bool) {d : ℕ} (h : d < 366) : dayIn leap d < 100 := by
  revert d
  cases leap <;> decide +kernel

/-- A later day of a year has a later month, or a later day of the same month. -/
theorem monthIn_lt_of_lt (leap : Bool) {d d' : ℕ} (h : d < d') (hd' : d' < 366) :
    monthIn leap d < monthIn leap d' ∨
      (monthIn leap d = monthIn leap d' ∧ dayIn leap d < dayIn leap d') := by
  rcases Nat.lt_or_eq_of_le (monthIn_mono leap h.le) with hlt | heq
  · exact .inl hlt
  · refine .inr ⟨heq, ?_⟩
    have hstart := start_le leap (h.trans hd')
    unfold dayIn
    rw [← heq]
    omega

/-- A later day has a later date. -/
theorem date_lt_of_lt {day day' : ℕ} (h : day < day') :
    yearOf day < yearOf day' ∨ (yearOf day = yearOf day' ∧
      (monthOf day < monthOf day' ∨ (monthOf day = monthOf day' ∧ dayOf day < dayOf day'))) := by
  rcases Nat.lt_or_eq_of_le (yearOf_mono h.le) with hlt | heq
  · exact .inl hlt
  · refine .inr ⟨heq, ?_⟩
    have hle := daysBeforeYear_yearOf_le day
    have hdays : dayOfYear day < dayOfYear day' := by
      unfold dayOfYear
      rw [← heq]
      omega
    unfold monthOf dayOf
    rw [← heq]
    exact monthIn_lt_of_lt _ hdays (dayOfYear_lt day')

end Calendar
