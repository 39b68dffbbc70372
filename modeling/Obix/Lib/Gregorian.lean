import Mathlib.Data.Nat.Find
import Mathlib.Tactic

/-!
# The proleptic Gregorian calendar

Days are counted from the first of January of the year 0.  `civilOfDay` turns
a day count into year, month and day of the month, and `dayOfCivil` is the day
count of a date; it also accepts a day of the month out of range, which then
counts on into the neighbouring months, as `timegm` does.

The main result is `civilOfDay_lt`: the lexicographic order of the dates is
the order of the day counts.
-/

namespace Gregorian

/-- Leap years. -/
def isLeap (y : Nat) : Bool :=
  y % 4 = 0 && (y % 100 ≠ 0 || y % 400 = 0)

/-- Number of days before the first of January of a year. -/
def daysBeforeYear (y : Nat) : Nat :=
  365 * y + (y + 3) / 4 - (y + 99) / 100 + (y + 399) / 400

/-- Number of days of a year before the first day of a month, months from 0. -/
def daysBeforeMonth (leap : Bool) : Nat → Nat
  | 0 => 0
  | 1 => 31
  | 2 => if leap then 60 else 59
  | 3 => if leap then 91 else 90
  | 4 => if leap then 121 else 120
  | 5 => if leap then 152 else 151
  | 6 => if leap then 182 else 181
  | 7 => if leap then 213 else 212
  | 8 => if leap then 244 else 243
  | 9 => if leap then 274 else 273
  | 10 => if leap then 305 else 304
  | _ => if leap then 335 else 334

/-- Day count of a date; `mon` counts from 0 and `mday` from 1. -/
def dayOfCivil (y mon : Nat) (mday : Int) : Int :=
  (daysBeforeYear y : Int) + daysBeforeMonth (isLeap y) mon + mday - 1

/-- A date: year, month from 1, day of the month from 1. -/
structure Date where
  year : Nat
  month : Nat
  mday : Nat
  deriving DecidableEq, Repr

/-- Lexicographic order of dates. -/
def Date.lt (a b : Date) : Prop :=
  a.year < b.year ∨
    a.year = b.year ∧
      (a.month < b.month ∨ a.month = b.month ∧ a.mday < b.mday)

/-- The year that contains a day. -/
def yearOfDay (n : Nat) : Nat :=
  Nat.findGreatest (fun y => daysBeforeYear y ≤ n) (n / 365)

/-- The month, from 0, that contains a day of a year. -/
def monthOfDay (leap : Bool) (yday : Nat) : Nat :=
  Nat.findGreatest (fun m => daysBeforeMonth leap m ≤ yday) 11

/-- The date of a day. -/
def civilOfDay (n : Nat) : Date :=
  let y := yearOfDay n
  let yday := n - daysBeforeYear y
  let m := monthOfDay (isLeap y) yday
  { year := y, month := m + 1, mday := yday - daysBeforeMonth (isLeap y) m + 1 }

theorem daysBeforeYear_zero : daysBeforeYear 0 = 0 := by
  decide

theorem le_daysBeforeYear (y : Nat) : 365 * y ≤ daysBeforeYear y := by
  unfold daysBeforeYear
  omega

/-- The year of a day begins not after the day. -/
theorem daysBeforeYear_yearOfDay_le (n : Nat) :
    daysBeforeYear (yearOfDay n) ≤ n := by
  have h := Nat.findGreatest_spec (P := fun y => daysBeforeYear y ≤ n)
    (Nat.zero_le (n / 365)) (by simp [daysBeforeYear_zero])
  exact h

/-- A year that begins not after a day is not later than the year of the day. -/
theorem le_yearOfDay {n y : Nat} (h : daysBeforeYear y ≤ n) :
    y ≤ yearOfDay n := by
  have hy : y ≤ n / 365 := by
    have := le_daysBeforeYear y
    omega
  exact Nat.le_findGreatest hy h

theorem yearOfDay_mono {n m : Nat} (h : n ≤ m) :
    yearOfDay n ≤ yearOfDay m :=
  le_yearOfDay (le_trans (daysBeforeYear_yearOfDay_le n) h)

theorem daysBeforeMonth_zero (leap : Bool) : daysBeforeMonth leap 0 = 0 := rfl

theorem daysBeforeMonth_monthOfDay_le (leap : Bool) (yday : Nat) :
    daysBeforeMonth leap (monthOfDay leap yday) ≤ yday := by
  have h := Nat.findGreatest_spec (P := fun m => daysBeforeMonth leap m ≤ yday)
    (Nat.zero_le 11) (by simp [daysBeforeMonth_zero])
  exact h

theorem monthOfDay_mono (leap : Bool) {i j : Nat} (h : i ≤ j) :
    monthOfDay leap i ≤ monthOfDay leap j :=
  Nat.le_findGreatest (Nat.findGreatest_le 11)
    (le_trans (daysBeforeMonth_monthOfDay_le leap i) h)

/-- **Dates are ordered as the days are.** -/
theorem civilOfDay_lt
    {n m : Nat}
    (h : n < m) :
    (civilOfDay n).lt (civilOfDay m) := by
  have hn := daysBeforeYear_yearOfDay_le n
  have hm := daysBeforeYear_yearOfDay_le m
  rcases Nat.lt_or_eq_of_le (yearOfDay_mono (le_of_lt h)) with hy | hy
  · exact Or.inl hy
  · -- the same year: compare the days of the year
    refine Or.inr ⟨hy, ?_⟩
    simp only [civilOfDay]
    rw [← hy] at hm ⊢
    generalize isLeap (yearOfDay n) = leap
    have hlt : n - daysBeforeYear (yearOfDay n) < m - daysBeforeYear (yearOfDay n) := by
      omega
    generalize n - daysBeforeYear (yearOfDay n) = i at hlt ⊢
    generalize m - daysBeforeYear (yearOfDay n) = j at hlt ⊢
    rcases Nat.lt_or_eq_of_le (monthOfDay_mono leap (le_of_lt hlt)) with hmo | hmo
    · exact Or.inl (by omega)
    · have hi := daysBeforeMonth_monthOfDay_le leap i
      rw [← hmo]
      exact Or.inr ⟨rfl, by omega⟩

/-- A year ends where the next one begins. -/
theorem daysBeforeYear_succ (y : Nat) :
    daysBeforeYear (y + 1) = daysBeforeYear y + (if isLeap y then 366 else 365) := by
  have h4 : (y + 1 + 3) / 4 = (y + 3) / 4 + if y % 4 = 0 then 1 else 0 := by
    split <;> omega
  have h100 : (y + 1 + 99) / 100 = (y + 99) / 100 + if y % 100 = 0 then 1 else 0 := by
    split <;> omega
  have h400 : (y + 1 + 399) / 400 = (y + 399) / 400 + if y % 400 = 0 then 1 else 0 := by
    split <;> omega
  have hle : (y + 99) / 100 ≤ y := by omega
  have hcentury : y % 100 = 0 → y % 4 = 0 := by omega
  have hcycle : y % 400 = 0 → y % 100 = 0 := by omega
  unfold daysBeforeYear isLeap
  rw [h4, h100, h400]
  generalize (y + 3) / 4 = a, (y + 99) / 100 = b, (y + 399) / 400 = c at hle ⊢
  by_cases hy4 : y % 4 = 0
  · by_cases hy100 : y % 100 = 0
    · by_cases hy400 : y % 400 = 0
      · simp only [hy4, hy100, hy400, ne_eq, not_true_eq_false, decide_true, decide_false,
          Bool.false_or, Bool.and_true, if_true]
        omega
      · simp only [hy4, hy100, hy400, ne_eq, not_true_eq_false, decide_true, decide_false,
          Bool.false_or, Bool.and_false, if_true, if_false, Bool.false_eq_true]
        omega
    · have hy400 : ¬ y % 400 = 0 := fun h => hy100 (hcycle h)
      simp only [hy4, hy100, hy400, ne_eq, not_false_eq_true, decide_true, Bool.true_or,
        Bool.and_true, if_true, if_false]
      omega
  · have hy100 : ¬ y % 100 = 0 := fun h => hy4 (hcentury h)
    have hy400 : ¬ y % 400 = 0 := fun h => hy100 (hcycle h)
    simp only [hy4, hy100, hy400, decide_false, Bool.false_and, if_false, Bool.false_eq_true]
    omega

theorem daysBeforeYear_mono {y z : Nat} (h : y ≤ z) :
    daysBeforeYear y ≤ daysBeforeYear z := by
  induction h with
  | refl => exact le_refl _
  | step _ ih =>
      rw [daysBeforeYear_succ]
      exact le_trans ih (Nat.le_add_right _ _)

/-- The year of a day is a matter of where the year begins. -/
theorem yearOfDay_lt_iff {n y : Nat} :
    yearOfDay n < y ↔ n < daysBeforeYear y := by
  constructor
  · intro h
    by_contra hle
    exact absurd (le_yearOfDay (Nat.le_of_not_lt hle)) (Nat.not_le.mpr h)
  · intro h
    by_contra hle
    have := daysBeforeYear_mono (Nat.le_of_not_lt hle)
    have := daysBeforeYear_yearOfDay_le n
    omega

/-- The days of a year. -/
theorem sub_daysBeforeYear_lt (n : Nat) :
    n - daysBeforeYear (yearOfDay n) < if isLeap (yearOfDay n) then 366 else 365 := by
  have h := yearOfDay_lt_iff.mp (Nat.lt_succ_self (yearOfDay n))
  have hle := daysBeforeYear_yearOfDay_le n
  rw [Nat.succ_eq_add_one, daysBeforeYear_succ] at h
  omega

/-- A month has at most 31 days. -/
theorem sub_daysBeforeMonth_lt
    {leap : Bool} {yday : Nat}
    (h : yday < if leap then 366 else 365) :
    yday - daysBeforeMonth leap (monthOfDay leap yday) < 31 := by
  have hle := daysBeforeMonth_monthOfDay_le leap yday
  have hmax : monthOfDay leap yday ≤ 11 := Nat.findGreatest_le 11
  have hnext : ∀ m, m ≤ 11 → monthOfDay leap yday < m → yday < daysBeforeMonth leap m := by
    intro m hm hlt
    by_contra hge
    have hbefore : m ≤ monthOfDay leap yday := Nat.le_findGreatest hm (Nat.le_of_not_lt hge)
    omega
  generalize monthOfDay leap yday = m at hle hmax hnext ⊢
  have hsucc := hnext (m + 1)
  cases leap <;> interval_cases m <;> simp_all [daysBeforeMonth] <;> omega

/-- A date consists of a month of twelve and of a day of 31. -/
theorem civilOfDay_range (n : Nat) :
    1 ≤ (civilOfDay n).month ∧ (civilOfDay n).month ≤ 12 ∧
      1 ≤ (civilOfDay n).mday ∧ (civilOfDay n).mday ≤ 31 := by
  have hmonth : monthOfDay (isLeap (yearOfDay n)) (n - daysBeforeYear (yearOfDay n)) ≤ 11 :=
    Nat.findGreatest_le 11
  have hmday := sub_daysBeforeMonth_lt (sub_daysBeforeYear_lt n)
  simp only [civilOfDay]
  omega

/-- **The date of a day leads back to the day.** -/
theorem dayOfCivil_civilOfDay (n : Nat) :
    dayOfCivil (civilOfDay n).year ((civilOfDay n).month - 1) (civilOfDay n).mday = n := by
  have hyear := daysBeforeYear_yearOfDay_le n
  have hmonth := daysBeforeMonth_monthOfDay_le (isLeap (yearOfDay n))
    (n - daysBeforeYear (yearOfDay n))
  simp only [dayOfCivil, civilOfDay, Nat.add_sub_cancel]
  omega

example : civilOfDay (daysBeforeYear 1970 + 16191) = ⟨2014, 5, 1⟩ := by decide +kernel

end Gregorian
