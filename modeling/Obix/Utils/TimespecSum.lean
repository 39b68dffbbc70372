import Obix.Lib.CString
import Obix.Utils.Ptask

/-!
# The sum of two times

`timespec_add`.  The period of a task may be negative, and so may be both parts of a time.  As
long as the nanoseconds are less than a second and have the sign of the seconds, the sum is exact
and has this form again (`timespecAdd_exact`).
-/

namespace Obix

open CString

/-- The nanoseconds are less than a second and do not contradict the sign of the seconds. -/
structure Timespec.Signed (time : Timespec) : Prop where
  lower : -1000000000 < time.nsec
  upper : time.nsec < 1000000000
  sec_pos : 0 < time.sec → 0 ≤ time.nsec
  sec_neg : time.sec < 0 → time.nsec ≤ 0

instance (time : Timespec) : Decidable time.Signed :=
  decidable_of_iff
    (-1000000000 < time.nsec ∧ time.nsec < 1000000000 ∧ (0 < time.sec → 0 ≤ time.nsec) ∧
      (time.sec < 0 → time.nsec ≤ 0))
    ⟨fun ⟨hlower, hupper, hpos, hneg⟩ => ⟨hlower, hupper, hpos, hneg⟩,
      fun h => ⟨h.lower, h.upper, h.sec_pos, h.sec_neg⟩⟩

section Long

/-- A sum of two `long` numbers; there is none when it overflows. -/
def longAdd (a b : Int) : Option Int :=
  if longMin ≤ a + b ∧ a + b ≤ longMax then some (a + b) else none

theorem longAdd_eq
    {a b : Int}
    (hlower : longMin ≤ a + b)
    (hupper : a + b ≤ longMax) :
    longAdd a b = some (a + b) :=
  if_pos ⟨hlower, hupper⟩

/-- `timespec_add` with the sums of `long` numbers that it makes. -/
def timespecAddLong (time₁ time₂ : Timespec) : Option Timespec := do
  let newNano ← longAdd time₁.nsec time₂.nsec
  let added ← longAdd time₂.sec (newNano.tdiv 1000000000)
  let sec ← longAdd time₁.sec added
  let nsec := newNano.tmod 1000000000
  if nsec < 0 ∧ 0 < sec then
    let sec ← longAdd sec (-1)
    let nsec ← longAdd 1000000000 nsec
    return ⟨sec, nsec⟩
  else if sec < 0 ∧ 0 < nsec then
    let sec ← longAdd sec 1
    let nsec ← longAdd nsec (-1000000000)
    return ⟨sec, nsec⟩
  else return ⟨sec, nsec⟩

/-- The return value of `timespec_add`. -/
def timespecAddReturn (time : Timespec) : Int := if timespecNonneg time then 1 else -1

/-- The seconds of a sum do not overflow. -/
structure SecondsFit (time₁ time₂ : Timespec) : Prop where
  added : longMin ≤ time₂.sec + (time₁.nsec + time₂.nsec).tdiv 1000000000 ∧
    time₂.sec + (time₁.nsec + time₂.nsec).tdiv 1000000000 ≤ longMax
  sum : longMin ≤ time₁.sec + (time₂.sec + (time₁.nsec + time₂.nsec).tdiv 1000000000) ∧
    time₁.sec + (time₂.sec + (time₁.nsec + time₂.nsec).tdiv 1000000000) ≤ longMax

end Long

section Sums

variable {time time₁ time₂ : Timespec}

/-- Milliseconds of either sign. -/
theorem signed_timespecFromMillis (millis : Int) : (timespecFromMillis millis).Signed := by
  have hdiv := Int.mul_tdiv_add_tmod millis 1000
  have hlt := Int.tmod_lt_of_pos millis (b := 1000) (by decide)
  have hgt := Int.lt_tmod_of_pos millis (b := 1000) (by decide)
  have hpos : 0 ≤ millis → 0 ≤ millis.tmod 1000 := Int.tmod_nonneg 1000
  have hneg : millis ≤ 0 → millis.tmod 1000 ≤ 0 := by
    intro h
    have hopposite := Int.tmod_nonneg 1000 (Int.neg_nonneg.mpr h)
    rw [Int.neg_tmod] at hopposite
    omega
  unfold timespecFromMillis
  refine ⟨?_, ?_, ?_, ?_⟩
  · dsimp only
    omega
  · dsimp only
    omega
  · dsimp only
    omega
  · dsimp only
    omega

theorem nanos_timespecFromMillis (millis : Int) :
    (timespecFromMillis millis).nanos = millis * 1000000 := by
  have hdiv := Int.mul_tdiv_add_tmod millis 1000
  unfold timespecFromMillis Timespec.nanos
  dsimp only
  omega

/-- Whole seconds are carried, and one more where the signs differ. -/
theorem nanos_timespecAdd (time₁ time₂ : Timespec) :
    (timespecAdd time₁ time₂).nanos = time₁.nanos + time₂.nanos := by
  have hdiv := Int.mul_tdiv_add_tmod (time₁.nsec + time₂.nsec) 1000000000
  unfold timespecAdd Timespec.nanos
  dsimp only
  split_ifs
  · dsimp only
    omega
  · dsimp only
    omega
  · dsimp only
    omega

theorem signed_timespecAdd (time₁ time₂ : Timespec) : (timespecAdd time₁ time₂).Signed := by
  have hlt := Int.tmod_lt_of_pos (time₁.nsec + time₂.nsec) (b := 1000000000) (by decide)
  have hgt := Int.lt_tmod_of_pos (time₁.nsec + time₂.nsec) (b := 1000000000) (by decide)
  unfold timespecAdd
  dsimp only
  split_ifs with hborrow hcarry
  · refine ⟨?_, ?_, ?_, ?_⟩ <;> dsimp only <;> omega
  · refine ⟨?_, ?_, ?_, ?_⟩ <;> dsimp only <;> omega
  · refine ⟨?_, ?_, ?_, ?_⟩ <;> dsimp only <;> omega

/-- The sign of a time is that of its parts. -/
theorem timespecNonneg_iff
    (h : time.Signed) :
    timespecNonneg time = true ↔ 0 ≤ time.nanos := by
  have hpos := h.sec_pos
  have hneg := h.sec_neg
  have hlower := h.lower
  have hupper := h.upper
  unfold timespecNonneg Timespec.nanos
  rw [decide_eq_true_iff]
  omega

/-- Only the seconds can overflow. -/
theorem timespecAddLong_eq
    (h₁ : time₁.Signed)
    (h₂ : time₂.Signed)
    (hfit : SecondsFit time₁ time₂) :
    timespecAddLong time₁ time₂ = some (timespecAdd time₁ time₂) := by
  have hmin : longMin = -9223372036854775808 := rfl
  have hmax : longMax = 9223372036854775807 := rfl
  have hlower₁ := h₁.lower
  have hupper₁ := h₁.upper
  have hlower₂ := h₂.lower
  have hupper₂ := h₂.upper
  have hlt := Int.tmod_lt_of_pos (time₁.nsec + time₂.nsec) (b := 1000000000) (by decide)
  have hgt := Int.lt_tmod_of_pos (time₁.nsec + time₂.nsec) (b := 1000000000) (by decide)
  unfold timespecAddLong timespecAdd
  simp only [Option.bind_eq_bind]
  rw [longAdd_eq (by omega) (by omega), Option.bind_some,
    longAdd_eq hfit.added.1 hfit.added.2, Option.bind_some,
    longAdd_eq hfit.sum.1 hfit.sum.2, Option.bind_some]
  have hsum := hfit.sum
  split_ifs with hborrow hcarry
  · rw [longAdd_eq (by omega) (by omega), longAdd_eq (by omega) (by omega)]
    rfl
  · rw [longAdd_eq (by omega) (by omega), longAdd_eq (by omega) (by omega)]
    rfl
  · rfl

/-- The sum of two times is exact, and its parts have one sign again. -/
theorem timespecAdd_exact
    (h₁ : time₁.Signed)
    (h₂ : time₂.Signed)
    (hfit : SecondsFit time₁ time₂) :
    ∃ time, timespecAddLong time₁ time₂ = some time ∧ time.nanos = time₁.nanos + time₂.nanos ∧
      time.Signed ∧ (timespecAddReturn time = 1 ↔ 0 ≤ time₁.nanos + time₂.nanos) := by
  refine ⟨timespecAdd time₁ time₂, timespecAddLong_eq h₁ h₂ hfit, nanos_timespecAdd time₁ time₂,
    signed_timespecAdd time₁ time₂, ?_⟩
  rw [← nanos_timespecAdd, ← timespecNonneg_iff (signed_timespecAdd time₁ time₂), timespecAddReturn]
  cases timespecNonneg (timespecAdd time₁ time₂) with
  | true => simp
  | false => simp

/-- A negative period with zero seconds takes a second away. -/
theorem timespecAdd_exact_negative :
    ∃ time, timespecAddLong ⟨1, 200000000⟩ ⟨0, -700000000⟩ = some time ∧
      time.nanos = 500000000 ∧ time.Signed ∧
      (timespecAddReturn time = 1 ↔ (0 : Int) ≤ 500000000) :=
  timespecAdd_exact (by decide) (by decide) ⟨by decide, by decide⟩

end Sums

end Obix
