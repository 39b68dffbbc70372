import Obix.Utils.Timestamp

/-!
# The order of timestamps and of dates

The comparison functions of `obix_utils.c` agree with the order of the UTC
times: `timestampCompare` with the order of the times themselves, and
`timestampCompareDate`, applied to the texts that `getUtcDate` prints, with the
order of the UTC days.
-/

namespace Obix

open CString
open Gregorian

section Bounds

/-- A number that `strptime` has read is in its range. -/
theorem getNumber_le
    {lo hi n v : Nat} {s r : Text}
    (h : getNumber lo hi n s = some (v, r)) :
    v ≤ hi := by
  unfold getNumber at h
  split at h
  · cases h
  · split at h
    · dsimp only at h
      split at h
      · rename_i hr
        have hv := Option.some.inj h
        rw [hv] at hr
        exact hr.2
      · cases h
    · cases h

theorem strptimeDate_le
    {s r : Text} {y m d : Nat}
    (h : strptimeDate s = some ((y, m, d), r)) :
    y ≤ 9999 ∧ m ≤ 12 ∧ d ≤ 31 := by
  simp only [strptimeDate, Option.bind_eq_bind, Option.bind_eq_some_iff,
    Option.pure_def, Option.some.injEq, Prod.mk.injEq] at h
  obtain ⟨⟨y', s₁⟩, hy, s₂, -, ⟨m', s₃⟩, hm, s₄, -, ⟨d', s₅⟩, hd, ⟨rfl, rfl, rfl⟩, rfl⟩ := h
  exact ⟨getNumber_le hy, getNumber_le hm, getNumber_le hd⟩

theorem strptimeTime_le
    {s r : Text} {hh mm ss : Nat}
    (h : strptimeTime s = some ((hh, mm, ss), r)) :
    hh ≤ 23 ∧ mm ≤ 59 ∧ ss ≤ 61 := by
  simp only [strptimeTime, Option.bind_eq_bind, Option.bind_eq_some_iff,
    Option.pure_def, Option.some.injEq, Prod.mk.injEq] at h
  obtain ⟨⟨h', s₁⟩, hh', s₂, -, ⟨m', s₃⟩, hm, s₄, -, ⟨x', s₅⟩, hx, ⟨rfl, rfl, rfl⟩, rfl⟩ := h
  exact ⟨getNumber_le hh', getNumber_le hm, getNumber_le hx⟩

/-- A time zone offset is at most twelve hours. -/
theorem neg_strptimeZone_le
    {s : Text} {off : Int}
    (h : strptimeZone s = some off) :
    -off ≤ 43200 := by
  unfold strptimeZone at h
  split at h
  · cases h
  · split at h
    · dsimp only at h
      split at h
      · cases h
      · split at h
        · cases h
        · split at h
          · cases h
            omega
          · cases h
            omega
    · cases h

theorem daysBeforeMonth_le (leap : Bool) (m : Nat) :
    daysBeforeMonth leap m ≤ 335 := by
  unfold daysBeforeMonth
  split <;> cases leap <;> simp

/-- All times that `strptime` can read are far below the range of `time_t`. -/
theorem timegm_strptime_lt (ts : Text) :
    timegm (strptime ts) < 2 ^ 40 := by
  unfold strptime
  split
  · decide
  · rename_i y m d s hdate
    obtain ⟨hy, -, hd⟩ := strptimeDate_le hdate
    have hm := daysBeforeMonth_le (isLeap y) (m - 1)
    have hyear : daysBeforeYear y ≤ 3700000 := by
      unfold daysBeforeYear
      omega
    split
    · simp only [timegm, dayOfCivil, tmZero]
      omega
    · rename_i hh mm ss s' htime
      obtain ⟨r, -, hr⟩ := Option.bind_eq_some_iff.mp htime
      obtain ⟨hhh, hmm, hss⟩ := strptimeTime_le hr
      have hzone : -((strptimeZone s').getD 0) ≤ 43200 := by
        cases hz : strptimeZone s' with
        | none => simp
        | some off => exact neg_strptimeZone_le hz
      simp only [timegm, dayOfCivil]
      omega

theorem timestampToUtcTime_lt (ts : Text) :
    timestampToUtcTime ts < 2 ^ 40 := by
  unfold timestampToUtcTime
  split
  · exact timegm_strptime_lt ts
  · decide

end Bounds

section Dates

/-- One component of a printed date, with what follows it. -/
theorem timeComponent_digits
    {ds rest : Text}
    (hne : ds ≠ [])
    (hds : ∀ c ∈ ds, c.isDigit = true)
    (hrest : ∀ c, rest.head? = some c → c.isDigit = false)
    (hmax : (Nat.ofDigitChars 10 ds 0 : Int) ≤ longMax) :
    timeComponent (ds ++ rest) = some ((Nat.ofDigitChars 10 ds 0 : Int), rest) := by
  simp [timeComponent, strtol_digits hne hds hrest hmax]

/-- A printed date is read back. -/
theorem timeToLong_showDate
    (d : Date)
    (hy : (d.year : Int) ≤ longMax)
    (hm : (d.month : Int) ≤ longMax)
    (hd : (d.mday : Int) ≤ longMax) :
    timeToLong (showDate d) '-' = some ((d.year : Int), (d.month : Int), (d.mday : Int)) := by
  have hdash : ∀ (r : Text) (c : Char), ('-' :: r).head? = some c → c.isDigit = false := by
    intro r c hc
    simp only [List.head?_cons, Option.some.injEq] at hc
    subst hc
    decide
  have hdigits : ∀ c ∈ Nat.toDigits 10 d.year, c.isDigit = true :=
    fun c hc => Nat.isDigit_of_mem_toDigits (by omega) (by omega) hc
  have hyear := timeComponent_digits Nat.toDigits_ne_nil hdigits
    (hdash (pad2 d.month ++ '-' :: pad2 d.mday))
    (by rw [Nat.ofDigitChars_ten_toDigits]; exact hy)
  have hmonth := timeComponent_digits (pad2_ne_nil d.month)
    (fun c hc => isDigit_of_mem_pad2 hc) (hdash (pad2 d.mday))
    (by rw [ofDigitChars_pad2]; exact hm)
  have hmday := timeComponent_digits (pad2_ne_nil d.mday)
    (fun c hc => isDigit_of_mem_pad2 hc)
    (show ∀ c, ([] : Text).head? = some c → c.isDigit = false by simp)
    (by rw [ofDigitChars_pad2]; exact hd)
  rw [Nat.ofDigitChars_ten_toDigits] at hyear
  rw [ofDigitChars_pad2] at hmonth hmday
  rw [List.append_nil] at hmday
  simp [timeToLong, showDate, hyear, hmonth, hmday, matchChar]

theorem civilOfDay_bounds (n : Nat) (hn : n < 2 ^ 60) :
    ((civilOfDay n).year : Int) ≤ longMax ∧
      ((civilOfDay n).month : Int) ≤ longMax ∧
      ((civilOfDay n).mday : Int) ≤ longMax := by
  have hy : yearOfDay n ≤ n / 365 := Nat.findGreatest_le _
  have hm : monthOfDay (isLeap (yearOfDay n)) (n - daysBeforeYear (yearOfDay n)) ≤ 11 :=
    Nat.findGreatest_le _
  have hlong : longMax = 2 ^ 63 - 1 := rfl
  simp only [civilOfDay, hlong]
  refine ⟨?_, ?_, ?_⟩ <;> omega

/-- **Dates are compared as their days are.** -/
theorem timestampCompareDate_showDate
    {i j : Nat}
    (hi : i < 2 ^ 60)
    (hj : j < 2 ^ 60) :
    timestampCompareDate (showDate (civilOfDay i)) (showDate (civilOfDay j)) =
      some (compare i j) := by
  obtain ⟨hyi, hmi, hdi⟩ := civilOfDay_bounds i hi
  obtain ⟨hyj, hmj, hdj⟩ := civilOfDay_bounds j hj
  unfold timestampCompareDate
  rw [timeToLong_showDate _ hyi hmi hdi, timeToLong_showDate _ hyj hmj hdj]
  rcases Nat.lt_trichotomy i j with h | rfl | h
  · have hlt := civilOfDay_lt h
    unfold Date.lt at hlt
    rw [Nat.compare_eq_lt.mpr h]
    refine if_pos ?_
    omega
  · have heq : compare i i = .eq := Nat.compare_eq_eq.mpr rfl
    rw [heq]
    simp
  · have hlt := civilOfDay_lt h
    unfold Date.lt at hlt
    rw [Nat.compare_eq_gt.mpr h]
    dsimp only
    rw [if_neg (by omega), if_neg (by omega)]

end Dates

section Times

variable {t t₁ t₂ : Int}

theorem epochDay_add_utcDay_lt (ht : t < 2 ^ 40) :
    epochDay + utcDay t < 2 ^ 60 := by
  have he : epochDay = 719528 := by decide
  unfold utcDay
  omega

theorem getUtcDate_of_nonneg (ht : 0 ≤ t) :
    getUtcDate t = some (showDate (civilOfDay (epochDay + utcDay t))) := by
  unfold getUtcDate
  rw [if_neg (by omega)]

/-- Dates of two times are compared as the UTC days are. -/
theorem timestampCompareDate_utcDate
    (hb₁ : t₁ < 2 ^ 40)
    (hb₂ : t₂ < 2 ^ 40) :
    timestampCompareDate
        (showDate (civilOfDay (epochDay + utcDay t₁)))
        (showDate (civilOfDay (epochDay + utcDay t₂))) =
      some (compare (utcDay t₁) (utcDay t₂)) := by
  rw [timestampCompareDate_showDate (epochDay_add_utcDay_lt hb₁) (epochDay_add_utcDay_lt hb₂)]
  congr 1
  rcases Nat.lt_trichotomy (utcDay t₁) (utcDay t₂) with h | h | h
  · rw [Nat.compare_eq_lt.mpr h, Nat.compare_eq_lt.mpr (by omega)]
  · rw [h]
    rw [Nat.compare_eq_eq.mpr rfl, Nat.compare_eq_eq.mpr rfl]
  · rw [Nat.compare_eq_gt.mpr h, Nat.compare_eq_gt.mpr (by omega)]

/-- The texts of the dates differ exactly when the days do. -/
theorem showDate_utcDay_inj
    (hb₁ : t₁ < 2 ^ 40)
    (hb₂ : t₂ < 2 ^ 40) :
    showDate (civilOfDay (epochDay + utcDay t₁)) =
        showDate (civilOfDay (epochDay + utcDay t₂)) ↔
      utcDay t₁ = utcDay t₂ := by
  constructor
  · intro h
    have h1 := timestampCompareDate_utcDate hb₁ hb₂
    have h2 := timestampCompareDate_utcDate hb₂ hb₂
    rw [h, h2] at h1
    have heq : compare (utcDay t₂) (utcDay t₂) = .eq := Nat.compare_eq_eq.mpr rfl
    rw [heq] at h1
    exact Nat.compare_eq_eq.mp (Option.some.inj h1).symm
  · intro h
    rw [h]

theorem utcDay_mono (h : t₁ ≤ t₂) : utcDay t₁ ≤ utcDay t₂ := by
  unfold utcDay
  have := Int.ediv_le_ediv (by omega : (0 : Int) < 86400) h
  omega

end Times

section Compare

variable {ts₁ ts₂ : Text}

/-- Whether a later timestamp begins a new fragment: it follows the Epoch or
is on another UTC day. -/
def NewDay (t₁ t₂ : Int) : Prop := t₂ = 0 ∨ utcDay t₁ ≠ utcDay t₂

instance (t₁ t₂ : Int) : Decidable (NewDay t₁ t₂) :=
  inferInstanceAs (Decidable (_ ∨ _))

/-- `timestampCompare` is the comparison of the UTC times. -/
theorem timestampCompare_eq
    (h₁ : 0 ≤ timestampToUtcTime ts₁)
    (h₂ : 0 ≤ timestampToUtcTime ts₂) :
    timestampCompare ts₁ ts₂ =
      some (compare (timestampToUtcTime ts₁) (timestampToUtcTime ts₂),
        decide (timestampToUtcTime ts₂ < timestampToUtcTime ts₁ ∧
          NewDay (timestampToUtcTime ts₁) (timestampToUtcTime ts₂))) := by
  have hb₁ := timestampToUtcTime_lt ts₁
  have hb₂ := timestampToUtcTime_lt ts₂
  unfold timestampCompare
  generalize timestampToUtcTime ts₁ = t₁ at *
  generalize timestampToUtcTime ts₂ = t₂ at *
  rw [if_neg (by omega)]
  rcases Int.lt_trichotomy t₁ t₂ with h | h | h
  · have hc : compare t₁ t₂ = .lt := compare_lt_iff_lt.mpr h
    rw [if_pos h, hc]
    simp
    omega
  · subst h
    have hc : compare t₁ t₁ = .eq := compare_eq_iff_eq.mpr rfl
    rw [if_neg (by omega), if_pos rfl, hc]
    simp
  · have hc : compare t₁ t₂ = .gt := compare_gt_iff_gt.mpr h
    rw [if_neg (by omega), if_neg (by omega), hc]
    by_cases h0 : t₂ = 0
    · simp [h0, NewDay]
      omega
    · rw [if_neg h0, getUtcDate_of_nonneg h₁, getUtcDate_of_nonneg h₂]
      have hinj := showDate_utcDay_inj hb₁ hb₂
      simp [NewDay, h, h0, hinj]

/-- A time whose year has four digits is far below the range of `time_t`. -/
theorem lt_of_year_le
    {t : Int}
    (h : (civilOfDay (epochDay + utcDay t)).year ≤ 9999) :
    t < 2 ^ 40 := by
  have hday : ¬ daysBeforeYear 10000 ≤ epochDay + utcDay t := by
    intro hle
    have hyear : 10000 ≤ (civilOfDay (epochDay + utcDay t)).year := le_yearOfDay hle
    omega
  have hbegin : daysBeforeYear 10000 = 3652425 := by decide
  unfold utcDay at hday
  omega

/-- The order of the dates is that of the UTC days, and the order of the timestamps is that of
the UTC times. -/
theorem dates_ordered_as_times :
    (∀ t₁ t₂ : Int, 0 ≤ t₁ → 0 ≤ t₂ →
      (civilOfDay (epochDay + utcDay t₁)).year ≤ 9999 →
      (civilOfDay (epochDay + utcDay t₂)).year ≤ 9999 →
      ∃ date₁ date₂, getUtcDate t₁ = some date₁ ∧ getUtcDate t₂ = some date₂ ∧
        timestampCompareDate date₁ date₂ = some (compare (utcDay t₁) (utcDay t₂))) ∧
    ∀ ts₁ ts₂ : Text, 0 ≤ timestampToUtcTime ts₁ → 0 ≤ timestampToUtcTime ts₂ →
      timestampCompare ts₁ ts₂ =
        some (compare (timestampToUtcTime ts₁) (timestampToUtcTime ts₂),
          decide (timestampToUtcTime ts₂ < timestampToUtcTime ts₁ ∧
            (timestampToUtcTime ts₂ = 0 ∨
              utcDay (timestampToUtcTime ts₁) ≠ utcDay (timestampToUtcTime ts₂)))) := by
  refine ⟨fun t₁ t₂ h₁ h₂ hy₁ hy₂ => ?_, fun ts₁ ts₂ h₁ h₂ => timestampCompare_eq h₁ h₂⟩
  exact ⟨_, _, getUtcDate_of_nonneg h₁, getUtcDate_of_nonneg h₂,
    timestampCompareDate_utcDate (lt_of_year_le hy₁) (lt_of_year_le hy₂)⟩

/-- The last second of a leap day and the first one of the next day. -/
theorem dates_ordered_as_times_leap :
    ∃ date₁ date₂, getUtcDate 951868799 = some date₁ ∧ getUtcDate 951868800 = some date₂ ∧
      timestampCompareDate date₁ date₂ = some (compare (utcDay 951868799) (utcDay 951868800)) :=
  dates_ordered_as_times.1 951868799 951868800 (by decide) (by decide) (by decide +kernel)
    (by decide +kernel)

/-- A timestamp before the Epoch, or one that is not valid, cannot be compared. -/
theorem timestampCompare_eq_none
    (h : timestampToUtcTime ts₁ < 0 ∨ timestampToUtcTime ts₂ < 0) :
    timestampCompare ts₁ ts₂ = none := by
  simp only [timestampCompare]
  rw [if_pos h]

/-- The initial timestamp is the Epoch. -/
theorem timestampToUtcTime_histTsInit : timestampToUtcTime histTsInit = 0 := by
  decide +kernel

theorem nonneg_of_timestampCompare
    {res : Ordering × Bool}
    (h : timestampCompare ts₁ ts₂ = some res) :
    0 ≤ timestampToUtcTime ts₁ ∧ 0 ≤ timestampToUtcTime ts₂ := by
  by_contra hneg
  rw [timestampCompare_eq_none (by omega)] at h
  cases h

end Compare

section Ranges

variable {start fin oldest latest : Text}

/-- Two ranges of valid timestamps are compared by their UTC times. -/
theorem timestampHasCommon_eq
    (hstart : 0 ≤ timestampToUtcTime start)
    (hfin : 0 ≤ timestampToUtcTime fin)
    (holdest : 0 ≤ timestampToUtcTime oldest)
    (hlatest : 0 ≤ timestampToUtcTime latest) :
    timestampHasCommon start fin oldest latest =
      if timestampToUtcTime latest < timestampToUtcTime start then .startAfter
      else if timestampToUtcTime fin < timestampToUtcTime oldest then .endBefore
      else .common := by
  unfold timestampHasCommon
  rw [timestampCompare_eq hstart hlatest, timestampCompare_eq hfin holdest]
  rcases Int.lt_trichotomy (timestampToUtcTime start) (timestampToUtcTime latest) with h | h | h
  · rw [Int.compare_eq_lt.mpr h, if_neg (by omega)]
    rcases Int.lt_trichotomy (timestampToUtcTime fin) (timestampToUtcTime oldest) with g | g | g
    · rw [Int.compare_eq_lt.mpr g, if_pos g]
    · rw [Int.compare_eq_eq.mpr g, if_neg (by omega)]
    · rw [Int.compare_eq_gt.mpr g, if_neg (by omega)]
  · rw [Int.compare_eq_eq.mpr h, if_neg (by omega)]
    rcases Int.lt_trichotomy (timestampToUtcTime fin) (timestampToUtcTime oldest) with g | g | g
    · rw [Int.compare_eq_lt.mpr g, if_pos g]
    · rw [Int.compare_eq_eq.mpr g, if_neg (by omega)]
    · rw [Int.compare_eq_gt.mpr g, if_neg (by omega)]
  · rw [Int.compare_eq_gt.mpr h, if_pos h]

/-- A range is only found to be after another one if it is. -/
theorem lt_of_hasCommon_startAfter
    (h : timestampHasCommon start fin oldest latest = .startAfter) :
    timestampToUtcTime latest < timestampToUtcTime start := by
  unfold timestampHasCommon at h
  cases hc : timestampCompare start latest with
  | none => simp [hc] at h
  | some res =>
      obtain ⟨hs, hl⟩ := nonneg_of_timestampCompare hc
      rw [timestampCompare_eq hs hl] at h
      rcases Int.lt_trichotomy (timestampToUtcTime start) (timestampToUtcTime latest) with g | g | g
      · rw [Int.compare_eq_lt.mpr g] at h
        dsimp only at h
        split at h <;> cases h
      · rw [Int.compare_eq_eq.mpr g] at h
        dsimp only at h
        split at h <;> cases h
      · exact g

theorem nonneg_of_hasCommon_common
    (h : timestampHasCommon start fin oldest latest = .common) :
    0 ≤ timestampToUtcTime start ∧ 0 ≤ timestampToUtcTime fin ∧
      0 ≤ timestampToUtcTime oldest ∧ 0 ≤ timestampToUtcTime latest := by
  unfold timestampHasCommon at h
  cases hc : timestampCompare start latest with
  | none => simp [hc] at h
  | some res =>
      cases hd : timestampCompare fin oldest with
      | none =>
          rw [hc, hd] at h
          dsimp only at h
          split at h <;> cases h
      | some res' =>
          obtain ⟨hs, hl⟩ := nonneg_of_timestampCompare hc
          obtain ⟨hf, ho⟩ := nonneg_of_timestampCompare hd
          exact ⟨hs, hf, ho, hl⟩

/-- A range is only found to be before another one if it is. -/
theorem lt_of_hasCommon_endBefore
    (h : timestampHasCommon start fin oldest latest = .endBefore) :
    timestampToUtcTime fin < timestampToUtcTime oldest := by
  unfold timestampHasCommon at h
  cases hd : timestampCompare fin oldest with
  | none =>
      rw [hd] at h
      dsimp only at h
      split at h <;> cases h
  | some res =>
      obtain ⟨hf, ho⟩ := nonneg_of_timestampCompare hd
      rw [timestampCompare_eq hf ho] at h
      by_contra hge
      rcases lt_or_eq_of_le (not_lt.mp hge) with g | g
      · rw [Int.compare_eq_gt.mpr g] at h
        dsimp only at h
        split at h <;> cases h
      · rw [Int.compare_eq_eq.mpr g.symm] at h
        dsimp only at h
        split at h <;> cases h

/-- The common part of two ranges of valid timestamps. -/
theorem timestampFindCommon_eq
    (hstart : 0 ≤ timestampToUtcTime start)
    (hfin : 0 ≤ timestampToUtcTime fin)
    (holdest : 0 ≤ timestampToUtcTime oldest)
    (hlatest : 0 ≤ timestampToUtcTime latest) :
    timestampFindCommon start fin oldest latest =
      some (if timestampToUtcTime start < timestampToUtcTime oldest then oldest else start,
        if timestampToUtcTime latest < timestampToUtcTime fin then latest else fin) := by
  unfold timestampFindCommon
  rw [timestampCompare_eq hstart holdest, timestampCompare_eq hfin hlatest]
  simp only [Int.compare_eq_lt, Int.compare_eq_gt]

end Ranges

end Obix
