import Obix.Utils.TimestampFormat
import Obix.Utils.TimestampOrder

/-!
# Reading a printed timestamp

`get_utc_timestamp` prints a time, and `timestamp_to_utc_time` reads it back, up to the end of the
year 9999.  From the year 10000 on the year takes five digits: the text no longer fits into the
buffer, and `strptime` stops within the year (`getUtcTimestamp_exact_iff`).
-/

namespace Obix

open CString Gregorian

section Model

/-- `HIST_REC_TS_MAX_LEN`. -/
def histRecTsMaxLen : Nat := 20

/-- `gmtime_r`, which fails when the year does not fit into an `int`. -/
def gmtimeR (t : Int) : Option Tm :=
  let date := civilOfDay (epochDay + utcDay t)
  let clock := (t % 86400).toNat
  if date.year ≤ 1900 + 2147483647 then
    some { year := date.year, mon := date.month - 1, mday := date.mday
           hour := clock / 3600, min := clock % 3600 / 60, sec := clock % 60, gmtoff := 0 }
  else none

/-- `%4d` of `tm_year + 1900`, a sum that wraps around. -/
def showYear (year : Nat) : Text :=
  showInt (if year ≤ 2147483647 then year else year - 2 ^ 32)

/-- `get_utc_timestamp`. -/
def getUtcTimestamp (t : Int) : Option Text :=
  if t < 0 then none
  else if t = 0 then some histTsInit
  else
    (gmtimeR t).map fun tm =>
      showYear tm.year ++ '-' :: (pad2 (tm.mon + 1) ++ '-' :: (pad2 tm.mday ++ 'T' ::
        (pad2 tm.hour ++ ':' :: (pad2 tm.min ++ ':' :: (pad2 tm.sec ++ ['Z'])))))

end Model

section Fields

variable {lo hi n v : Nat} {ds rest : Text}

/-- A field is read to its width as long as its value is in range. -/
theorem readDigits_digits
    (hds : ∀ c ∈ ds, c.isDigit = true)
    (hhi : Nat.ofDigitChars 10 ds v ≤ hi) :
    readDigits hi ds.length v (ds ++ rest) = (Nat.ofDigitChars 10 ds v, rest) := by
  induction ds generalizing v with
  | nil => rfl
  | cons c ds ih =>
      have hval : 10 * v + (c.toNat - '0'.toNat) = v * 10 + (c.toNat - 48) := by
        rw [Nat.mul_comm]
        rfl
      rw [Nat.ofDigitChars_cons, hval] at hhi ⊢
      have hle := le_ofDigitChars ds (v * 10 + (c.toNat - 48))
      have hgo : (c.isDigit && v * 10 ≤ hi) = true := by
        rw [hds c List.mem_cons_self, Bool.true_and]
        exact decide_eq_true (by omega)
      rw [List.length_cons, List.cons_append, readDigits, hgo, if_pos rfl]
      exact ih (fun d hd => hds d (List.mem_cons_of_mem _ hd)) hhi

/-- A field of its full width. -/
theorem getNumber_digits
    (lo hi : Nat)
    (rest : Text)
    (hds : ∀ c ∈ ds, c.isDigit = true)
    (hlen : ds.length = n + 1)
    (hlo : lo ≤ Nat.ofDigitChars 10 ds 0)
    (hhi : Nat.ofDigitChars 10 ds 0 ≤ hi) :
    getNumber lo hi (n + 1) (ds ++ rest) = some (Nat.ofDigitChars 10 ds 0, rest) := by
  cases ds with
  | nil => cases hlen
  | cons c ds =>
      have hc := hds c List.mem_cons_self
      have hblank : c ≠ ' ' := by
        rintro rfl
        exact absurd hc (by decide)
      have hval : Nat.ofDigitChars 10 (c :: ds) 0 = Nat.ofDigitChars 10 ds (c.toNat - 48) := by
        rw [Nat.ofDigitChars_cons]
        simp
      have hread : readDigits hi n (c.toNat - 48) (ds ++ rest) =
          (Nat.ofDigitChars 10 (c :: ds) 0, rest) := by
        obtain rfl : ds.length = n := Nat.succ.inj hlen
        rw [hval] at hhi ⊢
        exact readDigits_digits (fun d hd => hds d (List.mem_cons_of_mem _ hd)) hhi
      rw [getNumber, List.cons_append, List.dropWhile_cons, if_neg (by simpa using hblank)]
      dsimp only
      rw [if_pos hc, Nat.add_sub_cancel, hread]
      exact if_pos ⟨hlo, hhi⟩

/-- `%.2d` of a number with at most two digits. -/
theorem length_pad2
    (h : n < 100) :
    (pad2 n).length = 2 := by
  unfold pad2
  split
  · rw [Nat.toDigits_of_lt_base (by omega)]
    rfl
  · rw [Nat.toDigits_of_base_le (by omega) (by omega), Nat.toDigits_of_lt_base (by omega)]
    rfl

theorem getNumber_pad2
    (hlo : lo ≤ n)
    (hhi : n ≤ hi)
    (hmax : n < 100) :
    getNumber lo hi 2 (pad2 n ++ rest) = some (n, rest) := by
  have h := getNumber_digits lo hi rest (fun c hc => isDigit_of_mem_pad2 hc) (length_pad2 hmax)
  rw [ofDigitChars_pad2] at h
  exact h hlo hhi

theorem isDigit_toDigits (n : Nat) :
    ∀ c ∈ Nat.toDigits 10 n, c.isDigit = true :=
  fun _ hc => Nat.isDigit_of_mem_toDigits (by omega) (by omega) hc

/-- A year of four digits. -/
theorem getNumber_year
    (hlo : 1000 ≤ n)
    (hhi : n ≤ 9999) :
    getNumber 0 9999 4 (Nat.toDigits 10 n ++ rest) = some (n, rest) := by
  have hle : (Nat.toDigits 10 n).length ≤ 4 :=
    (Nat.length_toDigits_le_iff (by omega) (by omega)).mpr (by omega)
  have hgt : ¬ (Nat.toDigits 10 n).length ≤ 3 := fun h => by
    have := (Nat.length_toDigits_le_iff (by omega) (by omega)).mp h
    omega
  have h := getNumber_digits 0 9999 rest (isDigit_toDigits n)
    (show (Nat.toDigits 10 n).length = 3 + 1 by omega)
  rw [Nat.ofDigitChars_ten_toDigits] at h
  exact h (by omega) hhi

/-- A year of more digits, or below zero, is not read. -/
theorem strptimeDate_showYear
    (rest : Text)
    (hlong : 10000 ≤ n)
    (hmax : n ≤ 1900 + 2147483647) :
    5 ≤ (showYear n).length ∧ strptimeDate (showYear n ++ rest) = none := by
  unfold showYear
  split
  · have hgt : ¬ (Nat.toDigits 10 n).length ≤ 4 := fun h => by
      have := (Nat.length_toDigits_le_iff (by omega) (by omega)).mp h
      omega
    have hshow : showInt (n : Int) = Nat.toDigits 10 n := by
      rw [showInt, if_neg (by omega), Int.natAbs_natCast]
    rw [hshow]
    refine ⟨by omega, ?_⟩
    have hds := isDigit_toDigits n
    have hlen : ((Nat.toDigits 10 n).take 4).length = 3 + 1 := by
      rw [List.length_take]
      omega
    have htake : ∀ c ∈ (Nat.toDigits 10 n).take 4, c.isDigit = true :=
      fun c hc => hds c (List.mem_of_mem_take hc)
    have hlt := ofDigitChars_lt htake 0
    rw [hlen] at hlt
    obtain ⟨e, more, hmore⟩ : ∃ e more, (Nat.toDigits 10 n).drop 4 = e :: more :=
      List.exists_cons_of_ne_nil (by simpa using hgt)
    have he : e ≠ '-' := by
      rintro rfl
      have hdigit := hds '-' (List.mem_of_mem_drop (hmore ▸ List.mem_cons_self))
      exact absurd hdigit (by decide)
    have hyear := getNumber_digits 0 9999 (e :: more ++ rest) htake hlen (Nat.zero_le _)
      (by omega)
    rw [← List.append_assoc, ← hmore, List.take_append_drop, hmore, List.cons_append] at hyear
    simp only [strptimeDate, hyear, Option.bind_eq_bind, Option.bind_some, matchChar,
      if_neg (Ne.symm he), Option.bind_none]
  · rename_i hwrap
    have hwrap : ¬ n ≤ 2147483647 := by exact_mod_cast hwrap
    have hgt : ¬ (Nat.toDigits 10 (2 ^ 32 - n)).length ≤ 4 := fun h => by
      have := (Nat.length_toDigits_le_iff (by omega) (by omega)).mp h
      omega
    have habs : ((n : Int) - 2 ^ 32).natAbs = 2 ^ 32 - n := by omega
    have hshow : showInt ((n : Int) - 2 ^ 32) = '-' :: Nat.toDigits 10 (2 ^ 32 - n) := by
      rw [showInt, if_pos (by omega), habs]
    rw [hshow]
    refine ⟨by rw [List.length_cons]; omega, ?_⟩
    have hsign : ∀ s : Text, getNumber 0 9999 4 ('-' :: s) = none := fun s => rfl
    simp only [strptimeDate, List.cons_append, hsign, Option.bind_eq_bind, Option.bind_none]

end Fields

section RoundTrip

variable {t : Int} {ts : Text}

/-- The text of a time, once it has been broken down. -/
def timestampText (year mon mday hour min sec : Nat) : Text :=
  showYear year ++ '-' :: (pad2 mon ++ '-' :: (pad2 mday ++ 'T' ::
    (pad2 hour ++ ':' :: (pad2 min ++ ':' :: (pad2 sec ++ ['Z'])))))

/-- A broken-down time is read from its text. -/
theorem strptime_timestampText
    {year mon mday hour min sec : Nat}
    (hyear : 1000 ≤ year ∧ year ≤ 9999)
    (hmon : 1 ≤ mon ∧ mon ≤ 12)
    (hmday : 1 ≤ mday ∧ mday ≤ 31)
    (hclock : hour < 24 ∧ min < 60 ∧ sec < 60) :
    strptime (timestampText year mon mday hour min sec) =
      { year := year, mon := mon - 1, mday := mday, hour := hour, min := min, sec := sec,
        gmtoff := 0 } := by
  have hshow : showYear year = Nat.toDigits 10 year := by
    rw [showYear, if_pos (by omega), showInt, if_neg (by omega), Int.natAbs_natCast]
  have hdelim : ∀ (c : Char) (s : Text), matchChar c (c :: s) = some s := fun c s => if_pos rfl
  have hdate : strptimeDate (timestampText year mon mday hour min sec) =
      some ((year, mon, mday),
        'T' :: (pad2 hour ++ ':' :: (pad2 min ++ ':' :: (pad2 sec ++ ['Z'])))) := by
    simp only [strptimeDate, timestampText, hshow, getNumber_year hyear.1 hyear.2, hdelim,
      getNumber_pad2 hmon.1 hmon.2 (by omega), getNumber_pad2 hmday.1 hmday.2 (by omega),
      Option.bind_eq_bind, Option.bind_some]
    rfl
  have htime : strptimeTime (pad2 hour ++ ':' :: (pad2 min ++ ':' :: (pad2 sec ++ ['Z']))) =
      some ((hour, min, sec), ['Z']) := by
    simp only [strptimeTime, hdelim,
      getNumber_pad2 (Nat.zero_le hour) (show hour ≤ 23 by omega) (by omega),
      getNumber_pad2 (Nat.zero_le min) (show min ≤ 59 by omega) (by omega),
      getNumber_pad2 (Nat.zero_le sec) (show sec ≤ 61 by omega) (by omega), Option.bind_eq_bind,
      Option.bind_some]
    rfl
  have hzone : strptimeZone ['Z'] = none := rfl
  simp only [strptime, hdate, hdelim, Option.bind_some, htime, hzone, Option.getD_none]

/-- The text of a time is a valid timestamp. -/
theorem timestampIsValid_timestampText
    {year mon mday hour min sec : Nat}
    (hyear : year ≤ 9999)
    (hmon : mon ≤ 12)
    (hmday : mday ≤ 31)
    (hclock : hour < 24 ∧ min < 60 ∧ sec < 60) :
    timestampIsValid (timestampText year mon mday hour min sec) = true := by
  have hshow : showYear year = Nat.toDigits 10 year := by
    rw [showYear, if_pos (by omega), showInt, if_neg (by omega), Int.natAbs_natCast]
  have hlong : longMax = 2 ^ 63 - 1 := rfl
  have hplain : ∀ {n : Nat} {c : Char}, c ∈ pad2 n → c ≠ 'T' ∧ c ≠ 'Z' := by
    intro n c hc
    have hdigit := isDigit_of_mem_pad2 hc
    constructor <;> rintro rfl <;> exact absurd hdigit (by decide)
  have hdate : 'T' ∉ showDate ⟨year, mon, mday⟩ := by
    simp only [showDate, List.mem_append, List.mem_cons, not_or]
    refine ⟨fun hc => ?_, by decide, fun hc => (hplain hc).1 rfl, by decide,
      fun hc => (hplain hc).1 rfl⟩
    exact absurd (isDigit_toDigits year 'T' hc) (by decide)
  have hz : 'Z' ∉ pad2 hour ++ ':' :: (pad2 min ++ ':' :: pad2 sec) := by
    simp only [List.mem_append, List.mem_cons, not_or]
    exact ⟨fun hc => (hplain hc).2 rfl, by decide, fun hc => (hplain hc).2 rfl, by decide,
      fun hc => (hplain hc).2 rfl⟩
  have hsplit := timestampSplit_append hdate (@CutAt.utc _ [] hz)
  have htext : timestampText year mon mday hour min sec = showDate ⟨year, mon, mday⟩ ++
      'T' :: ((pad2 hour ++ ':' :: (pad2 min ++ ':' :: pad2 sec)) ++ ['Z']) := by
    simp [timestampText, showDate, hshow]
  have htime : (timeToLong (pad2 hour ++ ':' :: (pad2 min ++ ':' :: pad2 sec)) ':').isSome =
      true := by
    have hcolon : ∀ (r : Text) (c : Char), (':' :: r).head? = some c → c.isDigit = false := by
      intro r c hc
      simp only [List.head?_cons, Option.some.injEq] at hc
      subst hc
      decide
    have hfield : ∀ (n : Nat) (r : Text), n < 60 →
        (∀ c, r.head? = some c → c.isDigit = false) →
        timeComponent (pad2 n ++ r) = some ((n : Int), r) := by
      intro n r hn hr
      have h := timeComponent_digits (pad2_ne_nil n) (fun c hc => isDigit_of_mem_pad2 hc) hr
        (by rw [ofDigitChars_pad2]; omega)
      rwa [ofDigitChars_pad2] at h
    have hsec := hfield sec [] hclock.2.2 (by simp)
    rw [List.append_nil] at hsec
    simp [timeToLong, hfield hour _ (by omega) (hcolon _), hfield min _ hclock.2.1 (hcolon _),
      hsec, matchChar]
  rw [timestampIsValid, htext, hsplit]
  simp only [timeToLong_showDate ⟨year, mon, mday⟩ (by simp only [hlong]; omega)
    (by simp only [hlong]; omega) (by simp only [hlong]; omega), Option.isNone_some,
    Bool.false_or]
  rw [if_neg (by simpa using Option.isSome_iff_ne_none.mp htime)]
  rfl

/-- The parts of a time. -/
theorem getUtcTimestamp_eq
    (hts : getUtcTimestamp t = some ts) :
    0 ≤ t ∧ (civilOfDay (epochDay + utcDay t)).year ≤ 1900 + 2147483647 ∧
      ts = timestampText (civilOfDay (epochDay + utcDay t)).year
        (civilOfDay (epochDay + utcDay t)).month (civilOfDay (epochDay + utcDay t)).mday
        ((t % 86400).toNat / 3600) ((t % 86400).toNat % 3600 / 60) ((t % 86400).toNat % 60) := by
  unfold getUtcTimestamp at hts
  split at hts
  · cases hts
  · split at hts
    · rename_i hzero
      subst hzero
      obtain rfl := Option.some.inj hts
      exact ⟨le_refl _, by decide +kernel, by decide +kernel⟩
    · obtain ⟨tm, htm, rfl⟩ := Option.map_eq_some_iff.mp hts
      unfold gmtimeR at htm
      dsimp only at htm
      split at htm
      · rename_i hyear
        obtain rfl := Option.some.inj htm
        have hmonth := (civilOfDay_range (epochDay + utcDay t)).1
        refine ⟨by omega, hyear, ?_⟩
        rw [timestampText, Nat.sub_add_cancel hmonth]
      · cases htm

/-- What `get_utc_timestamp` prints fits into its buffer, and is the time that it was printed for,
exactly up to the end of the year 9999. -/
theorem getUtcTimestamp_exact_iff
    (t : Int)
    (ts : Text)
    (hts : getUtcTimestamp t = some ts) :
    (ts.length ≤ histRecTsMaxLen ↔ t < 253402300800) ∧
      (timestampIsValid ts = true ∧ timestampToUtcTime ts = t ↔ t < 253402300800) := by
  obtain ⟨hpos, hmax, rfl⟩ := getUtcTimestamp_eq hts
  obtain ⟨hmon, hmon', hmday, hmday'⟩ := civilOfDay_range (epochDay + utcDay t)
  have hepoch : epochDay = 719528 := by decide
  have hday : (utcDay t : Int) = t / 86400 := Int.toNat_of_nonneg (by omega)
  have hclock : ((t % 86400).toNat : Int) = t % 86400 := Int.toNat_of_nonneg (by omega)
  have hend : (civilOfDay (epochDay + utcDay t)).year < 10000 ↔ t < 253402300800 := by
    have hiff := yearOfDay_lt_iff (n := epochDay + utcDay t) (y := 10000)
    have hlast : daysBeforeYear 10000 = 3652425 := by decide
    rw [hlast, hepoch] at hiff
    rw [hepoch]
    exact hiff.trans (by omega)
  have hstart : 1970 ≤ (civilOfDay (epochDay + utcDay t)).year :=
    le_yearOfDay (Nat.le_add_right epochDay _)
  have hback := dayOfCivil_civilOfDay (epochDay + utcDay t)
  generalize civilOfDay (epochDay + utcDay t) = date at *
  generalize (t % 86400).toNat = clock at *
  have hhour : clock / 3600 < 24 ∧ clock % 3600 / 60 < 60 ∧ clock % 60 < 60 := by omega
  have hlen : (timestampText date.year date.month date.mday (clock / 3600)
      (clock % 3600 / 60) (clock % 60)).length = (showYear date.year).length + 16 := by
    simp [timestampText, length_pad2 (show date.month < 100 by omega),
      length_pad2 (show date.mday < 100 by omega), length_pad2 (show clock / 3600 < 100 by omega),
      length_pad2 (show clock % 3600 / 60 < 100 by omega),
      length_pad2 (show clock % 60 < 100 by omega)]
  rw [hlen, histRecTsMaxLen, ← hend]
  by_cases hyear : date.year < 10000
  · have hshow : (showYear date.year).length ≤ 4 := by
      rw [showYear, if_pos (by omega), showInt, if_neg (by omega), Int.natAbs_natCast]
      exact (Nat.length_toDigits_le_iff (by omega) (by omega)).mpr (by omega)
    have hvalid := timestampIsValid_timestampText (Nat.le_of_lt_succ hyear) hmon' hmday' hhour
    have hread := strptime_timestampText ⟨by omega, Nat.le_of_lt_succ hyear⟩ ⟨hmon, hmon'⟩
      ⟨hmday, hmday'⟩ hhour
    refine ⟨iff_of_true (by omega) hyear, iff_of_true ⟨hvalid, ?_⟩ hyear⟩
    rw [timestampToUtcTime, if_pos hvalid, hread, timegm]
    dsimp only
    rw [hback]
    push_cast
    omega
  · obtain ⟨hlong, -⟩ := strptimeDate_showYear [] (Nat.le_of_not_lt hyear) hmax
    refine ⟨iff_of_false (by omega) hyear, iff_of_false ?_ hyear⟩
    rintro ⟨hvalid, hread⟩
    rw [timestampToUtcTime, if_pos hvalid, strptime, timestampText,
      (strptimeDate_showYear _ (Nat.le_of_not_lt hyear) hmax).2] at hread
    have hzero : timegm tmZero < 0 := by decide
    dsimp only at hread
    omega

/-- The last second of the leap day of the year 2000. -/
theorem getUtcTimestamp_exact_iff_leap :
    getUtcTimestamp 951868799 = some "2000-02-29T23:59:59Z".toList ∧
      (("2000-02-29T23:59:59Z".toList.length ≤ histRecTsMaxLen ↔
          (951868799 : Int) < 253402300800) ∧
        (timestampIsValid "2000-02-29T23:59:59Z".toList = true ∧
            timestampToUtcTime "2000-02-29T23:59:59Z".toList = 951868799 ↔
          (951868799 : Int) < 253402300800)) :=
  have hts : getUtcTimestamp 951868799 = some "2000-02-29T23:59:59Z".toList := by decide +kernel
  ⟨hts, getUtcTimestamp_exact_iff 951868799 _ hts⟩

end RoundTrip

end Obix
