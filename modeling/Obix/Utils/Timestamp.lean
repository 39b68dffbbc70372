import Obix.Lib.CString
import Obix.Lib.Gregorian

/-!
# Timestamps

The timestamp functions of `obix_utils.c`.  A timestamp is a string in the
format `%FT%T%z`; its UTC time is a number of seconds since the Epoch.

The C library functions underneath follow `docs/timezone.md`: `strptime` fills
the date and the time of day only when the whole group could be read, a time
zone is two or four digits, and every other designator is ignored.  `timegm`
and `gmtime_r` are the proleptic Gregorian calendar.
-/

namespace Obix

open CString
open Gregorian

/-- Broken-down time, the year counted from 0 and the month from 0. -/
structure Tm where
  year : Nat
  mon : Nat
  mday : Nat
  hour : Nat
  min : Nat
  sec : Nat
  gmtoff : Int

/-- A `struct tm` filled with zeros. -/
def tmZero : Tm :=
  { year := 1900, mon := 0, mday := 0, hour := 0, min := 0, sec := 0, gmtoff := 0 }

/-- Digits of a numeric field of `strptime`: at most `n` of them, and only as
long as a further digit could keep the value in range. -/
def readDigits (hi : Nat) : Nat → Nat → Text → Nat × Text
  | 0, val, s => (val, s)
  | _ + 1, val, [] => (val, [])
  | n + 1, val, c :: s =>
      if c.isDigit && val * 10 ≤ hi then
        readDigits hi n (val * 10 + (c.toNat - 48)) s
      else (val, c :: s)

/-- A numeric field of `strptime` with its range and its largest width. -/
def getNumber (lo hi n : Nat) (s : Text) : Option (Nat × Text) :=
  match s.dropWhile (· = ' ') with
  | [] => none
  | c :: t =>
      if c.isDigit then
        let r := readDigits hi (n - 1) (c.toNat - 48) t
        if lo ≤ r.1 ∧ r.1 ≤ hi then some r else none
      else none

/-- A literal character of a `strptime` format. -/
def matchChar (c : Char) : Text → Option Text
  | [] => none
  | d :: s => if c = d then some s else none

/-- `%F`, that is `%Y-%m-%d`: year, month from 1, day of the month. -/
def strptimeDate (s : Text) : Option ((Nat × Nat × Nat) × Text) := do
  let (y, s) ← getNumber 0 9999 4 s
  let s ← matchChar '-' s
  let (m, s) ← getNumber 1 12 2 s
  let s ← matchChar '-' s
  let (d, s) ← getNumber 1 31 2 s
  return ((y, m, d), s)

/-- `%T`, that is `%H:%M:%S`. -/
def strptimeTime (s : Text) : Option ((Nat × Nat × Nat) × Text) := do
  let (h, s) ← getNumber 0 23 2 s
  let s ← matchChar ':' s
  let (m, s) ← getNumber 0 59 2 s
  let s ← matchChar ':' s
  let (x, s) ← getNumber 0 61 2 s
  return ((h, m, x), s)

/-- `%z`: the offset from UTC in seconds. -/
def strptimeZone (s : Text) : Option Int :=
  match s.dropWhile (· = ' ') with
  | [] => none
  | c :: t =>
      if c = '+' ∨ c = '-' then
        let ds := (t.takeWhile Char.isDigit).take 4
        let val := Nat.ofDigitChars 10 ds 0
        let hhmm := if ds.length = 2 then some (val * 100)
          else if ds.length = 4 ∧ val % 100 < 60 then
            some (val / 100 * 100 + val % 100 * 50 / 30)
          else none
        match hhmm with
        | none => none
        | some v =>
            if v > 1200 then none
            else if c = '-' then some (-(v * 3600 / 100 : Nat))
            else some (v * 3600 / 100 : Nat)
      else none

/-- `strptime(ts, "%FT%T%z", &tm)` on a zeroed `tm`, its return value ignored. -/
def strptime (ts : Text) : Tm :=
  match strptimeDate ts with
  | none => tmZero
  | some ((y, m, d), s) =>
      let tm := { tmZero with year := y, mon := m - 1, mday := d }
      match (matchChar 'T' s).bind strptimeTime with
      | none => tm
      | some ((h, mi, x), s) =>
          { tm with hour := h, min := mi, sec := x, gmtoff := (strptimeZone s).getD 0 }

/-- Days before the Epoch. -/
def epochDay : Nat := daysBeforeYear 1970

/-- `timegm` after the offset has been deducted from the seconds. -/
def timegm (tm : Tm) : Int :=
  (dayOfCivil tm.year tm.mon tm.mday - epochDay) * 86400
    + tm.hour * 3600 + tm.min * 60 + (tm.sec - tm.gmtoff)

/-- `timestamp_split`: date, time and optional time zone designator. -/
def timestampSplit (ts : Text) : Option (Text × Text × Option Text) :=
  match find ['T'] ts with
  | none => none
  | some i =>
      let rest := ts.drop (i + 1)
      if rest = [] then none
      else
        match (find ['Z'] rest).orElse fun _ =>
            (find ['-'] rest).orElse fun _ => find ['+'] rest with
        | none => some (ts.take i, rest, none)
        | some j =>
            if (rest.drop j).head? = some 'Z' then
              some (ts.take i, rest.take j, some ['Z'])
            else if rest.drop (j + 1) = [] then none
            else some (ts.take i, rest.take j, some (rest.drop (j + 1)))

/-- One component of `time_to_long` and the text from `endptr` on. -/
def timeComponent (str : Text) : Option (Int × Text) :=
  let r := strtol str
  if r.erange then none
  else if r.converted = false then none
  else some (r.value, r.rest)

/-- `time_to_long`: three numbers separated by a delimiter. -/
def timeToLong (str : Text) (delimiter : Char) : Option (Int × Int × Int) := do
  let (x, s) ← timeComponent str
  let s ← matchChar delimiter s
  let (y, s) ← timeComponent s
  let s ← matchChar delimiter s
  let (z, s) ← timeComponent s
  if s = [] then return (x, y, z) else none

/-- `timezone_is_valid`; `none` stands for a missing designator. -/
def timezoneIsValid : Option Text → Bool
  | none => true
  | some tz =>
      if tz = ['Z'] then true
      else if tz.all Char.isDigit = false then false
      else if tz.length = 2 then Nat.ofDigitChars 10 tz 0 ≤ 12
      else if tz.length = 4 then
        let hour := Nat.ofDigitChars 10 (tz.take 2) 0
        let minute := Nat.ofDigitChars 10 (tz.drop 2) 0
        if hour < 12 then minute % 15 = 0
        else if hour = 12 then minute = 0
        else false
      else false

/-- `timestamp_is_valid`. -/
def timestampIsValid (ts : Text) : Bool :=
  match timestampSplit ts with
  | none => false
  | some (date, time, tz) =>
      if (timeToLong date '-').isNone || (timeToLong time ':').isNone then false
      else timezoneIsValid tz

/-- `timestamp_to_utc_time`: seconds since the Epoch, `-1` for an invalid timestamp. -/
def timestampToUtcTime (ts : Text) : Int :=
  if timestampIsValid ts then timegm (strptime ts) else -1

/-- The text of a date, `%4d-%.2d-%.2d`; years from 1970 on need no padding. -/
def showDate (d : Date) : Text :=
  Nat.toDigits 10 d.year ++ '-' :: (pad2 d.month ++ '-' :: pad2 d.mday)

/-- The day, counted from the Epoch, that contains a time. -/
def utcDay (t : Int) : Nat := (t / 86400).toNat

/-- `get_utc_date`. -/
def getUtcDate (t : Int) : Option Text :=
  if t < 0 then none
  else some (showDate (civilOfDay (epochDay + utcDay t)))

/-- `timestamp_get_utc_date`. -/
def timestampGetUtcDate (ts : Text) : Option Text :=
  if timestampToUtcTime ts < 0 then none
  else getUtcDate (timestampToUtcTime ts)

/-- `timestamp_compare`: the order of two timestamps and whether the first,
later one is on a new day. -/
def timestampCompare (ts1 ts2 : Text) : Option (Ordering × Bool) :=
  let time1 := timestampToUtcTime ts1
  let time2 := timestampToUtcTime ts2
  if time1 < 0 ∨ time2 < 0 then none
  else if time1 < time2 then some (.lt, false)
  else if time1 = time2 then some (.eq, false)
  -- the Epoch stands for an empty facility, so everything after it is a new day
  else if time2 = 0 then some (.gt, true)
  else
    match getUtcDate time1, getUtcDate time2 with
    | some day1, some day2 => some (.gt, day1 ≠ day2)
    | _, _ => none

/-- `timestamp_compare_date`. -/
def timestampCompareDate (date1 date2 : Text) : Option Ordering :=
  match timeToLong date1 '-', timeToLong date2 '-' with
  | some (y1, m1, d1), some (y2, m2, d2) =>
      if y1 < y2 ∨ (y1 = y2 ∧ m1 < m2) ∨ (y1 = y2 ∧ m1 = m2 ∧ d1 < d2) then some .lt
      else if y1 = y2 ∧ m1 = m2 ∧ d1 = d2 then some .eq
      else some .gt
  | _, _ => none

/-- Return codes of `timestamp_has_common`. -/
inductive HasCommon
  /-- `1`: a common part exists. -/
  | common
  /-- `-2`: the timestamps cannot be compared. -/
  | error
  /-- `-3`: the start is after the latest timestamp. -/
  | startAfter
  /-- `-4`: the end is before the oldest timestamp. -/
  | endBefore
  deriving DecidableEq, Repr

/-- `timestamp_has_common`. -/
def timestampHasCommon (start fin oldest latest : Text) : HasCommon :=
  match timestampCompare start latest with
  | none => .error
  | some (.gt, _) => .startAfter
  | some _ =>
      match timestampCompare fin oldest with
      | none => .error
      | some (.lt, _) => .endBefore
      | some _ => .common

/-- `timestamp_find_common`. -/
def timestampFindCommon (start fin oldest latest : Text) : Option (Text × Text) :=
  match timestampCompare start oldest with
  | none => none
  | some (res, _) =>
      let start := if res = .lt then oldest else start
      match timestampCompare fin latest with
      | none => none
      | some (res, _) => some (start, if res = .gt then latest else fin)

/-- The initial timestamp of an empty history facility, `HIST_TS_INIT`. -/
def histTsInit : Text := "1970-01-01T00:00:00Z".toList

end Obix
