import Obix.Lib.Duration
import Obix.Utils.Strings

/-!
# Relative times

`obix_reltime_to_long` and `obix_reltime_from_long` of `obix_utils.c`.  A
relative time is a text of the form `PnDTnHnMnS`, where the seconds may have a
fraction; its value is a number of milliseconds.

The reader goes through the text once.  Its state is the last number, the text
behind that number and the sum so far.  Its failures are the codes `-1`, for a
malformed text, and `-2`, for a value out of range.
-/

namespace Obix

open CString

/-- An arithmetic result as a `long` keeps it. -/
def asLong (n : Int) : Int := n.bmod (2 ^ 64)

/-- `INT_MAX`. -/
def intMax : Nat := 2 ^ 31 - 1

/-- An arithmetic result as an `int` keeps it. -/
def asInt (n : Int) : Int := n.bmod (2 ^ 32)

section Reading

/-- The local variables of `obix_reltime_to_long`; `endPos` is the text from there on. -/
structure ReltimeScan where
  l : Int
  endPos : Text
  parsedSomething : Bool
  result : Int
  deriving DecidableEq, Repr

namespace ReltimeScan

/-- `strtoposl`: `l` is `-1` when there is no number. -/
def strtoposl
    (p : ReltimeScan)
    (startPos : Text) :
    ReltimeScan :=
  let r := strtol startPos
  if r.converted then
    { p with l := r.value, endPos := r.rest, parsedSomething := true }
  else { p with l := -1, endPos := startPos }

/--
A number with the letter of its unit, and the number after it.  `alone` bounds
the number when nothing precedes it, `rest` when something does.
-/
def unit
    (letter : Char)
    (alone rest millis : Int)
    (p : ReltimeScan) :
    Except Int ReltimeScan :=
  if p.endPos.head? = some letter then
    if p.l < 0 then .error (-1)
    else if alone < p.l ∨ (0 < p.result ∧ rest < p.l) then .error (-2)
    else .ok (strtoposl { p with result := p.result + p.l * millis } p.endPos.tail)
  else .ok p

/-- The hours of the time section. -/
def hours : ReltimeScan → Except Int ReltimeScan :=
  unit 'H' 595 23 3600000

/-- The minutes of the time section. -/
def minutes : ReltimeScan → Except Int ReltimeScan :=
  unit 'M' 35790 59 60000

/-- The loop that drops everything smaller than a thousandth. -/
def dropSmall (l : Int) : Int :=
  if 1000 < l then dropSmall (l / 10) else l
termination_by l.toNat

/-- The fraction of the seconds, scaled by the number of characters it takes. -/
def fraction
    (p : ReltimeScan)
    (startPos : Text) :
    Except Int ReltimeScan :=
  let q := strtoposl { p with parsedSomething := false } startPos
  if q.endPos.head? = some 'S' then
    let parsedDigits := asInt (startPos.length - q.endPos.length)
    .ok { q with result := q.result + asLong (dropSmall q.l * 10 ^ (3 - parsedDigits).toNat) }
  else .error (-1)

/-- The seconds of the time section. -/
def seconds (p : ReltimeScan) : Except Int ReltimeScan :=
  if p.endPos.head? = some 'S' ∨ p.endPos.head? = some '.' then
    if p.l < 0 then .error (-1)
    else if 2147482 < p.l ∨ (0 < p.result ∧ 59 < p.l) then .error (-2)
    else do
      let p := { p with result := p.result + p.l * 1000 }
      let p ← if p.endPos.head? = some '.' then p.fraction p.endPos.tail else .ok p
      -- no more values are parsed
      return { p with l := -1 }
  else .ok p

/-- The section behind the `T`. -/
def time
    (p : ReltimeScan)
    (startPos : Text) :
    Except Int ReltimeScan := do
  let p := strtoposl { p with parsedSomething := false } startPos
  let p ← p.hours
  let p ← p.minutes
  let p ← p.seconds
  if p.l = -1 then return p else .error (-1)

/-- The section behind the `P`, and the text that it leaves. -/
def date (startPos : Text) : Except Int (ReltimeScan × Text) :=
  let p := strtoposl { l := 0, endPos := startPos, parsedSomething := false, result := 0 } startPos
  if p.endPos.head? = some 'Y' ∨ p.endPos.head? = some 'M' then .error (-2)
  else if p.endPos.head? = some 'D' then
    if p.l < 0 then .error (-1)
    else if 23 < p.l then .error (-2)
    else .ok ({ p with result := p.result + p.l * 86400000 }, p.endPos.tail)
  else if p.parsedSomething then .error (-1)
  else .ok (p, startPos)

end ReltimeScan

/-- `obix_reltime_to_long`: the milliseconds, or the code of the failure. -/
def obixReltimeToLong (str : Text) : Except Int Int :=
  let negativeFlag := str.head? = some '-'
  let startPos := if negativeFlag then str.tail else str
  if startPos.head? = some 'P' then do
    let (p, startPos) ← ReltimeScan.date startPos.tail
    let p ← if startPos.head? = some 'T' then p.time startPos.tail else .ok p
    if p.parsedSomething = false then .error (-1)
    else return (if negativeFlag then asLong (-p.result) else p.result)
  else .error (-1)

end Reading

section Printing

/-- `RELTIME_FORMAT`: the largest unit of the text. -/
inductive ReltimeFormat
  | sec
  | min
  | hour
  | day
  deriving DecidableEq, Repr

/-- The value of an enumerator. -/
def ReltimeFormat.code : ReltimeFormat → Nat
  | .sec => 0
  | .min => 1
  | .hour => 2
  | .day => 3

/-- The numbers that `obix_reltime_from_long` prints. -/
structure ReltimeFields where
  negativeFlag : Bool
  days : Int
  hours : Int
  minutes : Int
  seconds : Int
  millis : Int
  deriving DecidableEq, Repr

/-- The larger unit and what is left of the smaller one, when the format has the larger unit. -/
def carryUnit
    (larger : Bool)
    (base n : Int) :
    Int × Int :=
  if larger then (n.tdiv base, n.tmod base) else (0, n)

/-- The part of `obix_reltime_from_long` that splits the milliseconds. -/
def reltimeFields
    (millis : Int)
    (format : ReltimeFormat) :
    ReltimeFields :=
  let size := if millis < 0 then asLong (millis * -1) else millis
  let seconds := asInt (size.tdiv 1000)
  let (minutes, seconds) := carryUnit (ReltimeFormat.min.code ≤ format.code) 60 seconds
  let (hours, minutes) := carryUnit (ReltimeFormat.hour.code ≤ format.code) 60 minutes
  let (days, hours) := carryUnit (ReltimeFormat.day.code ≤ format.code) 24 hours
  { negativeFlag := millis < 0, days := days, hours := hours, minutes := minutes,
    seconds := seconds, millis := size.tmod 1000 }

/-- The table of `long_len`: the largest number of each length. -/
def longLenSize : List Int :=
  [0, 9, 99, 999, 9999, 99999, 999999, 9999999, 99999999, 999999999, longMax]

/-- `long_len`: for a positive number, one more than the number of its digits. -/
def longLen (l : Int) : Nat :=
  let len := longLenSize.findIdx (l ≤ ·)
  if len = 0 then 0 else len + 1

namespace ReltimeFields

variable (f : ReltimeFields)

/-- Whether the text has a time section. -/
def hasTime : Bool :=
  0 < f.millis || 0 < f.seconds || 0 < f.minutes || 0 < f.hours

/-- What `stringSize` counts for a number and the character beside it. -/
def numberSize (n : Int) : Nat :=
  if 0 < n then longLen n + 1 else 0

/-- `stringSize`. -/
def stringSize : Nat :=
  1 + (if f.negativeFlag then 1 else 0) + numberSize f.millis + numberSize f.seconds +
    numberSize f.minutes + numberSize f.hours + numberSize f.days + (if f.hasTime then 1 else 0)

/-- A number with the letter of its unit, left out when it is zero. -/
def printUnit
    (n : Int)
    (letter : Char) :
    Text :=
  if 0 < n then showInt n ++ [letter] else []

/-- The seconds with their fraction, which `%3ld` fills up with blanks. -/
def printSeconds : Text :=
  if 0 < f.seconds ∨ 0 < f.millis then
    showInt f.seconds ++
      ((if 0 < f.millis then '.' :: List.leftpad 3 ' ' (showInt f.millis) else []) ++ ['S'])
  else []

/-- The part of `obix_reltime_from_long` that writes the text. -/
def print : Text :=
  (if f.negativeFlag then ['-'] else []) ++ 'P' :: (printUnit f.days 'D' ++
    ((if f.hasTime then ['T'] else []) ++ (printUnit f.hours 'H' ++
      (printUnit f.minutes 'M' ++ f.printSeconds))))

end ReltimeFields

/-- `OBIX_RELTIME_ZERO`. -/
def obixReltimeZero : Text := "PT0S".toList

/-- `OBIX_RELTIME_ZERO_LEN`. -/
def obixReltimeZeroLen : Nat := 4

/-- `obix_reltime_from_long`. -/
def obixReltimeFromLong
    (millis : Int)
    (format : ReltimeFormat) :
    Text :=
  if millis = 0 then obixReltimeZero else (reltimeFields millis format).print

/-- The number of bytes that `obix_reltime_from_long` allocates for its text. -/
def reltimeAllocated
    (millis : Int)
    (format : ReltimeFormat) :
    Nat :=
  if millis = 0 then obixReltimeZeroLen + 1 else (reltimeFields millis format).stringSize + 1

end Printing

section Splitting

open Duration

theorem asInt_eq
    {n : Int}
    (hlo : -2 ^ 31 ≤ n)
    (hhi : n < 2 ^ 31) :
    asInt n = n := by
  apply Int.bmod_eq_of_le <;> omega

theorem asLong_eq
    {n : Int}
    (hlo : -2 ^ 63 ≤ n)
    (hhi : n < 2 ^ 63) :
    asLong n = n := by
  apply Int.bmod_eq_of_le <;> omega

/-- The numbers that a format splits milliseconds into. -/
def ReltimeFormat.span
    (format : ReltimeFormat)
    (n : Nat) :
    Span :=
  match format with
  | .sec =>
      { days := 0, hours := 0, minutes := 0, seconds := n / 1000, millis := n % 1000 }
  | .min =>
      { days := 0, hours := 0, minutes := n / 60000, seconds := n / 1000 % 60,
        millis := n % 1000 }
  | .hour =>
      { days := 0, hours := n / 3600000, minutes := n / 60000 % 60, seconds := n / 1000 % 60,
        millis := n % 1000 }
  | .day =>
      { days := n / 86400000, hours := n / 3600000 % 24, minutes := n / 60000 % 60,
        seconds := n / 1000 % 60, millis := n % 1000 }

@[simp] theorem ReltimeFormat.total_span
    (format : ReltimeFormat)
    (n : Nat) :
    (format.span n).total = n := by
  cases format <;> simp only [span, Span.total] <;> omega

/-- The numbers of a span, as they are printed. -/
def fieldsOf
    (negativeFlag : Bool)
    (s : Span) :
    ReltimeFields :=
  { negativeFlag := negativeFlag, days := s.days, hours := s.hours, minutes := s.minutes,
    seconds := s.seconds, millis := s.millis }

/-- A unit that is split off a natural number. -/
theorem carryUnit_natCast
    (larger : Bool)
    (base n : Nat) :
    carryUnit larger base n =
      (((if larger then n / base else 0 : Nat) : Int),
        ((if larger then n % base else n : Nat) : Int)) := by
  cases larger
  · rfl
  · simp [carryUnit, Int.tmod_eq_emod_of_nonneg]

/-- The code splits its argument as the format does. -/
theorem reltimeFields_eq
    {m : Int}
    (h : |m| ≤ 2 ^ 31 - 1)
    (format : ReltimeFormat) :
    reltimeFields m format = fieldsOf (m < 0) (format.span m.natAbs) := by
  obtain ⟨hlo, hhi⟩ := abs_le.mp h
  have hsize : (if m < 0 then asLong (m * -1) else m) = (m.natAbs : Int) := by
    split
    · rw [asLong_eq] <;> omega
    · omega
  have hseconds : asInt ((m.natAbs : Int).tdiv 1000) = ((m.natAbs / 1000 : Nat) : Int) := by
    have hdiv : (m.natAbs : Int).tdiv 1000 = ((m.natAbs / 1000 : Nat) : Int) :=
      (Int.ofNat_tdiv _ _).symm
    rw [hdiv, asInt_eq] <;> omega
  have hmillis : (m.natAbs : Int).tmod 1000 = ((m.natAbs % 1000 : Nat) : Int) :=
    (Int.ofNat_tmod _ _).symm
  have h60 := fun b n => carryUnit_natCast b 60 n
  have h24 := fun b n => carryUnit_natCast b 24 n
  simp only [Nat.cast_ofNat] at h60 h24
  simp only [reltimeFields, hsize, hseconds, hmillis, h60, h24]
  cases format <;>
    simp [ReltimeFormat.code, fieldsOf, ReltimeFormat.span, Nat.div_div_eq_div_mul]

end Splitting

end Obix
