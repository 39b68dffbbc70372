import Obix.Lib.Written
import Obix.Utils.Reltime

/-!
# Readings of a relative time

`obix_reltime_to_long` reads a text from its beginning: numbers as `strtol` takes them, each with
the letter of its unit.  It accepts a text with such a reading that is within the bounds and has
nothing behind it that the code would go on with (`obixReltimeToLong_ok_iff`).
-/

namespace Obix

open CString

section Spec

/-- The seconds as they are written. -/
@[ext]
structure SecondsReading where
  whole : Written
  fraction : Option Written

/-- The time section as it is written. -/
@[ext]
structure TimeReading where
  hours : Option Written
  minutes : Option Written
  seconds : Option SecondsReading

/-- A relative time as it is written. -/
@[ext]
structure ReltimeReading where
  negative : Bool
  days : Option Written
  time : Option TimeReading

/-- A number with the letter of its unit, if there is one, before a text. -/
def withUnit (letter : Char) : Option Written → Text → Text
  | none, rest => rest
  | some a, rest => a.text ++ letter :: rest

/-- A fraction with its point, if there is one, and the letter of the seconds before a text. -/
def withFraction : Option Written → Text → Text
  | none, rest => 'S' :: rest
  | some a, rest => '.' :: (a.text ++ 'S' :: rest)

def withSeconds : Option SecondsReading → Text → Text
  | none, rest => rest
  | some s, rest => s.whole.text ++ withFraction s.fraction rest

/-- The time section before a text. -/
def TimeReading.before
    (t : TimeReading)
    (tail : Text) :
    Text :=
  withUnit 'H' t.hours (withUnit 'M' t.minutes (withSeconds t.seconds tail))

def withTime : Option TimeReading → Text → Text
  | none, rest => rest
  | some t, rest => 'T' :: t.before rest

/-- The relative time before a text. -/
def ReltimeReading.before
    (r : ReltimeReading)
    (tail : Text) :
    Text :=
  (if r.negative then ['-'] else []) ++ 'P' :: withUnit 'D' r.days (withTime r.time tail)

/-- The number of a unit. -/
def unitNumber (o : Option Written) : Int :=
  o.elim 0 Written.value

/-- A number is not negative and within the bound of its unit, which is another one when something
that is not zero precedes it. -/
def Bounded
    (preceding alone rest : Int)
    (o : Option Written) :
    Prop :=
  ∀ a, o = some a → 0 ≤ a.value ∧ a.value ≤ alone ∧ (0 < preceding → a.value ≤ rest)

namespace TimeReading

variable (t : TimeReading)

/-- The whole seconds. -/
def wholeSeconds : Option Written :=
  t.seconds.map SecondsReading.whole

/-- The bounds of the time section behind a number of days. -/
structure InBounds (days : Int) : Prop where
  hours : Bounded days 595 23 t.hours
  minutes : Bounded (days + unitNumber t.hours) 35790 59 t.minutes
  seconds : Bounded (days + unitNumber t.hours + unitNumber t.minutes) 2147482 59 t.wholeSeconds

/-- Where there are no seconds, the code looks for a number once more: it finds none, or `-1`, and
no letter that it would go on with. -/
structure StopsAt (tail : Text) : Prop where
  seconds : mark tail ≠ some 'S' ∧ mark tail ≠ some '.'
  minutes : t.minutes = none → mark tail ≠ some 'M'
  hours : t.hours = none → t.minutes = none → mark tail ≠ some 'H'
  number : ((strtol tail).converted = true ∧ (strtol tail).value = -1) ∨
    ((strtol tail).converted = false ∧ (t.hours.isSome ∨ t.minutes.isSome))

end TimeReading

namespace ReltimeReading

variable (r : ReltimeReading)

structure InBounds : Prop where
  days : Bounded 0 23 23 r.days
  time : ∀ t, r.time = some t → t.InBounds (unitNumber r.days)

/-- A reading with a text behind it that passes the checks of the code. -/
structure Accepted (tail : Text) : Prop where
  bounds : r.InBounds
  nonempty : r.days.isSome ∨ r.time.isSome
  noTime : r.time = none → tail.head? ≠ some 'T'
  noSeconds : ∀ t, r.time = some t → t.seconds = none → t.StopsAt tail

/-- The fraction of the seconds. -/
def fraction : Option Written :=
  r.time.bind fun t => t.seconds.bind SecondsReading.fraction

/-- The milliseconds without the fraction. -/
def wholeMillis : Int :=
  unitNumber r.days * 86400000 + r.time.elim 0 fun t => unitNumber t.hours * 3600000 +
    unitNumber t.minutes * 60000 + unitNumber t.wholeSeconds * 1000

end ReltimeReading

end Spec

namespace ReltimeScan

section Numbers

variable {b : Bool} {R : Int} {s rest : Text} {a : Written} {letter : Char}

/-- The state after a number was looked for: the flag and the sum are the ones from before. -/
def readAt
    (parsedSomething : Bool)
    (result : Int)
    (startPos : Text) :
    ReltimeScan :=
  strtoposl { l := 0, endPos := [], parsedSomething := parsedSomething, result := result } startPos

theorem strtoposl_eq
    (p : ReltimeScan)
    (s : Text) :
    strtoposl p s = readAt p.parsedSomething p.result s := by
  rfl

theorem readAt_written
    (hr : Ends rest) :
    readAt b R (a.text ++ rest) =
      { l := clipLong a.value, endPos := rest, parsedSomething := true, result := R } := by
  unfold readAt strtoposl
  rw [strtol_written a hr]
  rfl

theorem readAt_of_not_converted
    (h : (strtol s).converted = false) :
    readAt b R s = { l := -1, endPos := s, parsedSomething := b, result := R } := by
  unfold readAt strtoposl
  dsimp only
  rw [h]
  rfl

/-- A number is found, or none is. -/
theorem readAt_cases
    (b : Bool)
    (R : Int)
    (s : Text) :
    (∃ (a : Written) (rest : Text), s = a.text ++ rest ∧ Ends rest ∧
      readAt b R s =
        { l := clipLong a.value, endPos := rest, parsedSomething := true, result := R }) ∨
      ((strtol s).converted = false ∧
        readAt b R s = { l := -1, endPos := s, parsedSomething := b, result := R }) := by
  cases hconv : (strtol s).converted with
  | false => exact .inr ⟨rfl, readAt_of_not_converted hconv⟩
  | true =>
      obtain ⟨a, rest, rfl, hr⟩ := exists_written hconv
      exact .inl ⟨a, rest, rfl, hr, readAt_written hr⟩

theorem head_readAt : (readAt b R s).endPos.head? = mark s := by
  rcases readAt_cases b R s with ⟨a, rest, rfl, hr, heq⟩ | ⟨hconv, heq⟩
  · rw [heq, mark_written a hr]
  · rw [heq, mark, rest_strtol_of_not_converted hconv]

@[simp] theorem result_readAt : (readAt b R s).result = R := by
  rcases readAt_cases b R s with ⟨a, rest, -, -, heq⟩ | ⟨-, heq⟩
  · rw [heq]
  · rw [heq]

/-- A bound of the code is below what a `long` is cut to. -/
theorem value_of_clipLong
    {n bound : Int}
    (hbound : bound < longMax)
    (hlo : 0 ≤ clipLong n)
    (hhi : clipLong n ≤ bound) :
    clipLong n = n := by
  have hmax : longMax = 2 ^ 63 - 1 := rfl
  have hmin : longMin = -2 ^ 63 := rfl
  by_cases hbig : n > longMax
  · rw [clipLong, if_pos hbig] at hhi
    omega
  by_cases hsmall : n < longMin
  · rw [clipLong, if_neg hbig, if_pos hsmall] at hlo
    omega
  exact clipLong_eq (not_lt.mp hsmall) (not_lt.mp hbig)

end Numbers

section Units

variable {letter : Char} {alone bound millis R : Int} {b : Bool}

theorem unit_withUnit
    {o : Option Written} {s : Text}
    (hletter : letter.isDigit = false)
    (halone : alone < longMax)
    (hb : Bounded R alone bound o)
    (hnone : o = none → mark s ≠ some letter) :
    unit letter alone bound millis (readAt b R (withUnit letter o s)) =
      .ok (readAt (b || o.isSome) (R + unitNumber o * millis) s) := by
  cases o with
  | none =>
      have hhead : ¬ (readAt b R s).endPos.head? = some letter := by
        rw [head_readAt]
        exact hnone rfl
      rw [withUnit, unit, if_neg hhead]
      simp [unitNumber]
  | some a =>
      obtain ⟨hlo, hhi, hrest⟩ := hb a rfl
      have hmin : longMin ≤ 0 := by decide
      rw [withUnit, readAt_written (ends_cons hletter),
        clipLong_eq (hmin.trans hlo) (hhi.trans halone.le), unit]
      dsimp only
      rw [if_pos List.head?_cons, if_neg (by omega), if_neg (by omega), strtoposl_eq]
      simp [unitNumber]

theorem exists_unit
    {s : Text} {p : ReltimeScan}
    (halone : alone < longMax)
    (h : unit letter alone bound millis (readAt b R s) = .ok p) :
    ∃ (o : Option Written) (s' : Text), s = withUnit letter o s' ∧
      (o = none → mark s' ≠ some letter) ∧ Bounded R alone bound o ∧
      p = readAt (b || o.isSome) (R + unitNumber o * millis) s' := by
  unfold unit at h
  by_cases hhead : (readAt b R s).endPos.head? = some letter
  · rw [if_pos hhead] at h
    rcases readAt_cases b R s with ⟨a, rest, rfl, hr, heq⟩ | ⟨-, heq⟩
    · rw [heq] at h hhead
      dsimp only at h hhead
      obtain ⟨s', rfl⟩ := List.head?_eq_some_iff.mp hhead
      by_cases hneg : clipLong a.value < 0
      · rw [if_pos hneg] at h
        cases h
      rw [if_neg hneg] at h
      by_cases hout : alone < clipLong a.value ∨ (0 < R ∧ bound < clipLong a.value)
      · rw [if_pos hout] at h
        cases h
      rw [if_neg hout, strtoposl_eq] at h
      have hclip := value_of_clipLong halone (by omega) (by omega : clipLong a.value ≤ alone)
      rw [hclip] at hneg hout h
      refine ⟨some a, s', rfl, by simp, ?_, ?_⟩
      · intro c hc
        obtain rfl := Option.some.inj hc
        omega
      · have hp := Except.ok.inj h
        rw [← hp]
        simp [unitNumber]
    · rw [heq] at h
      dsimp only at h
      rw [if_pos (by decide)] at h
      cases h
  · rw [if_neg hhead] at h
    rw [head_readAt] at hhead
    refine ⟨none, s, rfl, fun _ => hhead, by simp [Bounded], ?_⟩
    rw [← Except.ok.inj h]
    simp [unitNumber]

end Units

section Seconds

variable {R : Int} {b : Bool} {tail : Text}

/-- What the code makes of a fraction. -/
def fractionAdded (f : Written) : Int :=
  asLong (dropSmall (clipLong f.value) * 10 ^ (3 - asInt f.text.length).toNat)

theorem fraction_written
    {p : ReltimeScan}
    (f : Written) :
    p.fraction (f.text ++ 'S' :: tail) =
      .ok { l := clipLong f.value, endPos := 'S' :: tail, parsedSomething := true,
            result := p.result + fractionAdded f } := by
  unfold fraction
  rw [strtoposl_eq]
  dsimp only
  rw [readAt_written (ends_cons (by decide))]
  dsimp only
  have hlength : (((f.text ++ 'S' :: tail).length : Int) - (('S' :: tail).length : Int)) =
      f.text.length := by
    rw [List.length_append]
    push_cast
    omega
  rw [if_pos List.head?_cons, hlength]
  rfl

theorem seconds_of_mark
    {s : Text}
    (h : mark s ≠ some 'S' ∧ mark s ≠ some '.') :
    seconds (readAt b R s) = .ok (readAt b R s) := by
  have hhead : ¬ ((readAt b R s).endPos.head? = some 'S' ∨ (readAt b R s).endPos.head? = some '.') := by
    rw [head_readAt, not_or]
    exact h
  exact if_neg hhead

theorem seconds_withSeconds
    {q : SecondsReading}
    (hb : Bounded R 2147482 59 (some q.whole)) :
    ∃ p, seconds (readAt b R (withSeconds (some q) tail)) = .ok p ∧ p.l = -1 ∧
      p.parsedSomething = true ∧
      p.result = R + q.whole.value * 1000 + q.fraction.elim 0 fractionAdded := by
  obtain ⟨hlo, hhi, hrest⟩ := hb _ rfl
  have hclip : clipLong q.whole.value = q.whole.value := by
    refine clipLong_eq ?_ ?_
    · exact (by decide : longMin ≤ 0).trans hlo
    · exact hhi.trans (by decide)
  obtain ⟨whole, fraction⟩ := q
  cases fraction with
  | none =>
      rw [withSeconds, withFraction, readAt_written (ends_cons (by decide))]
      unfold seconds
      dsimp only at *
      rw [if_pos (.inl List.head?_cons), hclip, if_neg (by omega), if_neg (by omega),
        if_neg (by simp)]
      exact ⟨_, rfl, rfl, rfl, by simp⟩
  | some f =>
      rw [withSeconds, withFraction, readAt_written (ends_cons (by decide))]
      unfold seconds
      dsimp only at *
      rw [if_pos (.inr List.head?_cons), hclip, if_neg (by omega), if_neg (by omega),
        if_pos List.head?_cons, List.tail_cons, fraction_written]
      exact ⟨_, rfl, rfl, rfl, rfl⟩

theorem exists_seconds
    {s : Text} {p : ReltimeScan}
    (h : seconds (readAt b R s) = .ok p)
    (hparsed : p.parsedSomething = true) :
    (mark s ≠ some 'S' ∧ mark s ≠ some '.' ∧ p = readAt b R s) ∨
      ∃ (q : SecondsReading) (tail : Text), s = withSeconds (some q) tail ∧
        Bounded R 2147482 59 (some q.whole) := by
  unfold seconds at h
  by_cases hhead : (readAt b R s).endPos.head? = some 'S' ∨ (readAt b R s).endPos.head? = some '.'
  · right
    rw [if_pos hhead] at h
    rcases readAt_cases b R s with ⟨a, rest, rfl, hr, heq⟩ | ⟨-, heq⟩
    · rw [heq] at h hhead
      dsimp only at h hhead
      by_cases hneg : clipLong a.value < 0
      · rw [if_pos hneg] at h
        cases h
      rw [if_neg hneg] at h
      by_cases hout : 2147482 < clipLong a.value ∨ (0 < R ∧ 59 < clipLong a.value)
      · rw [if_pos hout] at h
        cases h
      rw [if_neg hout] at h
      have hclip := value_of_clipLong (by decide : (2147482 : Int) < longMax) (by omega)
        (by omega : clipLong a.value ≤ 2147482)
      rw [hclip] at hneg hout
      have hbounded : Bounded R 2147482 59 (some a) := by
        intro c hc
        obtain rfl := Option.some.inj hc
        omega
      by_cases hpoint : rest.head? = some '.'
      · obtain ⟨start, rfl⟩ := List.head?_eq_some_iff.mp hpoint
        rw [if_pos List.head?_cons, List.tail_cons] at h
        unfold fraction at h
        rw [strtoposl_eq] at h
        dsimp only at h
        rcases readAt_cases false (R + clipLong a.value * 1000) start with
          ⟨f, more, rfl, hmore, heq'⟩ | ⟨-, heq'⟩
        · rw [heq'] at h
          dsimp only at h
          by_cases hS : more.head? = some 'S'
          · obtain ⟨tail, rfl⟩ := List.head?_eq_some_iff.mp hS
            exact ⟨⟨a, some f⟩, tail, rfl, hbounded⟩
          · rw [if_neg hS] at h
            cases h
        · -- without digits in the fraction nothing counts as parsed
          rw [heq'] at h
          dsimp only at h
          split at h
          · rw [← Except.ok.inj h] at hparsed
            cases hparsed
          · cases h
      · obtain ⟨tail, rfl⟩ := List.head?_eq_some_iff.mp (hhead.resolve_right hpoint)
        exact ⟨⟨a, none⟩, tail, rfl, hbounded⟩
    · rw [heq] at h
      dsimp only at h
      rw [if_pos (by decide)] at h
      cases h
  · left
    rw [if_neg hhead] at h
    rw [head_readAt, not_or] at hhead
    exact ⟨hhead.1, hhead.2, (Except.ok.inj h).symm⟩

end Seconds

section Sections

variable {p : ReltimeScan} {tail : Text}

theorem mark_withSeconds
    {q : SecondsReading} :
    mark (withSeconds (some q) tail) = some 'S' ∨ mark (withSeconds (some q) tail) = some '.' := by
  obtain ⟨whole, fraction⟩ := q
  cases fraction with
  | none =>
      left
      show mark (whole.text ++ 'S' :: tail) = some 'S'
      rw [mark_written whole (ends_cons (by decide))]
      rfl
  | some f =>
      right
      show mark (whole.text ++ '.' :: (f.text ++ 'S' :: tail)) = some '.'
      rw [mark_written whole (ends_cons (by decide))]
      rfl

theorem mark_withUnit
    {letter : Char} {a : Written}
    (hletter : letter.isDigit = false) :
    mark (withUnit letter (some a) tail) = some letter := by
  rw [withUnit, mark_written a (ends_cons hletter)]
  rfl

/-- Behind the minutes there is no letter of a unit of theirs. -/
theorem mark_seconds
    {t : TimeReading}
    (hstops : t.seconds = none → t.StopsAt tail)
    (hminutes : t.minutes = none) :
    mark (withSeconds t.seconds tail) ≠ some 'M' := by
  cases hs : t.seconds with
  | none => exact (hstops hs).minutes hminutes
  | some q =>
      rcases @mark_withSeconds tail q with h | h
      · rw [h]
        decide
      · rw [h]
        decide

theorem mark_minutes
    {t : TimeReading}
    (hstops : t.seconds = none → t.StopsAt tail)
    (hhours : t.hours = none) :
    mark (withUnit 'M' t.minutes (withSeconds t.seconds tail)) ≠ some 'H' := by
  cases hm : t.minutes with
  | some a =>
      rw [mark_withUnit (by decide)]
      decide
  | none =>
      rw [withUnit]
      cases hs : t.seconds with
      | none => exact (hstops hs).hours hhours hm
      | some q =>
          rcases @mark_withSeconds tail q with h | h
          · rw [h]
            decide
          · rw [h]
            decide

theorem unitNumber_nonneg
    {preceding alone rest : Int} {o : Option Written}
    (h : Bounded preceding alone rest o) :
    0 ≤ unitNumber o := by
  cases o with
  | none => exact le_refl 0
  | some a => exact (h a rfl).1

/-- The bounds depend only on whether something precedes. -/
theorem bounded_congr
    {preceding before alone rest : Int} {o : Option Written}
    (h : Bounded preceding alone rest o)
    (hiff : 0 < before ↔ 0 < preceding) :
    Bounded before alone rest o := by
  intro a ha
  rw [hiff]
  exact h a ha

/-- A sequence succeeds when its steps do. -/
theorem bind_eq_ok
    {ε α β : Type} {x : Except ε α} {f : α → Except ε β} {b : β} :
    x >>= f = .ok b ↔ ∃ a, x = .ok a ∧ f a = .ok b := by
  cases x with
  | error e =>
      constructor
      · intro h
        cases h
      · rintro ⟨a, h, -⟩
        cases h
  | ok a =>
      constructor
      · intro h
        exact ⟨a, rfl, h⟩
      · rintro ⟨c, hc, h⟩
        obtain rfl := Except.ok.inj hc
        exact h

/-- The time section of a reading. -/
theorem time_before
    {t : TimeReading} {days : Int}
    (hdays : 0 ≤ days)
    (hresult : p.result = days * 86400000)
    (hb : t.InBounds days)
    (hstops : t.seconds = none → t.StopsAt tail) :
    ∃ q, p.time (t.before tail) = .ok q ∧ q.parsedSomething = true ∧
      q.result = p.result + (unitNumber t.hours * 3600000 + unitNumber t.minutes * 60000 +
        unitNumber t.wholeSeconds * 1000) +
        (t.seconds.bind SecondsReading.fraction).elim 0 fractionAdded := by
  have hhnonneg := unitNumber_nonneg hb.hours
  have hmnonneg := unitNumber_nonneg hb.minutes
  have hhours : hours (readAt false p.result (t.before tail)) =
      .ok (readAt (false || t.hours.isSome) (p.result + unitNumber t.hours * 3600000)
        (withUnit 'M' t.minutes (withSeconds t.seconds tail))) :=
    unit_withUnit (by decide) (by decide) (bounded_congr hb.hours (by omega)) (mark_minutes hstops)
  have hminutes : minutes (readAt (false || t.hours.isSome)
      (p.result + unitNumber t.hours * 3600000)
      (withUnit 'M' t.minutes (withSeconds t.seconds tail))) =
      .ok (readAt (false || t.hours.isSome || t.minutes.isSome)
        (p.result + unitNumber t.hours * 3600000 + unitNumber t.minutes * 60000)
        (withSeconds t.seconds tail)) :=
    unit_withUnit (by decide) (by decide) (bounded_congr hb.minutes (by omega))
      (mark_seconds hstops)
  unfold time
  rw [strtoposl_eq]
  dsimp only
  rw [hhours]
  simp only [bind, Except.bind]
  rw [hminutes]
  dsimp only
  cases hs : t.seconds with
  | some s =>
      have hbounded : Bounded (p.result + unitNumber t.hours * 3600000 +
          unitNumber t.minutes * 60000) 2147482 59 (some s.whole) := by
        have hseconds := hb.seconds
        rw [TimeReading.wholeSeconds, hs] at hseconds
        exact bounded_congr hseconds (by omega)
      obtain ⟨q, hq, hl, hparsed, hvalue⟩ := seconds_withSeconds hbounded
      rw [hq]
      dsimp only
      rw [if_pos hl]
      refine ⟨q, rfl, hparsed, ?_⟩
      rw [hvalue, TimeReading.wholeSeconds, hs]
      simp only [unitNumber, Option.map_some, Option.elim_some, Option.bind_some]
      omega
  | none =>
      have hstop := hstops hs
      rw [withSeconds, seconds_of_mark hstop.seconds]
      dsimp only
      have hend : (readAt (false || t.hours.isSome || t.minutes.isSome)
          (p.result + unitNumber t.hours * 3600000 + unitNumber t.minutes * 60000) tail).l = -1 ∧
          (readAt (false || t.hours.isSome || t.minutes.isSome)
          (p.result + unitNumber t.hours * 3600000 + unitNumber t.minutes * 60000)
            tail).parsedSomething = true := by
        rcases hstop.number with ⟨hconv, hvalue⟩ | ⟨hconv, hunits⟩
        · obtain ⟨a, rest, rfl, hr⟩ := exists_written hconv
          rw [strtol_written a hr] at hvalue
          rw [readAt_written hr]
          exact ⟨hvalue, rfl⟩
        · rw [readAt_of_not_converted hconv]
          exact ⟨rfl, by simpa using hunits⟩
      rw [if_pos hend.1]
      refine ⟨_, rfl, hend.2, ?_⟩
      rw [result_readAt, TimeReading.wholeSeconds, hs]
      simp only [unitNumber, Option.map_none, Option.elim_none, Option.bind_none]
      omega

/-- What the code takes as a time section is one. -/
theorem exists_time
    {startPos : Text} {days : Int} {q : ReltimeScan}
    (hdays : 0 ≤ days)
    (hresult : p.result = days * 86400000)
    (h : p.time startPos = .ok q)
    (hparsed : q.parsedSomething = true) :
    ∃ (t : TimeReading) (tail : Text), startPos = t.before tail ∧ t.InBounds days ∧
      (t.seconds = none → t.StopsAt tail) := by
  unfold time at h
  rw [strtoposl_eq] at h
  dsimp only at h
  obtain ⟨p₁, hhours, h⟩ := bind_eq_ok.mp h
  obtain ⟨oh, s₁, rfl, hmark₁, hb₁, rfl⟩ := exists_unit (by decide) hhours
  obtain ⟨p₂, hminutes, h⟩ := bind_eq_ok.mp h
  obtain ⟨om, s₂, rfl, hmark₂, hb₂, rfl⟩ := exists_unit (by decide) hminutes
  obtain ⟨p₃, hseconds, h⟩ := bind_eq_ok.mp h
  by_cases hl : p₃.l = -1
  · rw [if_pos hl] at h
    obtain rfl := Except.ok.inj h
    have hhnonneg := unitNumber_nonneg hb₁
    have hmnonneg := unitNumber_nonneg hb₂
    have hbh : Bounded days 595 23 oh := bounded_congr hb₁ (by omega)
    have hbm : Bounded (days + unitNumber oh) 35790 59 om := bounded_congr hb₂ (by omega)
    rcases exists_seconds hseconds hparsed with ⟨hS, hpoint, heq⟩ | ⟨s, tail, rfl, hb₃⟩
    · refine ⟨⟨oh, om, none⟩, s₂, rfl, ⟨hbh, hbm, fun a ha => ?_⟩, fun _ =>
        ⟨⟨hS, hpoint⟩, hmark₂, fun hnone hnone' => ?_, ?_⟩⟩
      · cases ha
      · dsimp only at hnone hnone'
        have hmark := hmark₁ hnone
        rwa [hnone'] at hmark
      · rcases readAt_cases (false || oh.isSome || om.isSome)
          (p.result + unitNumber oh * 3600000 + unitNumber om * 60000) s₂ with
          ⟨a, rest, rfl, hr, hread⟩ | ⟨hconv, hread⟩
        · left
          rw [heq, hread] at hl
          rw [strtol_written a hr]
          exact ⟨rfl, hl⟩
        · right
          rw [heq, hread] at hparsed
          exact ⟨hconv, by simpa using hparsed⟩
    · have hbs : Bounded (days + unitNumber oh + unitNumber om) 2147482 59 (some s.whole) :=
        bounded_congr hb₃ (by omega)
      exact ⟨⟨oh, om, some s⟩, tail, rfl, ⟨hbh, hbm, hbs⟩, fun hnone => by cases hnone⟩
  · rw [if_neg hl] at h
    cases h

theorem date_days
    {a : Written} {s : Text}
    (hb : Bounded 0 23 23 (some a)) :
    date (a.text ++ 'D' :: s) =
      .ok ({ l := a.value, endPos := 'D' :: s, parsedSomething := true,
             result := 0 + a.value * 86400000 }, s) := by
  obtain ⟨hlo, hhi, -⟩ := hb a rfl
  have hclip : clipLong a.value = a.value :=
    clipLong_eq ((by decide : longMin ≤ 0).trans hlo) (hhi.trans (by decide))
  unfold date
  rw [strtoposl_eq]
  dsimp only
  rw [readAt_written (ends_cons (by decide)), hclip]
  dsimp only
  rw [if_neg (by simp), if_pos List.head?_cons, if_neg (by omega), if_neg (by omega),
    List.tail_cons]

theorem date_none
    {s : Text}
    (hconv : (strtol s).converted = false)
    (h : s.head? ≠ some 'Y' ∧ s.head? ≠ some 'M' ∧ s.head? ≠ some 'D') :
    date s = .ok ({ l := -1, endPos := s, parsedSomething := false, result := 0 }, s) := by
  unfold date
  rw [strtoposl_eq]
  dsimp only
  rw [readAt_of_not_converted hconv]
  dsimp only
  rw [if_neg (by simp [h.1, h.2.1]), if_neg h.2.2, if_neg Bool.false_ne_true]

/-- What the code takes as days are days. -/
theorem exists_date
    {s s' : Text}
    (h : date s = .ok (p, s')) :
    (∃ a, s = a.text ++ 'D' :: s' ∧ Bounded 0 23 23 (some a) ∧ p.result = a.value * 86400000) ∨
      (s' = s ∧ p.parsedSomething = false ∧ p.result = 0) := by
  unfold date at h
  rw [strtoposl_eq] at h
  dsimp only at h
  by_cases hlong : (readAt false 0 s).endPos.head? = some 'Y' ∨
      (readAt false 0 s).endPos.head? = some 'M'
  · rw [if_pos hlong] at h
    cases h
  rw [if_neg hlong] at h
  rcases readAt_cases false 0 s with ⟨a, rest, rfl, hr, heq⟩ | ⟨hconv, heq⟩
  · left
    rw [heq] at h
    dsimp only at h
    by_cases hD : rest.head? = some 'D'
    · rw [if_pos hD] at h
      by_cases hneg : clipLong a.value < 0
      · rw [if_pos hneg] at h
        cases h
      rw [if_neg hneg] at h
      by_cases hout : 23 < clipLong a.value
      · rw [if_pos hout] at h
        cases h
      rw [if_neg hout] at h
      have hclip := value_of_clipLong (by decide : (23 : Int) < longMax) (by omega) (not_lt.mp hout)
      obtain ⟨rest, rfl⟩ := List.head?_eq_some_iff.mp hD
      obtain ⟨rfl, rfl⟩ := Prod.mk.inj (Except.ok.inj h)
      refine ⟨a, rfl, fun c hc => ?_, ?_⟩
      · obtain rfl := Option.some.inj hc
        omega
      · dsimp only
        rw [hclip]
        omega
    · rw [if_neg hD, if_pos rfl] at h
      cases h
  · right
    rw [heq] at h
    dsimp only at h
    split at h
    · rw [if_pos (by decide)] at h
      cases h
    · rw [if_neg Bool.false_ne_true] at h
      obtain ⟨rfl, rfl⟩ := Prod.mk.inj (Except.ok.inj h)
      exact ⟨rfl, rfl, rfl⟩

/-- The days, if there are any. -/
theorem exists_days
    {s s' : Text}
    (h : date s = .ok (p, s')) :
    ∃ days : Option Written, s = withUnit 'D' days s' ∧ Bounded 0 23 23 days ∧
      p.result = unitNumber days * 86400000 ∧ (days = none → p.parsedSomething = false) := by
  rcases exists_date h with ⟨a, hs, hb, hresult⟩ | ⟨rfl, hflag, hresult⟩
  · exact ⟨some a, hs, hb, hresult, fun hnone => by cases hnone⟩
  · refine ⟨none, rfl, ?_, ?_, fun _ => hflag⟩
    · intro a ha
      cases ha
    · rw [hresult]
      rfl

end Sections

end ReltimeScan

section Whole

open ReltimeScan

variable {r : ReltimeReading} {tail : Text}

/-- What the code adds up for a reading. -/
def ReltimeReading.sum (r : ReltimeReading) : Int :=
  r.wholeMillis + r.fraction.elim 0 fractionAdded

/-- The part of `obix_reltime_to_long` behind the sign. -/
def reltimeBody (startPos : Text) : Except Int ReltimeScan :=
  if startPos.head? = some 'P' then do
    let (p, startPos) ← date startPos.tail
    let p ← if startPos.head? = some 'T' then p.time startPos.tail else .ok p
    if p.parsedSomething = false then .error (-1) else .ok p
  else .error (-1)

theorem obixReltimeToLong_eq
    (str : Text) :
    obixReltimeToLong str =
      (reltimeBody (if str.head? = some '-' then str.tail else str)).map fun p =>
        if str.head? = some '-' then asLong (-p.result) else p.result := by
  unfold obixReltimeToLong reltimeBody
  dsimp only
  generalize (if str.head? = some '-' then str.tail else str) = startPos
  by_cases hP : startPos.head? = some 'P'
  · rw [if_pos hP, if_pos hP]
    cases date startPos.tail with
    | error e => rfl
    | ok x =>
        obtain ⟨p, rest⟩ := x
        simp only [bind, Except.bind]
        by_cases hT : rest.head? = some 'T'
        · rw [if_pos hT, if_pos hT]
          cases p.time rest.tail with
          | error e => rfl
          | ok q =>
              dsimp only
              by_cases hparsed : q.parsedSomething = false
              · rw [if_pos hparsed, if_pos hparsed]
                rfl
              · rw [if_neg hparsed, if_neg hparsed]
                rfl
        · rw [if_neg hT, if_neg hT]
          by_cases hparsed : p.parsedSomething = false
          · rw [if_pos hparsed, if_pos hparsed]
            rfl
          · rw [if_neg hparsed, if_neg hparsed]
            rfl
  · rw [if_neg hP, if_neg hP]
    rfl

theorem reltimeBody_before
    (h : r.Accepted tail) :
    ∃ p, reltimeBody ('P' :: withUnit 'D' r.days (withTime r.time tail)) = .ok p ∧
      p.result = r.sum := by
  have hdays : 0 ≤ unitNumber r.days := unitNumber_nonneg h.bounds.days
  unfold reltimeBody
  rw [if_pos List.head?_cons, List.tail_cons]
  simp only [bind, Except.bind]
  cases hd : r.days with
  | some a =>
      have hb := h.bounds.days
      rw [hd] at hb
      rw [withUnit, date_days hb]
      dsimp only
      cases ht : r.time with
      | none =>
          rw [withTime, if_neg (h.noTime ht), if_neg (by decide)]
          refine ⟨_, rfl, ?_⟩
          simp [ReltimeReading.sum, ReltimeReading.wholeMillis, ReltimeReading.fraction, hd, ht,
            unitNumber]
      | some t =>
          obtain ⟨q, hq, hparsed, hvalue⟩ := time_before
            (p := { l := a.value, endPos := 'D' :: withTime (some t) tail, parsedSomething := true,
                    result := 0 + a.value * 86400000 })
            hdays (by rw [hd]; simp [unitNumber]) (h.bounds.time t ht) (h.noSeconds t ht)
          rw [if_pos (show (withTime (some t) tail).head? = some 'T' from rfl),
            show (withTime (some t) tail).tail = t.before tail from rfl, hq]
          dsimp only
          rw [if_neg (by rw [hparsed]; decide)]
          refine ⟨q, rfl, ?_⟩
          rw [hvalue]
          simp only [ReltimeReading.sum, ReltimeReading.wholeMillis, ReltimeReading.fraction, hd, ht,
            unitNumber, Option.elim_some, Option.bind_some]
          omega
  | none =>
      obtain ⟨t, ht⟩ := Option.isSome_iff_exists.mp (h.nonempty.resolve_left (by simp [hd]))
      have hT := strtol_none (c := 'T') (by decide) (by decide) (by decide) (by decide)
        (t.before tail)
      obtain ⟨q, hq, hparsed, hvalue⟩ := time_before
        (p := { l := -1, endPos := 'T' :: t.before tail, parsedSomething := false, result := 0 })
        hdays (by rw [hd]; simp [unitNumber]) (h.bounds.time t ht) (h.noSeconds t ht)
      rw [ht, withUnit, withTime, date_none (by rw [hT]) (by simp)]
      dsimp only
      rw [if_pos List.head?_cons, List.tail_cons, hq]
      dsimp only
      rw [if_neg (by rw [hparsed]; decide)]
      refine ⟨q, rfl, ?_⟩
      rw [hvalue]
      simp only [ReltimeReading.sum, ReltimeReading.wholeMillis, ReltimeReading.fraction, hd, ht,
        unitNumber, Option.elim_some, Option.elim_none, Option.bind_some]
      omega

/-- What the code makes of a reading. -/
theorem obixReltimeToLong_before
    (h : r.Accepted tail) :
    obixReltimeToLong (r.before tail) = .ok (if r.negative then asLong (-r.sum) else r.sum) := by
  obtain ⟨p, hp, hsum⟩ := reltimeBody_before h
  rw [obixReltimeToLong_eq, ReltimeReading.before]
  cases hneg : r.negative with
  | true =>
      rw [if_pos rfl, if_pos rfl, List.singleton_append, if_pos List.head?_cons, List.tail_cons, hp,
        ← hsum]
      exact congrArg Except.ok (if_pos List.head?_cons)
  | false =>
      rw [if_neg Bool.false_ne_true, if_neg Bool.false_ne_true, List.nil_append]
      rw [if_neg (by simp), hp, ← hsum]
      exact congrArg Except.ok (if_neg (by simp))

theorem exists_accepted_of_reltimeBody
    {startPos : Text} {p : ReltimeScan}
    (h : reltimeBody startPos = .ok p)
    (negative : Bool) :
    ∃ (r : ReltimeReading) (tail : Text), r.Accepted tail ∧ r.negative = negative ∧
      startPos = 'P' :: withUnit 'D' r.days (withTime r.time tail) := by
  unfold reltimeBody at h
  by_cases hP : startPos.head? = some 'P'
  · obtain ⟨s, rfl⟩ := List.head?_eq_some_iff.mp hP
    rw [if_pos hP, List.tail_cons] at h
    obtain ⟨⟨q, rest⟩, hdate, hrest⟩ := bind_eq_ok.mp h
    obtain ⟨days, rfl, hb, hresult, hflag⟩ := exists_days hdate
    dsimp only at hrest
    by_cases hT : rest.head? = some 'T'
    · obtain ⟨start, rfl⟩ := List.head?_eq_some_iff.mp hT
      rw [if_pos hT, List.tail_cons] at hrest
      obtain ⟨p', htime, hok⟩ := bind_eq_ok.mp hrest
      by_cases hparsed : p'.parsedSomething = false
      · rw [if_pos hparsed] at hok
        cases hok
      obtain ⟨t, tail, rfl, hbounds, hstops⟩ := exists_time (unitNumber_nonneg hb) hresult
        htime (Bool.not_eq_false _ ▸ hparsed)
      refine ⟨⟨negative, days, some t⟩, tail, ⟨⟨hb, ?_⟩, .inr rfl, ?_, ?_⟩, rfl, rfl⟩
      · intro t' ht'
        obtain rfl := Option.some.inj ht'
        exact hbounds
      · intro hnone
        cases hnone
      · intro t' ht'
        obtain rfl := Option.some.inj ht'
        exact hstops
    · rw [if_neg hT] at hrest
      obtain ⟨p', hq, hok⟩ := bind_eq_ok.mp hrest
      obtain rfl := Except.ok.inj hq
      by_cases hparsed : q.parsedSomething = false
      · rw [if_pos hparsed] at hok
        cases hok
      refine ⟨⟨negative, days, none⟩, rest, ⟨⟨hb, ?_⟩, .inl ?_, fun _ => hT, ?_⟩, rfl, rfl⟩
      · intro t ht
        cases ht
      · rw [Option.isSome_iff_ne_none]
        exact fun hnone => hparsed (hflag hnone)
      · intro t ht
        cases ht
  · rw [if_neg hP] at h
    cases h

/-- The code accepts the texts that have a reading that passes its checks. -/
theorem obixReltimeToLong_ok_iff
    {str : Text} :
    (∃ d, obixReltimeToLong str = .ok d) ↔
      ∃ (r : ReltimeReading) (tail : Text), r.Accepted tail ∧ r.before tail = str := by
  constructor
  · rintro ⟨d, hd⟩
    rw [obixReltimeToLong_eq] at hd
    by_cases hneg : str.head? = some '-'
    · obtain ⟨s, rfl⟩ := List.head?_eq_some_iff.mp hneg
      rw [if_pos hneg, List.tail_cons] at hd
      cases hbody : reltimeBody s with
      | error e =>
          rw [hbody] at hd
          cases hd
      | ok p =>
          obtain ⟨r, tail, hr, hnegative, rfl⟩ := exists_accepted_of_reltimeBody hbody true
          refine ⟨r, tail, hr, ?_⟩
          rw [ReltimeReading.before, hnegative]
          rfl
    · rw [if_neg hneg] at hd
      cases hbody : reltimeBody str with
      | error e =>
          rw [hbody] at hd
          cases hd
      | ok p =>
          obtain ⟨r, tail, hr, hnegative, rfl⟩ := exists_accepted_of_reltimeBody hbody false
          refine ⟨r, tail, hr, ?_⟩
          rw [ReltimeReading.before, hnegative]
          rfl
  · rintro ⟨r, tail, hr, rfl⟩
    exact ⟨_, obixReltimeToLong_before hr⟩

end Whole

end Obix
