import Obix.Lib.Numerals
import Obix.Utils.Reltime

/-!
# The text of a relative time

What `obix_reltime_from_long` prints is in the grammar of durations, and denotes
its argument, unless the fraction of the seconds has less than three digits: it
is then filled up with blanks (`obixReltimeFromLong_denotes_iff`).

The text fits its buffer unless there is a fraction of less than a second and
the other numbers leave no room: the `0` before the point and the blanks are
not counted (`obixReltimeFromLong_fits_iff`).
-/

namespace Obix

open CString Duration

section Literals

variable {s : Span}

/-- A number that is written unless it is zero. -/
def numeralOf (n : Nat) : Option Numeral :=
  if 0 < n then some (Numeral.ofNat n) else none

/-- A fraction of three digits. -/
def thousandthsOf (n : Nat) : Option Thousandths :=
  if h : (Nat.toDigits 10 n).length = 3 then some { Numeral.ofNat n with length_eq := h } else none

/-- The seconds of a span. -/
def secondsOf (s : Span) : Option Duration.Seconds :=
  if 0 < s.seconds ∨ 0 < s.millis then
    some { whole := Numeral.ofNat s.seconds, fraction := thousandthsOf s.millis }
  else none

/-- The time section of a span. -/
def timeOf (s : Span) : Option Time :=
  if h : (numeralOf s.hours).isSome ∨ (numeralOf s.minutes).isSome ∨ (secondsOf s).isSome then
    some { hours := numeralOf s.hours, minutes := numeralOf s.minutes, seconds := secondsOf s,
           nonempty := h }
  else none

/-- The literal of a span. -/
def literalOf
    (negative : Bool)
    (s : Span) :
    Literal :=
  { negative := negative, days := numeralOf s.days, time := timeOf s }

/-- The fractions that are printed with three digits. -/
def WholeFraction (s : Span) : Prop :=
  s.millis = 0 ∨ (100 ≤ s.millis ∧ s.millis < 1000)

theorem unitText_numeralOf
    (n : Nat)
    (letter : Char) :
    unitText letter (numeralOf n) = ReltimeFields.printUnit n letter := by
  by_cases hn : 0 < n <;> simp [numeralOf, hn, unitText, ReltimeFields.printUnit, Numeral.ofNat]

theorem unitValue_numeralOf (n : Nat) : unitValue (numeralOf n) = n := by
  by_cases hn : 0 < n
  · simp [numeralOf, hn, unitValue]
  · simp [numeralOf, unitValue, show n = 0 by omega]

/-- A number has three digits when it is below a thousand, but not below a hundred. -/
theorem length_toDigits_eq_three
    {n : Nat} :
    (Nat.toDigits 10 n).length = 3 ↔ 100 ≤ n ∧ n < 1000 := by
  have h2 := @Nat.length_toDigits_le_iff 10 n 2 (by omega) (by omega)
  have h3 := @Nat.length_toDigits_le_iff 10 n 3 (by omega) (by omega)
  omega

theorem secondsText_secondsOf
    (h : WholeFraction s)
    (negative : Bool) :
    secondsText (secondsOf s) = (fieldsOf negative s).printSeconds := by
  rcases h with hms | ⟨hlo, hhi⟩
  · by_cases hs : 0 < s.seconds
    · simp [secondsOf, hms, hs, secondsText, fractionText, thousandthsOf,
        ReltimeFields.printSeconds, fieldsOf, Numeral.ofNat]
    · simp [secondsOf, hms, hs, secondsText, ReltimeFields.printSeconds, fieldsOf]
  · have hlen : (Nat.toDigits 10 s.millis).length = 3 := length_toDigits_eq_three.mpr ⟨hlo, hhi⟩
    have hms : 0 < s.millis := by omega
    simp [secondsOf, hms, hlen, secondsText, fractionText, thousandthsOf,
      ReltimeFields.printSeconds, fieldsOf, Numeral.ofNat, List.leftpad]

theorem value_secondsOf
    (h : WholeFraction s) :
    (secondsOf s).elim 0 Seconds.value = s.seconds + s.millis / 1000 := by
  rcases h with hms | ⟨hlo, hhi⟩
  · by_cases hs : 0 < s.seconds
    · simp [secondsOf, hms, hs, Seconds.value, thousandthsOf]
    · simp [secondsOf, hms, show s.seconds = 0 by omega]
  · have hlen : (Nat.toDigits 10 s.millis).length = 3 := length_toDigits_eq_three.mpr ⟨hlo, hhi⟩
    have hms : 0 < s.millis := by omega
    have hvalue : Numeral.value { Numeral.ofNat s.millis with } = s.millis :=
      Numeral.value_ofNat s.millis
    simp [secondsOf, hms, hlen, Seconds.value, thousandthsOf, hvalue]

/-- The literal of a span has a time section when the code prints one. -/
theorem hasTime_fieldsOf
    (negative : Bool)
    (s : Span) :
    (fieldsOf negative s).hasTime = true ↔
      (numeralOf s.hours).isSome ∨ (numeralOf s.minutes).isSome ∨ (secondsOf s).isSome := by
  have hnumeral : ∀ n, (numeralOf n).isSome = true ↔ 0 < n := by
    intro n
    by_cases hn : 0 < n <;> simp [numeralOf, hn]
  have hseconds : (secondsOf s).isSome = true ↔ 0 < s.seconds ∨ 0 < s.millis := by
    unfold secondsOf
    split <;> simp_all
  rw [hnumeral, hnumeral, hseconds]
  simp only [ReltimeFields.hasTime, fieldsOf, Bool.or_eq_true, decide_eq_true_eq, Nat.cast_pos]
  omega

theorem timeText_timeOf
    (h : WholeFraction s)
    (negative : Bool) :
    timeText (timeOf s) = (if (fieldsOf negative s).hasTime then ['T'] else []) ++
      (ReltimeFields.printUnit s.hours 'H' ++ (ReltimeFields.printUnit s.minutes 'M' ++
        (fieldsOf negative s).printSeconds)) := by
  rw [← unitText_numeralOf, ← unitText_numeralOf, ← secondsText_secondsOf h]
  by_cases hsome : (numeralOf s.hours).isSome ∨ (numeralOf s.minutes).isSome ∨ (secondsOf s).isSome
  · rw [timeOf, dif_pos hsome, if_pos ((hasTime_fieldsOf negative s).mpr hsome)]
    rfl
  · rw [timeOf, dif_neg hsome, if_neg fun htime => hsome ((hasTime_fieldsOf negative s).mp htime)]
    simp only [not_or, Bool.not_eq_true, Option.isSome_eq_false_iff,
      Option.isNone_iff_eq_none] at hsome
    obtain ⟨hhours, hminutes, hseconds⟩ := hsome
    rw [hhours, hminutes, hseconds]
    rfl

/-- The literal of a span has its text. -/
theorem text_literalOf
    (h : WholeFraction s)
    (negative : Bool) :
    (literalOf negative s).text = (fieldsOf negative s).print := by
  unfold Literal.text literalOf ReltimeFields.print
  rw [unitText_numeralOf, timeText_timeOf h negative]
  rfl

theorem value_timeOf
    (h : WholeFraction s) :
    (timeOf s).elim 0 Time.value =
      s.hours * 3600 + s.minutes * 60 + (s.seconds + (s.millis : ℚ) / 1000) := by
  rw [← unitValue_numeralOf, ← unitValue_numeralOf, ← value_secondsOf h]
  by_cases hsome : (numeralOf s.hours).isSome ∨ (numeralOf s.minutes).isSome ∨ (secondsOf s).isSome
  · rw [timeOf, dif_pos hsome]
    rfl
  · rw [timeOf, dif_neg hsome]
    simp only [not_or, Bool.not_eq_true, Option.isSome_eq_false_iff,
      Option.isNone_iff_eq_none] at hsome
    obtain ⟨hhours, hminutes, hseconds⟩ := hsome
    simp [hhours, hminutes, hseconds, unitValue]

/-- The literal of a span has its value. -/
theorem value_literalOf
    (h : WholeFraction s)
    (negative : Bool) :
    (literalOf negative s).value = (if negative then -1 else 1) * ((s.total : ℚ) / 1000) := by
  unfold Literal.value literalOf
  simp only [unitValue_numeralOf, value_timeOf h, Span.total]
  push_cast
  ring

end Literals

section Grammar

variable {s : Span}

/-- A short fraction is filled up with blanks. -/
theorem blank_mem_print
    (hpos : 0 < s.millis)
    (hshort : s.millis < 100)
    (negative : Bool) :
    ' ' ∈ (fieldsOf negative s).print := by
  have hlen : (Nat.toDigits 10 s.millis).length ≤ 2 :=
    (Nat.length_toDigits_le_iff (by omega) (by omega)).mpr hshort
  have hpad : ¬ 3 - (Nat.toDigits 10 s.millis).length = 0 := by omega
  have hseconds : ' ' ∈ (fieldsOf negative s).printSeconds := by
    simp [ReltimeFields.printSeconds, fieldsOf, hpos, hpad]
  simp [ReltimeFields.print, hseconds]

/-- The text of no time at all denotes it. -/
theorem denotes_obixReltimeZero : Denotes obixReltimeZero 0 := by
  refine ⟨{ negative := false, days := none
            time := some { hours := none, minutes := none
                           seconds := some { whole := Numeral.ofNat 0, fraction := none }
                           nonempty := by simp } }, rfl, ?_⟩
  simp [Literal.value, Time.value, Seconds.value, unitValue]

/-- What is printed for a number other than zero. -/
theorem obixReltimeFromLong_eq_print
    {m : Int} {format : ReltimeFormat}
    (h : |m| ≤ 2073599999)
    (hzero : m ≠ 0) :
    obixReltimeFromLong m format =
      (fieldsOf (decide (m < 0)) (format.span m.natAbs)).print := by
  obtain ⟨hlo, hhi⟩ := abs_le.mp h
  unfold obixReltimeFromLong
  rw [if_neg hzero, reltimeFields_eq (by omega)]

theorem millis_span
    (format : ReltimeFormat)
    (n : Nat) :
    (format.span n).millis = n % 1000 := by
  cases format <;> rfl

/-- The text of a relative time denotes it if the fraction is zero or has three digits. -/
theorem denotes_obixReltimeFromLong
    {m : Int}
    (format : ReltimeFormat)
    (h : |m| ≤ 2073599999)
    (hfraction : |m| % 1000 = 0 ∨ 100 ≤ |m| % 1000) :
    Denotes (obixReltimeFromLong m format) ((m : ℚ) / 1000) := by
  by_cases hzero : m = 0
  · simpa [hzero, obixReltimeFromLong] using denotes_obixReltimeZero
  have hmillis := millis_span format m.natAbs
  have habs : |m| = (m.natAbs : Int) := Int.abs_eq_natAbs m
  have hwhole : WholeFraction (format.span m.natAbs) := by
    unfold WholeFraction
    omega
  rw [obixReltimeFromLong_eq_print h hzero]
  refine ⟨literalOf (m < 0) (format.span m.natAbs), text_literalOf hwhole _, ?_⟩
  rw [value_literalOf hwhole, ReltimeFormat.total_span]
  rw [Nat.cast_natAbs]
  by_cases hneg : m < 0
  · rw [abs_of_neg hneg, if_pos (decide_eq_true hneg)]
    push_cast
    ring
  · rw [abs_of_nonneg (by omega), if_neg (by simpa using hneg), one_mul]

/-- Two relative times with such fractions have different texts, whatever formats they
are printed in. -/
theorem obixReltimeFromLong_injective
    {m m' : Int} {format format' : ReltimeFormat}
    (h : |m| ≤ 2073599999)
    (h' : |m'| ≤ 2073599999)
    (hfraction : |m| % 1000 = 0 ∨ 100 ≤ |m| % 1000)
    (hfraction' : |m'| % 1000 = 0 ∨ 100 ≤ |m'| % 1000)
    (htext : obixReltimeFromLong m format = obixReltimeFromLong m' format') :
    m = m' := by
  have hm := denotes_obixReltimeFromLong format h hfraction
  have hm' := denotes_obixReltimeFromLong format' h' hfraction'
  rw [htext] at hm
  have hvalue : (m : ℚ) = m' := by
    have := hm.unique hm'
    linarith
  exact_mod_cast hvalue

/-- The text of a relative time is in the grammar and denotes it when the
fraction is zero or has three digits. -/
theorem obixReltimeFromLong_denotes_iff
    (m : Int)
    (format : ReltimeFormat)
    (h : |m| ≤ 2073599999) :
    Denotes (obixReltimeFromLong m format) ((m : ℚ) / 1000) ↔
      |m| % 1000 = 0 ∨ 100 ≤ |m| % 1000 := by
  refine ⟨?_, denotes_obixReltimeFromLong format h⟩
  rintro ⟨l, hl, -⟩
  by_contra hshort
  have hmillis := millis_span format m.natAbs
  have habs : |m| = (m.natAbs : Int) := Int.abs_eq_natAbs m
  have hzero : m ≠ 0 := by omega
  rw [obixReltimeFromLong_eq_print h hzero] at hl
  refine l.blank_not_mem (hl ▸ blank_mem_print ?_ ?_ _)
  · omega
  · omega

/-- A span with a fraction of three digits, and one without. -/
theorem obixReltimeFromLong_denotes_iff_day :
    |(-90061250 : Int)| ≤ 2073599999 ∧
      (Denotes (obixReltimeFromLong (-90061250) .day) (((-90061250 : Int) : ℚ) / 1000) ↔
        |(-90061250 : Int)| % 1000 = 0 ∨ 100 ≤ |(-90061250 : Int)| % 1000) :=
  ⟨by decide, obixReltimeFromLong_denotes_iff (-90061250) .day (by decide)⟩

/-- Fifty milliseconds are printed as `PT0. 50S`. -/
theorem obixReltimeFromLong_blank :
    |(50 : Int)| ≤ 2073599999 ∧
      ¬ Denotes (obixReltimeFromLong 50 .sec) (((50 : Int) : ℚ) / 1000) := by
  have htext : obixReltimeFromLong 50 .sec = "PT0. 50S".toList := by decide +kernel
  refine ⟨by decide, ?_⟩
  rintro ⟨l, hl, -⟩
  exact l.blank_not_mem (hl ▸ htext ▸ by decide)

end Grammar

section Buffer

variable {s : Span}

/-- The number of larger units that a text of a span has. -/
def largerUnits (s : Span) : Nat :=
  (if 0 < s.days then 1 else 0) + (if 0 < s.hours then 1 else 0) + (if 0 < s.minutes then 1 else 0)

/-- The spans whose text fits the buffer. -/
def Fits (s : Span) : Prop :=
  s.millis = 0 ∨ 0 < s.seconds ∨ 4 ≤ largerUnits s + (Nat.toDigits 10 s.millis).length

/-- The table of `long_len` holds the largest number of each length. -/
theorem getElem_longLenSize
    {k : Nat}
    (hk : k < 10)
    (hlen : k < longLenSize.length) :
    longLenSize[k] = ((10 ^ k - 1 : Nat) : Int) := by
  revert k
  decide

theorem longLen_natCast
    {n : Nat}
    (hpos : 0 < n)
    (hn : n < 10 ^ 9) :
    longLen n = (Nat.toDigits 10 n).length + 1 := by
  have hlen : ∀ k, 0 < k → ((Nat.toDigits 10 n).length ≤ k ↔ n < 10 ^ k) :=
    fun k hk => Nat.length_toDigits_le_iff (by omega) hk
  have hdigits : 0 < (Nat.toDigits 10 n).length := Nat.length_toDigits_pos
  have hnine : (Nat.toDigits 10 n).length ≤ 9 := (hlen 9 (by omega)).mpr hn
  have hfits : n < 10 ^ (Nat.toDigits 10 n).length := (hlen _ hdigits).mp le_rfl
  generalize (Nat.toDigits 10 n).length = len at hlen hdigits hnine hfits ⊢
  have hlonger : ∀ j, j < len → 10 ^ j ≤ n := by
    intro j hj
    rcases Nat.eq_zero_or_pos j with rfl | hj0
    · simpa using Nat.succ_le_of_lt hpos
    · by_contra hlt
      have := (hlen j hj0).mpr (by omega)
      omega
  have hfind : longLenSize.findIdx ((n : Int) ≤ ·) = len := by
    have hlt : len < longLenSize.length := lt_of_le_of_lt hnine (by decide)
    rw [List.findIdx_eq hlt, getElem_longLenSize (by omega)]
    refine ⟨decide_eq_true (Int.ofNat_le.mpr (by omega)), fun j hj => ?_⟩
    have := hlonger j hj
    rw [getElem_longLenSize (by omega)]
    simp only [decide_eq_false_iff_not, not_le, Nat.cast_lt]
    omega
  unfold longLen
  simp only [hfind]
  rw [if_neg (by omega)]

/-- What is counted for a number is one more than what is printed for it. -/
theorem numberSize_natCast
    {n : Nat}
    (hn : n < 10 ^ 9)
    (letter : Char) :
    ReltimeFields.numberSize n =
      (ReltimeFields.printUnit n letter).length + (if 0 < n then 1 else 0) := by
  by_cases hpos : 0 < n
  · simp [ReltimeFields.numberSize, ReltimeFields.printUnit, hpos, longLen_natCast hpos hn]
  · simp [ReltimeFields.numberSize, ReltimeFields.printUnit, hpos]

/-- The `0` before a point and the blanks behind it are not counted. -/
theorem length_printSeconds_le_iff
    (hseconds : s.seconds < 10 ^ 9)
    (hmillis : s.millis < 1000)
    (negative : Bool)
    (k : Nat) :
    (fieldsOf negative s).printSeconds.length ≤
        ReltimeFields.numberSize s.millis + ReltimeFields.numberSize s.seconds + k ↔
      s.millis = 0 ∨ 0 < s.seconds ∨ 4 ≤ k + (Nat.toDigits 10 s.millis).length := by
  rcases Nat.eq_zero_or_pos s.millis with hms | hms
  · by_cases hs : 0 < s.seconds
    · have hsize := longLen_natCast hs hseconds
      simp [ReltimeFields.printSeconds, ReltimeFields.numberSize, fieldsOf, hms, hs, hsize]
      omega
    · simp [ReltimeFields.printSeconds, fieldsOf, hms, hs]
  · have hsize := longLen_natCast hms (by omega)
    have hdigits : (Nat.toDigits 10 s.millis).length ≤ 3 :=
      (Nat.length_toDigits_le_iff (by omega) (by omega)).mpr hmillis
    have hpos : 0 < (Nat.toDigits 10 s.millis).length := Nat.length_toDigits_pos
    have hprinted : (fieldsOf negative s).printSeconds.length =
        (Nat.toDigits 10 s.seconds).length + 5 := by
      simp [ReltimeFields.printSeconds, fieldsOf, hms]
      omega
    rw [hprinted]
    by_cases hs : 0 < s.seconds
    · simp [ReltimeFields.numberSize, hms, hs, hsize, longLen_natCast hs hseconds]
      omega
    · simp [ReltimeFields.numberSize, hms, hsize, show s.seconds = 0 by omega]
      omega

/-- The text of a span fits what is counted for it. -/
theorem length_print_le_iff
    (hs : s.days < 10 ^ 9 ∧ s.hours < 10 ^ 9 ∧ s.minutes < 10 ^ 9 ∧ s.seconds < 10 ^ 9)
    (hmillis : s.millis < 1000)
    (negative : Bool) :
    (fieldsOf negative s).print.length ≤ (fieldsOf negative s).stringSize ↔ Fits s := by
  obtain ⟨hdays, hhours, hminutes, hseconds⟩ := hs
  have hsecs := length_printSeconds_le_iff hseconds hmillis negative (largerUnits s)
  have hsize : (fieldsOf negative s).stringSize = 1 + (if negative then 1 else 0) +
      ReltimeFields.numberSize s.millis + ReltimeFields.numberSize s.seconds +
      ReltimeFields.numberSize s.minutes + ReltimeFields.numberSize s.hours +
      ReltimeFields.numberSize s.days + (if (fieldsOf negative s).hasTime then 1 else 0) := rfl
  have hprint : (fieldsOf negative s).print.length = (if negative then 1 else 0) + 1 +
      (ReltimeFields.printUnit s.days 'D').length +
      (if (fieldsOf negative s).hasTime then 1 else 0) +
      (ReltimeFields.printUnit s.hours 'H').length +
      (ReltimeFields.printUnit s.minutes 'M').length +
      (fieldsOf negative s).printSeconds.length := by
    have hflag : ∀ (b : Bool) (c : Char), (if b then [c] else []).length = if b then 1 else 0 := by
      intro b c
      cases b <;> rfl
    have hshape : (fieldsOf negative s).print = (if negative then ['-'] else []) ++
        'P' :: (ReltimeFields.printUnit s.days 'D' ++
          ((if (fieldsOf negative s).hasTime then ['T'] else []) ++
            (ReltimeFields.printUnit s.hours 'H' ++ (ReltimeFields.printUnit s.minutes 'M' ++
              (fieldsOf negative s).printSeconds)))) := rfl
    rw [hshape]
    simp only [List.length_append, List.length_cons, hflag]
    omega
  rw [numberSize_natCast hdays 'D', numberSize_natCast hhours 'H',
    numberSize_natCast hminutes 'M'] at hsize
  rw [Fits, ← hsecs, hprint, hsize, largerUnits]
  omega

/-- The text of a relative time fits its buffer. -/
theorem obixReltimeFromLong_fits_iff
    (m : Int)
    (format : ReltimeFormat)
    (h : |m| ≤ 2 ^ 31 - 1) :
    (obixReltimeFromLong m format).length + 1 ≤ reltimeAllocated m format ↔
      Fits (format.span m.natAbs) := by
  unfold obixReltimeFromLong reltimeAllocated
  by_cases hzero : m = 0
  · have hmillis : (format.span m.natAbs).millis = 0 := by rw [millis_span, hzero]; rfl
    simp [hzero, obixReltimeZero, obixReltimeZeroLen]
    exact Or.inl (by simpa [hzero] using hmillis)
  · obtain ⟨hlo, hhi⟩ := abs_le.mp h
    rw [if_neg hzero, if_neg hzero, reltimeFields_eq h, Nat.add_le_add_iff_right]
    refine length_print_le_iff ?_ ?_ _
    · cases format <;> simp only [ReltimeFormat.span] <;> omega
    · cases format <;> simp only [ReltimeFormat.span] <;> omega

/-- A span of a day and some milliseconds. -/
theorem obixReltimeFromLong_fits_iff_day :
    |(86400005 : Int)| ≤ 2 ^ 31 - 1 ∧
      ((obixReltimeFromLong 86400005 .day).length + 1 ≤ reltimeAllocated 86400005 .day ↔
        Fits (ReltimeFormat.day.span (86400005 : Int).natAbs)) :=
  ⟨by decide, obixReltimeFromLong_fits_iff 86400005 .day (by decide)⟩

/-- Half a second takes nine bytes, of which eight are allocated. -/
theorem obixReltimeFromLong_overruns :
    |(500 : Int)| ≤ 2 ^ 31 - 1 ∧
      ¬ (obixReltimeFromLong 500 .sec).length + 1 ≤ reltimeAllocated 500 .sec := by
  decide +kernel

end Buffer

end Obix
