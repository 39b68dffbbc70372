import Obix.Lib.Numerals
import Obix.Utils.Reltime

/-!
# Reading a printed relative time

`obix_reltime_to_long` reads back what `obix_reltime_from_long` prints.  Each
step of the reader undoes one part of the text: it counts the number of the
part and stops before what follows.  The blanks that fill up a short fraction
count as characters of it, so they scale it as zeros would.
-/

namespace Obix

open CString Duration

namespace ReltimeScan

variable {q : ReltimeScan} {c : Char} {n : Nat} {t : Text}

/-- A scan that has counted a number of a unit. -/
def count
    (q : ReltimeScan)
    (n : Nat)
    (millis : Int) :
    ReltimeScan :=
  { q with parsedSomething := q.parsedSomething || 0 < n, result := q.result + n * millis }

theorem endPos_strtoposl
    (q : ReltimeScan)
    (t : Text) :
    (q.strtoposl t).endPos = (strtol t).rest := by
  unfold strtoposl strtol
  dsimp only
  repeat' split
  all_goals simp_all

theorem strtoposl_toDigits
    (hmax : (n : Int) ≤ longMax)
    (hc : c.isDigit = false)
    (q : ReltimeScan)
    (r : Text) :
    q.strtoposl (Nat.toDigits 10 n ++ c :: r) =
      { q with l := n, endPos := c :: r, parsedSomething := true } := by
  simp [strtoposl, strtol_toDigits hmax hc]

/-- The letter that is met after a printed unit. -/
theorem head_printUnit
    (hmax : (n : Int) ≤ longMax)
    (hc : c.isDigit = false)
    (t : Text) :
    (strtol (ReltimeFields.printUnit n c ++ t)).rest.head? =
      if 0 < n then some c else (strtol t).rest.head? := by
  by_cases hn : 0 < n
  · simp [ReltimeFields.printUnit, hn, strtol_toDigits hmax hc]
  · simp [ReltimeFields.printUnit, hn]

/-- A printed unit is read back and counted. -/
theorem unit_printUnit
    {alone rest : Int}
    (hc : c.isDigit = false)
    (hn : (n : Int) ≤ alone)
    (halone : alone ≤ longMax)
    (hrest : 0 < q.result → (n : Int) ≤ rest)
    (ht : (strtol t).rest.head? ≠ some c)
    (millis : Int) :
    unit c alone rest millis (q.strtoposl (ReltimeFields.printUnit n c ++ t)) =
      .ok ((q.count n millis).strtoposl t) := by
  rcases Nat.eq_zero_or_pos n with rfl | hpos
  · have hhead : (q.strtoposl t).endPos.head? ≠ some c := by
      rwa [endPos_strtoposl]
    simp [ReltimeFields.printUnit, unit, hhead, count]
  · have hprint : ReltimeFields.printUnit n c ++ t = Nat.toDigits 10 n ++ c :: t := by
      simp [ReltimeFields.printUnit, hpos]
    rw [hprint, strtoposl_toDigits (hn.trans halone) hc]
    have hbound : ¬ (alone < (n : Int) ∨ (0 < q.result ∧ rest < (n : Int))) := by
      rintro (h | ⟨hres, h⟩)
      · omega
      · have := hrest hres
        omega
    simp only [unit, List.head?_cons, if_true, List.tail_cons]
    rw [if_neg (by omega), if_neg hbound]
    simp [count, hpos, strtoposl]

theorem dropSmall_of_le
    {l : Int}
    (h : l ≤ 1000) :
    dropSmall l = l := by
  rw [dropSmall, if_neg (by omega)]

/-- A printed fraction is read back, with the blanks before it. -/
theorem fraction_leftpad
    (hn : n < 1000)
    (q : ReltimeScan) :
    q.fraction (List.leftpad 3 ' ' (Nat.toDigits 10 n) ++ ['S']) =
      .ok { q with l := n, endPos := ['S'], parsedSomething := true, result := q.result + n } := by
  have hlen : (Nat.toDigits 10 n).length ≤ 3 :=
    (Nat.length_toDigits_le_iff (by omega) (by omega)).mpr (by omega)
  have hmax : (n : Int) ≤ longMax := by
    have : (1000 : Int) ≤ longMax := by decide
    omega
  have hread : strtol (List.leftpad 3 ' ' (Nat.toDigits 10 n) ++ ['S']) =
      { value := n, erange := false, rest := ['S'], converted := true } := by
    have hdigits := @strtol_toDigits n 'S' hmax (by decide) []
    rw [List.leftpad, List.append_assoc, strtol_blanks (by rw [hdigits]), hdigits]
  have hwidth : asInt (((List.leftpad 3 ' ' (Nat.toDigits 10 n) ++ ['S']).length : Int) -
      (['S'] : Text).length) = 3 := by
    have : (List.leftpad 3 ' ' (Nat.toDigits 10 n)).length = 3 := by
      rw [List.length_leftpad]
      omega
    rw [List.length_append, this]
    rfl
  simp only [fraction, strtoposl, hread, if_true, hwidth, List.head?_cons]
  rw [dropSmall_of_le (by omega)]
  have hlong : asLong ((n : Int) * 10 ^ ((3 - 3 : Int).toNat)) = n := by
    rw [show (n : Int) * 10 ^ ((3 - 3 : Int).toNat) = n by simp]
    exact asLong_eq (by omega) (by omega)
  rw [hlong]


variable {s : Span} {negativeFlag : Bool}

/-- Printed seconds are read back and counted. -/
theorem seconds_printSeconds
    (hmillis : s.millis < 1000)
    (hseconds : s.seconds ≤ 2147482)
    (hrest : 0 < q.result → s.seconds ≤ 59)
    (negativeFlag : Bool) :
    ∃ e, (q.strtoposl (fieldsOf negativeFlag s).printSeconds).seconds =
      .ok { (q.count s.seconds 1000).count s.millis 1 with l := -1, endPos := e } := by
  have hmax : (s.seconds : Int) ≤ longMax := by
    have : (2147482 : Int) ≤ longMax := by decide
    omega
  have hbound : ¬ (2147482 < (s.seconds : Int) ∨ (0 < q.result ∧ 59 < (s.seconds : Int))) := by
    rintro (h | ⟨hres, h⟩)
    · omega
    · have := hrest hres
      omega
  rcases Nat.eq_zero_or_pos s.millis with hms | hms
  · rcases Nat.eq_zero_or_pos s.seconds with hs | hs
    · refine ⟨[], ?_⟩
      simp [ReltimeFields.printSeconds, fieldsOf, hms, hs, seconds, strtoposl, strtol, count]
    · have hprint : (fieldsOf negativeFlag s).printSeconds =
          Nat.toDigits 10 s.seconds ++ 'S' :: [] := by
        simp [ReltimeFields.printSeconds, fieldsOf, hms, hs]
      refine ⟨['S'], ?_⟩
      rw [hprint, strtoposl_toDigits hmax (by decide)]
      simp only [seconds, List.head?_cons, true_or, if_true]
      rw [if_neg (by omega), if_neg hbound]
      simp [count, hms, hs]
  · have hprint : (fieldsOf negativeFlag s).printSeconds = Nat.toDigits 10 s.seconds ++
        '.' :: (List.leftpad 3 ' ' (Nat.toDigits 10 s.millis) ++ ['S']) := by
      simp [ReltimeFields.printSeconds, fieldsOf, hms]
    refine ⟨['S'], ?_⟩
    rw [hprint, strtoposl_toDigits hmax (by decide)]
    simp only [seconds, List.head?_cons, or_true, if_true, List.tail_cons]
    rw [if_neg (by omega), if_neg hbound, fraction_leftpad hmillis]
    simp [count, hms]

/-- The letter that is met in printed seconds. -/
theorem head_printSeconds
    (hmax : (s.seconds : Int) ≤ longMax)
    (negativeFlag : Bool) :
    (strtol (fieldsOf negativeFlag s).printSeconds).rest.head? ≠ some 'H' ∧
      (strtol (fieldsOf negativeFlag s).printSeconds).rest.head? ≠ some 'M' := by
  rcases Nat.eq_zero_or_pos s.millis with hms | hms
  · rcases Nat.eq_zero_or_pos s.seconds with hs | hs
    · simp [ReltimeFields.printSeconds, fieldsOf, hms, hs, strtol]
    · simp [ReltimeFields.printSeconds, fieldsOf, hms, hs, @strtol_toDigits _ 'S' hmax (by decide)]
  · simp [ReltimeFields.printSeconds, fieldsOf, hms, @strtol_toDigits _ '.' hmax (by decide)]

end ReltimeScan

/-- A span whose text passes the bounds of the reader. -/
structure Readable (s : Span) : Prop where
  days : s.days ≤ 23
  hours : s.hours ≤ 595
  hours_rest : 0 < s.days → s.hours ≤ 23
  minutes : s.minutes ≤ 35790
  minutes_rest : 0 < s.days ∨ 0 < s.hours → s.minutes ≤ 59
  seconds : s.seconds ≤ 2147482
  seconds_rest : 0 < s.days ∨ 0 < s.hours ∨ 0 < s.minutes → s.seconds ≤ 59
  millis : s.millis < 1000

theorem readable_span
    {n : Nat}
    (h : n ≤ 2073599999)
    (format : ReltimeFormat) :
    Readable (format.span n) := by
  cases format <;> constructor <;> simp only [ReltimeFormat.span] <;> omega

namespace ReltimeFields

/-- The time section of a text. -/
def printTime (f : ReltimeFields) : Text :=
  printUnit f.hours 'H' ++ (printUnit f.minutes 'M' ++ f.printSeconds)

end ReltimeFields

namespace ReltimeScan

variable {q : ReltimeScan} {s : Span}

/-- A printed time section is read back and counted. -/
theorem time_printTime
    (hs : Readable s)
    (hq : q.result = s.days * 86400000)
    (negativeFlag : Bool) :
    ∃ e, q.time (fieldsOf negativeFlag s).printTime =
      .ok { ((({ q with parsedSomething := false }.count s.hours 3600000).count s.minutes
        60000).count s.seconds 1000).count s.millis 1 with l := -1, endPos := e } := by
  have hmax : ∀ n : Nat, n ≤ 2147482 → (n : Int) ≤ longMax := by
    intro n hn
    have : (2147482 : Int) ≤ longMax := by decide
    omega
  have hlong : (595 : Int) ≤ longMax ∧ (35790 : Int) ≤ longMax := by decide
  obtain ⟨hdays, hhours, hhours', hminutes, hminutes', hseconds, hseconds', hmillis⟩ := hs
  obtain ⟨hH, hM⟩ := head_printSeconds (hmax _ hseconds) negativeFlag
  have hH' : (strtol (ReltimeFields.printUnit s.minutes 'M' ++
      (fieldsOf negativeFlag s).printSeconds)).rest.head? ≠ some 'H' := by
    rw [head_printUnit (hmax _ (by omega)) (by decide)]
    split
    · decide
    · exact hH
  have hreadHours : (strtoposl { q with parsedSomething := false }
      (ReltimeFields.printUnit s.hours 'H' ++ (ReltimeFields.printUnit s.minutes 'M' ++
        (fieldsOf negativeFlag s).printSeconds))).hours =
      .ok (({ q with parsedSomething := false }.count s.hours 3600000).strtoposl
        (ReltimeFields.printUnit s.minutes 'M' ++ (fieldsOf negativeFlag s).printSeconds)) := by
    refine unit_printUnit (by decide) (by omega) hlong.1 ?_ hH' _
    intro hpos
    have hpos : 0 < q.result := hpos
    have := hhours' (by omega)
    omega
  have hreadMinutes : (strtoposl ({ q with parsedSomething := false }.count s.hours 3600000)
      (ReltimeFields.printUnit s.minutes 'M' ++ (fieldsOf negativeFlag s).printSeconds)).minutes =
      .ok ((({ q with parsedSomething := false }.count s.hours 3600000).count s.minutes
        60000).strtoposl (fieldsOf negativeFlag s).printSeconds) := by
    refine unit_printUnit (by decide) (by omega) hlong.2 ?_ hM _
    intro hpos
    have hpos : 0 < q.result + s.hours * 3600000 := hpos
    have := hminutes' (by omega)
    omega
  obtain ⟨e, hreadSeconds⟩ := @seconds_printSeconds
    (({ q with parsedSomething := false }.count s.hours 3600000).count s.minutes 60000) s
    hmillis hseconds (by
      intro hpos
      have hpos : 0 < q.result + s.hours * 3600000 + s.minutes * 60000 := hpos
      exact hseconds' (by omega)) negativeFlag
  refine ⟨e, ?_⟩
  simp only [time, ReltimeFields.printTime, fieldsOf, bind, Except.bind]
    at hreadHours hreadMinutes hreadSeconds ⊢
  simp only [hreadHours, hreadMinutes, hreadSeconds]
  rfl

/-- Printed days are read back. -/
theorem date_printUnit
    {n : Nat} {rest : Text}
    (hn : n ≤ 23)
    (hrest : 0 < n ∨ ∃ r, rest = 'T' :: r) :
    ∃ p, date (ReltimeFields.printUnit n 'D' ++ rest) = .ok (p, rest) ∧
      p.result = n * 86400000 ∧ p.parsedSomething = decide (0 < n) := by
  have hmax : (n : Int) ≤ longMax := by
    have : (23 : Int) ≤ longMax := by decide
    omega
  rcases Nat.eq_zero_or_pos n with rfl | hpos
  · obtain ⟨r, rfl⟩ := hrest.resolve_left (lt_irrefl 0)
    have hnone := @strtol_none 'T' (by decide) (by decide) (by decide) (by decide) r
    refine ⟨{ l := -1, endPos := 'T' :: r, parsedSomething := false, result := 0 },
      ?_, by simp, by simp⟩
    simp [ReltimeFields.printUnit, date, strtoposl, hnone]
  · have hprint : ReltimeFields.printUnit n 'D' ++ rest = Nat.toDigits 10 n ++ 'D' :: rest := by
      simp [ReltimeFields.printUnit, hpos]
    refine ⟨{ l := n, endPos := 'D' :: rest, parsedSomething := true,
              result := 0 + n * 86400000 }, ?_, by simp, by simp [hpos]⟩
    rw [hprint, date, strtoposl_toDigits hmax (by decide)]
    simp [show ¬ (n : Int) < 0 by omega, show ¬ (23 : Int) < n by omega]

end ReltimeScan

/-- The text of a span, section by section. -/
theorem print_fieldsOf
    (negativeFlag : Bool)
    (s : Span) :
    (fieldsOf negativeFlag s).print =
      (if negativeFlag then ['-'] else []) ++ 'P' :: (ReltimeFields.printUnit s.days 'D' ++
        if (fieldsOf negativeFlag s).hasTime then 'T' :: (fieldsOf negativeFlag s).printTime
        else []) := by
  cases h : (fieldsOf negativeFlag s).hasTime
  · have hzero : s.millis = 0 ∧ s.seconds = 0 ∧ s.minutes = 0 ∧ s.hours = 0 := by
      simpa [ReltimeFields.hasTime, fieldsOf, and_assoc] using h
    obtain ⟨hms, hsec, hmin, hhour⟩ := hzero
    simp [ReltimeFields.print, fieldsOf, ReltimeFields.hasTime, ReltimeFields.printUnit,
      ReltimeFields.printSeconds, hms, hsec, hmin, hhour]
  · simp [ReltimeFields.print, h, ReltimeFields.printTime]
    rfl

/-- The reader behind the sign and the `P`. -/
theorem obixReltimeToLong_signed
    (negativeFlag : Bool)
    (body : Text) :
    obixReltimeToLong ((if negativeFlag then ['-'] else []) ++ 'P' :: body) =
      (ReltimeScan.date body).bind fun (p, startPos) =>
        (if startPos.head? = some 'T' then p.time startPos.tail else .ok p).bind fun p =>
          if p.parsedSomething = false then .error (-1)
          else .ok (if negativeFlag then asLong (-p.result) else p.result) := by
  have hhead : (((if negativeFlag then ['-'] else []) ++ 'P' :: body).head? = some '-') =
      (negativeFlag = true) := by
    cases negativeFlag <;> simp
  have htail : (if negativeFlag = true then
      ((if negativeFlag then ['-'] else []) ++ 'P' :: body).tail
      else (if negativeFlag then ['-'] else []) ++ 'P' :: body) = 'P' :: body := by
    cases negativeFlag <;> rfl
  simp only [obixReltimeToLong, hhead, htail, List.head?_cons, if_true, List.tail_cons]
  cases ReltimeScan.date body with
  | error e => rfl
  | ok v =>
      simp only [bind, Except.bind]
      split
      · cases v.1.time v.2.tail with
        | error e => rfl
        | ok p => simp [pure, Except.pure]
      · simp [pure, Except.pure]

/-- A printed span is read back. -/
theorem obixReltimeToLong_print
    {s : Span}
    (hs : Readable s)
    (hpos : 0 < s.total)
    (negativeFlag : Bool) :
    obixReltimeToLong (fieldsOf negativeFlag s).print =
      .ok (if negativeFlag then asLong (-(s.total : Int)) else s.total) := by
  have htotal : (s.total : Int) = s.days * 86400000 + s.hours * 3600000 + s.minutes * 60000 +
      s.seconds * 1000 + s.millis * 1 := by
    simp [Span.total]
  rw [print_fieldsOf, obixReltimeToLong_signed]
  cases htime : (fieldsOf negativeFlag s).hasTime
  · have hzero : s.millis = 0 ∧ s.seconds = 0 ∧ s.minutes = 0 ∧ s.hours = 0 := by
      simpa [ReltimeFields.hasTime, fieldsOf, and_assoc] using htime
    obtain ⟨hms, hsec, hmin, hhour⟩ := hzero
    have hdays : 0 < s.days := by
      unfold Span.total at hpos
      omega
    obtain ⟨p, hp, hresult, hparsed⟩ :=
      @ReltimeScan.date_printUnit s.days [] hs.days (.inl hdays)
    have hsum : p.result = s.total := by
      rw [hresult, htotal, hms, hsec, hmin, hhour]
      simp
    rw [List.append_nil] at hp
    simp [hp, Except.bind, hparsed, hdays, hsum]
  · have hsome : 0 < s.millis ∨ 0 < s.seconds ∨ 0 < s.minutes ∨ 0 < s.hours := by
      simpa [ReltimeFields.hasTime, fieldsOf, or_assoc] using htime
    obtain ⟨p, hp, hresult, -⟩ := @ReltimeScan.date_printUnit s.days
      ('T' :: (fieldsOf negativeFlag s).printTime) hs.days (.inr ⟨_, rfl⟩)
    obtain ⟨e, he⟩ := ReltimeScan.time_printTime hs hresult negativeFlag
    have hparsed : ¬ (s.hours = 0 ∧ s.minutes = 0 ∧ s.seconds = 0 ∧ s.millis = 0) := by
      omega
    simp only [if_true, hp, Except.bind, List.head?_cons, List.tail_cons, he]
    rw [if_neg (by simp [ReltimeScan.count]; omega)]
    simp [ReltimeScan.count, hresult, htotal]

/-- A printed relative time is read back. -/
theorem obixReltimeToLong_obixReltimeFromLong
    (m : Int)
    (format : ReltimeFormat)
    (h : |m| ≤ 2073599999) :
    obixReltimeToLong (obixReltimeFromLong m format) = .ok m := by
  obtain ⟨hlo, hhi⟩ := abs_le.mp h
  unfold obixReltimeFromLong
  split
  · rename_i hzero
    rw [hzero]
    decide +kernel
  · rw [reltimeFields_eq (by omega), obixReltimeToLong_print (readable_span (by omega) format)
      (by rw [ReltimeFormat.total_span]; omega), ReltimeFormat.total_span,
      asLong_eq (by omega) (by omega)]
    congr 1
    by_cases hneg : m < 0
    · rw [if_pos (by simpa using hneg)]
      omega
    · rw [if_neg (by simpa using hneg)]
      omega
/-- The longest span that is read back. -/
theorem obixReltimeToLong_obixReltimeFromLong_longest :
    |(-2073599999 : Int)| ≤ 2073599999 ∧
      obixReltimeToLong (obixReltimeFromLong (-2073599999) .hour) = .ok (-2073599999) :=
  ⟨by decide, obixReltimeToLong_obixReltimeFromLong (-2073599999) .hour (by decide)⟩

end Obix
