import Obix.Lib.Numerals
import Obix.Utils.Timestamp

/-!
# What a valid timestamp is made of

`timestamp_is_valid` takes six numbers as `strtol` reads them, with white space, signs and
leading zeros, and a designator: nothing, `Z` with anything behind it, or a sign and two or four
digits (`exists_timestampParts`).
-/

namespace Obix

open CString

/-- A string that `strtol` reads to its end. -/
def Numeral (s : Text) : Prop :=
  ∃ blanks sign digits : Text, s = blanks ++ (sign ++ digits) ∧
    (∀ c ∈ blanks, isSpace c = true) ∧ (sign = [] ∨ sign = ['+'] ∨ sign = ['-']) ∧
    digits ≠ [] ∧ ∀ c ∈ digits, c.isDigit = true

/-- The time zone designator of a timestamp. -/
def Designator (zone : Text) : Prop :=
  zone = [] ∨ (∃ more, zone = 'Z' :: more) ∨
    ∃ sign digits, zone = sign :: digits ∧ (sign = '+' ∨ sign = '-') ∧
      (digits.length = 2 ∨ digits.length = 4) ∧ ∀ c ∈ digits, c.isDigit = true

/-- The parts of a timestamp. -/
structure TimestampParts where
  year : Text
  mon : Text
  mday : Text
  hour : Text
  min : Text
  sec : Text
  zone : Text

/-- The timestamp with the delimiters between its parts. -/
def TimestampParts.text (p : TimestampParts) : Text :=
  p.year ++ '-' :: (p.mon ++ '-' :: (p.mday ++
    'T' :: (p.hour ++ ':' :: (p.min ++ ':' :: (p.sec ++ p.zone)))))

/-- The numbers of a timestamp. -/
def TimestampParts.numbers (p : TimestampParts) : List Text :=
  [p.year, p.mon, p.mday, p.hour, p.min, p.sec]

/-- Parts that `timestamp_is_valid` accepts. -/
structure TimestampParts.WellFormed (p : TimestampParts) : Prop where
  numbers : ∀ s ∈ p.numbers, Numeral s
  zone : Designator p.zone

section Splitting

variable {s rest : Text} {c : Char} {i : Nat}

/-- A string around the first occurrence of a character. -/
theorem eq_append_of_find
    (h : find [c] s = some i) :
    s = s.take i ++ c :: s.drop (i + 1) := by
  obtain ⟨r, hr⟩ := prefix_drop_of_find h
  have hdrop : s.drop i = c :: r := hr.symm
  have htail : s.drop (i + 1) = r := by
    rw [← List.drop_drop, hdrop]
    rfl
  rw [htail, ← hdrop, List.take_append_drop]

theorem matchChar_eq_some
    (h : matchChar c s = some rest) :
    s = c :: rest := by
  cases s with
  | nil => cases h
  | cons d s =>
      rw [matchChar] at h
      split at h
      · rename_i hcd
        rw [hcd, Option.some.inj h]
      · cases h

/-- `time_to_long` reads a number. -/
theorem numeral_of_timeComponent
    {n : Int}
    (h : timeComponent s = some (n, rest)) :
    ∃ a, Numeral a ∧ s = a ++ rest := by
  unfold timeComponent at h
  dsimp only at h
  split at h
  · cases h
  · split at h
    · cases h
    · rename_i herange hconv
      simp only [Bool.not_eq_false] at hconv
      obtain ⟨blanks, sign, digits, more, rfl, hblanks, hsign, hne, hdigits, hmore⟩ :=
        exists_sign_digits hconv
      have hrest : (strtol (blanks ++ (sign ++ (digits ++ more)))).rest = more := by
        rw [strtol_sign_digits hblanks hsign hne hdigits hmore]
        dsimp only
        generalize (if sign = ['-'] then -(Nat.ofDigitChars 10 digits 0 : Int)
          else Nat.ofDigitChars 10 digits 0) = v
        split
        · rfl
        · split
          · rfl
          · rfl
      obtain rfl : more = rest := by
        rw [← hrest]
        exact congrArg Prod.snd (Option.some.inj h)
      exact ⟨blanks ++ (sign ++ digits), ⟨blanks, sign, digits, rfl, hblanks, hsign, hne, hdigits⟩,
        by simp⟩

/-- `time_to_long` reads three numbers. -/
theorem numerals_of_timeToLong
    (h : (timeToLong s c).isSome = true) :
    ∃ x y z, Numeral x ∧ Numeral y ∧ Numeral z ∧ s = x ++ c :: (y ++ c :: z) := by
  obtain ⟨r, hr⟩ := Option.isSome_iff_exists.mp h
  unfold timeToLong at hr
  simp only [Option.bind_eq_bind, Option.bind_eq_some_iff] at hr
  obtain ⟨⟨n₁, s₁⟩, h₁, s₂, h₂, ⟨n₂, s₃⟩, h₃, s₄, h₄, ⟨n₃, s₅⟩, h₅, hend⟩ := hr
  obtain ⟨x, hx, hxs⟩ := numeral_of_timeComponent h₁
  obtain ⟨y, hy, hys⟩ := numeral_of_timeComponent h₃
  obtain ⟨z, hz, hzs⟩ := numeral_of_timeComponent h₅
  have hdelim₁ := matchChar_eq_some h₂
  have hdelim₂ := matchChar_eq_some h₄
  dsimp only at hdelim₁ hdelim₂ hend
  split at hend
  · rename_i hnil
    rw [hnil, List.append_nil] at hzs
    exact ⟨x, y, z, hx, hy, hz, by rw [hxs, hdelim₁, hys, hdelim₂, hzs]⟩
  · cases hend

/-- `timezone_is_valid` for what follows a sign. -/
theorem digits_of_timezoneIsValid
    {tz : Text}
    (hz : 'Z' ∉ tz)
    (h : timezoneIsValid (some tz) = true) :
    (tz.length = 2 ∨ tz.length = 4) ∧ ∀ c ∈ tz, c.isDigit = true := by
  have hne : tz ≠ ['Z'] := by
    rintro rfl
    exact hz List.mem_cons_self
  rw [timezoneIsValid, if_neg hne] at h
  split at h
  · cases h
  · rename_i hall
    rw [Bool.not_eq_false, List.all_eq_true] at hall
    split at h
    · rename_i hlen
      exact ⟨.inl hlen, hall⟩
    · split at h
      · rename_i hlen
        exact ⟨.inr hlen, hall⟩
      · cases h

/-- A character that is not found is not there. -/
theorem not_mem_of_find_none
    (h : find [c] s = none) :
    c ∉ s := by
  intro hmem
  obtain ⟨a, b, rfl⟩ := List.append_of_mem hmem
  refine not_prefix_drop_of_find_none h a.length ?_
  rw [List.drop_left]
  exact ⟨b, rfl⟩

/-- The sign before an offset, where there is no `Z`. -/
theorem sign_of_find
    (h : ((find ['Z'] s).orElse fun _ => (find ['-'] s).orElse fun _ => find ['+'] s) = some i)
    (hhead : ¬ (s.drop i).head? = some 'Z') :
    'Z' ∉ s ∧ ∃ sign, (sign = '+' ∨ sign = '-') ∧ s = s.take i ++ sign :: s.drop (i + 1) := by
  cases hz : find ['Z'] s with
  | some k =>
      rw [hz] at h
      obtain rfl : k = i := by simpa using h
      obtain ⟨r, hr⟩ := prefix_drop_of_find hz
      rw [← hr] at hhead
      exact absurd rfl hhead
  | none =>
      refine ⟨not_mem_of_find_none hz, ?_⟩
      rw [hz, Option.orElse_none] at h
      cases hminus : find ['-'] s with
      | some k =>
          rw [hminus] at h
          obtain rfl : k = i := by simpa using h
          exact ⟨'-', .inr rfl, eq_append_of_find hminus⟩
      | none =>
          rw [hminus, Option.orElse_none] at h
          exact ⟨'+', .inl rfl, eq_append_of_find h⟩

/-- A timestamp that can be split, with a designator that is valid. -/
theorem exists_split
    {date time : Text} {tz : Option Text}
    (hsplit : timestampSplit s = some (date, time, tz))
    (hzone : timezoneIsValid tz = true) :
    ∃ zone, Designator zone ∧ s = date ++ 'T' :: (time ++ zone) := by
  unfold timestampSplit at hsplit
  split at hsplit
  · cases hsplit
  · rename_i i hi
    have hts := eq_append_of_find hi
    dsimp only at hsplit
    generalize s.drop (i + 1) = rest at hsplit hts
    split at hsplit
    · cases hsplit
    · split at hsplit
      · obtain ⟨rfl, rfl, rfl⟩ : s.take i = date ∧ rest = time ∧ none = tz := by
          simpa using hsplit
        exact ⟨[], .inl rfl, by rw [List.append_nil]; exact hts⟩
      · rename_i j hj
        split at hsplit
        · rename_i hhead
          obtain ⟨rfl, rfl, rfl⟩ : s.take i = date ∧ rest.take j = time ∧ some ['Z'] = tz := by
            simpa using hsplit
          obtain ⟨more, hmore⟩ := List.head?_eq_some_iff.mp hhead
          refine ⟨rest.drop j, .inr (.inl ⟨more, hmore⟩), ?_⟩
          rw [List.take_append_drop]
          exact hts
        · rename_i hhead
          split at hsplit
          · cases hsplit
          · obtain ⟨rfl, rfl, rfl⟩ : s.take i = date ∧ rest.take j = time ∧
                some (rest.drop (j + 1)) = tz := by
              simpa using hsplit
            obtain ⟨hz, sign, hsign, hcut⟩ := sign_of_find hj hhead
            have hmem : 'Z' ∉ rest.drop (j + 1) := fun hmem => hz (List.mem_of_mem_drop hmem)
            obtain ⟨hlen, hdigits⟩ := digits_of_timezoneIsValid hmem hzone
            refine ⟨sign :: rest.drop (j + 1),
              .inr (.inr ⟨sign, _, rfl, hsign, hlen, hdigits⟩), ?_⟩
            rw [← hcut]
            exact hts

end Splitting

/-- A valid timestamp has six numbers and a designator. -/
theorem exists_timestampParts
    {ts : Text}
    (h : timestampIsValid ts = true) :
    ∃ p : TimestampParts, p.WellFormed ∧ ts = p.text := by
  unfold timestampIsValid at h
  split at h
  · cases h
  · rename_i date time tz hsplit
    split at h
    · cases h
    · rename_i hboth
      simp only [Bool.or_eq_true, Option.isNone_iff_eq_none, not_or] at hboth
      obtain ⟨year, mon, mday, hyear, hmon, hmday, hdate⟩ :=
        numerals_of_timeToLong (Option.isSome_iff_ne_none.mpr hboth.1)
      obtain ⟨hour, min, sec, hhour, hmin, hsec, htime⟩ :=
        numerals_of_timeToLong (Option.isSome_iff_ne_none.mpr hboth.2)
      obtain ⟨zone, hzone, hts⟩ := exists_split hsplit h
      refine ⟨⟨year, mon, mday, hour, min, sec, zone⟩, ⟨?_, hzone⟩, ?_⟩
      · simp only [TimestampParts.numbers, List.forall_mem_cons]
        exact ⟨hyear, hmon, hmday, hhour, hmin, hsec, by simp⟩
      · rw [hts, hdate, htime]
        simp [TimestampParts.text]

end Obix
