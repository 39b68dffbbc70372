import Obix.Lib.Tokens
import Obix.Lib.Written
import Obix.Utils.TimestampShape

/-!
# The format of timestamps

`timestamp_is_valid` accepts the readings of a text as six numbers, with their delimiters, and a
designator that pass its checks (`timestampIsValid_iff`).  The numbers may have blanks and signs,
anything may follow a `Z`, and the minutes of an offset may be 60, 75 or 90: the documented format
is what is accepted exactly for the texts that have no such reading
(`timestampIsValid_format_iff`).
-/

namespace Obix

open CString

section Spec

/-- The value of a string of digits. -/
def digitsValue (digits : Text) : Nat :=
  Nat.ofDigitChars 10 digits 0

/-- Two digits of hours, or two of hours and two of minutes. -/
def ZoneOffset
    (minutes : Nat → Prop)
    (digits : Text) :
    Prop :=
  (∀ c ∈ digits, c.isDigit = true) ∧
    ((digits.length = 2 ∧ digitsValue digits ≤ 12) ∨
      (digits.length = 4 ∧
        ((digitsValue (digits.take 2) < 12 ∧ minutes (digitsValue (digits.drop 2))) ∨
          (digitsValue (digits.take 2) = 12 ∧ digitsValue (digits.drop 2) = 0))))

/-- A designator, with what may follow its `Z` and the minutes that an offset may have. -/
def Zone
    (tail : Text → Prop)
    (minutes : Nat → Prop)
    (zone : Text) :
    Prop :=
  zone = [] ∨ (∃ more, zone = 'Z' :: more ∧ tail more) ∨
    ∃ sign digits, zone = sign :: digits ∧ (sign = '+' ∨ sign = '-') ∧ ZoneOffset minutes digits

/-- The numbers of a timestamp and what follows them. -/
@[ext]
structure TimestampReading where
  year : Written
  mon : Written
  mday : Written
  hour : Written
  min : Written
  sec : Written
  zone : Text

namespace TimestampReading

variable (r : TimestampReading)

def date : Text :=
  r.year.text ++ '-' :: (r.mon.text ++ '-' :: r.mday.text)

def time : Text :=
  r.hour.text ++ ':' :: (r.min.text ++ ':' :: r.sec.text)

def text : Text :=
  r.date ++ 'T' :: (r.time ++ r.zone)

/-- The numbers of the time. -/
def clock : List Written :=
  [r.hour, r.min, r.sec]

def numbers : List Written :=
  r.year :: r.mon :: r.mday :: r.clock

/-- The format of `docs/timezone.md`. -/
structure Documented : Prop where
  plain : ∀ a ∈ r.numbers, a.Plain
  fits : ∀ a ∈ r.numbers, a.value ≤ longMax
  zone : Zone (· = []) (· ∈ [0, 15, 30, 45]) r.zone

/-- What passes the checks of the code.  A sign in the time is not taken for that of the designator
behind a `Z`, and behind a `-` for a plus. -/
structure Accepted : Prop where
  fits : ∀ a ∈ r.numbers, longMin ≤ a.value ∧ a.value ≤ longMax
  signs : ∀ a ∈ r.clock, ∀ c ∈ a.sign,
    r.zone.head? = some 'Z' ∨ (c = '+' ∧ r.zone.head? = some '-')
  zone : Zone (fun _ => True) (fun minute => minute % 15 = 0) r.zone

/-- No blanks and signs, nothing behind a `Z`, and less than 60 minutes. -/
structure Exact : Prop where
  plain : ∀ a ∈ r.numbers, a.Plain
  utc : ∀ more, r.zone = 'Z' :: more → more = []
  minutes : r.zone.length = 5 → digitsValue (r.zone.drop 3) < 60

end TimestampReading

/-- How a time is cut from its designator. -/
inductive CutAt : Text → Text → Option Text → Prop
  | noZone
      {time : Text}
      (hne : time ≠ [])
      (hz : 'Z' ∉ time)
      (hminus : '-' ∉ time)
      (hplus : '+' ∉ time) :
      CutAt time [] none
  | utc
      {time more : Text}
      (hz : 'Z' ∉ time) :
      CutAt time ('Z' :: more) (some ['Z'])
  | minus
      {time tz : Text}
      (hne : tz ≠ [])
      (hz : 'Z' ∉ time ++ tz)
      (hminus : '-' ∉ time) :
      CutAt time ('-' :: tz) (some tz)
  | plus
      {time tz : Text}
      (hne : tz ≠ [])
      (hz : 'Z' ∉ time ++ tz)
      (hminus : '-' ∉ time ++ tz)
      (hplus : '+' ∉ time) :
      CutAt time ('+' :: tz) (some tz)

end Spec

section Split

variable {date time zone : Text} {tz : Option Text}

/-- The first of `Z`, `-` and `+` that is there, in this order. -/
def zoneStart (rest : Text) : Option Nat :=
  (find ['Z'] rest).orElse fun _ => (find ['-'] rest).orElse fun _ => find ['+'] rest

theorem zoneStart_minus
    (hz : 'Z' ∉ time ++ zone)
    (hminus : '-' ∉ time) :
    zoneStart (time ++ '-' :: zone) = some time.length := by
  have hnone : 'Z' ∉ time ++ '-' :: zone := by simpa using hz
  rw [zoneStart, find_char_eq_none.mpr hnone, find_append_char hminus]
  rfl

theorem zoneStart_plus
    (hz : 'Z' ∉ time ++ zone)
    (hminus : '-' ∉ time ++ zone)
    (hplus : '+' ∉ time) :
    zoneStart (time ++ '+' :: zone) = some time.length := by
  have hnoz : 'Z' ∉ time ++ '+' :: zone := by simpa using hz
  have hnominus : '-' ∉ time ++ '+' :: zone := by simpa using hminus
  rw [zoneStart, find_char_eq_none.mpr hnoz, find_char_eq_none.mpr hnominus, find_append_char hplus]
  rfl

theorem drop_past_date (date rest : Text) :
    (date ++ 'T' :: rest).drop (date.length + 1) = rest := by
  rw [← List.drop_drop, List.drop_left]
  rfl

/-- A text whose designator begins with a sign needs something behind the sign. -/
theorem timestampSplit_of_sign
    {c : Char} {rest : Text}
    (hdate : 'T' ∉ date)
    (hstart : zoneStart (time ++ c :: rest) = some time.length)
    (hc : c ≠ 'Z') :
    timestampSplit (date ++ 'T' :: (time ++ c :: rest)) =
      if rest = [] then none else some (date, time, some rest) := by
  have hhead : ¬ (c :: rest).head? = some 'Z' := by simpa using hc
  have hrest : (time ++ c :: rest).drop (time.length + 1) = rest := by
    rw [← List.drop_drop, List.drop_left]
    rfl
  rw [zoneStart] at hstart
  unfold timestampSplit
  rw [find_append_char hdate]
  dsimp only
  rw [drop_past_date, List.take_left, if_neg (by simp), hstart]
  dsimp only
  rw [List.drop_left, if_neg hhead, hrest, List.take_left]

/-- A text is split where the designator of its time begins. -/
theorem timestampSplit_append
    (hdate : 'T' ∉ date)
    (h : CutAt time zone tz) :
    timestampSplit (date ++ 'T' :: (time ++ zone)) = some (date, time, tz) := by
  cases h with
  | noZone hne hz hminus hplus =>
      unfold timestampSplit
      rw [find_append_char hdate]
      dsimp only
      rw [drop_past_date, List.take_left, List.append_nil, if_neg hne, find_char_eq_none.mpr hz,
        find_char_eq_none.mpr hminus, find_char_eq_none.mpr hplus]
      rfl
  | utc hz =>
      unfold timestampSplit
      rw [find_append_char hdate]
      dsimp only
      rw [drop_past_date, List.take_left, if_neg (by simp), find_append_char hz]
      dsimp only [Option.orElse_some]
      rw [List.drop_left, if_pos List.head?_cons, List.take_left]
  | minus hne hz hminus =>
      rw [timestampSplit_of_sign hdate (zoneStart_minus hz hminus) (by decide), if_neg hne]
  | plus hne hz hminus hplus =>
      rw [timestampSplit_of_sign hdate (zoneStart_plus hz hminus hplus) (by decide), if_neg hne]

/-- There is a time behind the date. -/
theorem exists_time_of_timestampSplit
    {ts : Text}
    (h : timestampSplit ts = some (date, time, tz)) :
    ∃ before rest, ts = before ++ 'T' :: rest ∧ 'T' ∉ before ∧ rest ≠ [] := by
  unfold timestampSplit at h
  cases hT : find ['T'] ts with
  | none =>
      rw [hT] at h
      cases h
  | some i =>
      obtain ⟨before, rest, rfl, hbefore, rfl⟩ := exists_of_find_char hT
      refine ⟨before, rest, rfl, hbefore, fun hnil => ?_⟩
      rw [hT] at h
      dsimp only at h
      rw [drop_past_date, if_pos hnil] at h
      cases h

/-- What a text is split into. -/
theorem exists_cut_of_timestampSplit
    {ts : Text}
    (h : timestampSplit ts = some (date, time, tz)) :
    ∃ zone, ts = date ++ 'T' :: (time ++ zone) ∧ CutAt time zone tz := by
  obtain ⟨before, rest, rfl, hbefore, hnil⟩ := exists_time_of_timestampSplit h
  -- the cut that the first designator makes is the one that the code makes
  have hcut : ∀ {t u z}, timestampSplit (before ++ 'T' :: (t ++ u)) = some (date, time, tz) →
      CutAt t u z → ∃ zone, before ++ 'T' :: (t ++ u) = date ++ 'T' :: (time ++ zone) ∧
        CutAt time zone tz := by
    intro t u z h hcut
    rw [timestampSplit_append hbefore hcut] at h
    obtain ⟨rfl, rfl, rfl⟩ : before = date ∧ t = time ∧ z = tz := by simpa using h
    exact ⟨u, rfl, hcut⟩
  cases hz : find ['Z'] rest with
  | some j =>
      obtain ⟨t, u, rfl, ht, -⟩ := exists_of_find_char hz
      exact hcut h (.utc ht)
  | none =>
      have hnoz := find_char_eq_none.mp hz
      cases hminus : find ['-'] rest with
      | some j =>
          obtain ⟨t, u, rfl, ht, -⟩ := exists_of_find_char hminus
          have hz : 'Z' ∉ t ++ u := by simpa using hnoz
          by_cases hu : u = []
          · rw [timestampSplit_of_sign hbefore (zoneStart_minus hz ht) (by decide), if_pos hu] at h
            cases h
          · exact hcut h (.minus hu hz ht)
      | none =>
          have hnominus := find_char_eq_none.mp hminus
          cases hplus : find ['+'] rest with
          | some j =>
              obtain ⟨t, u, rfl, ht, -⟩ := exists_of_find_char hplus
              have hz : 'Z' ∉ t ++ u := by simpa using hnoz
              have hm : '-' ∉ t ++ u := by simpa using hnominus
              by_cases hu : u = []
              · rw [timestampSplit_of_sign hbefore (zoneStart_plus hz hm ht) (by decide),
                  if_pos hu] at h
                cases h
              · exact hcut h (.plus hu hz hm ht)
          | none =>
              rw [← List.append_nil rest] at h ⊢
              exact hcut h (.noZone hnil hnoz hnominus (find_char_eq_none.mp hplus))

end Split

section Components

variable {str rest : Text} {n : Int}

theorem timeComponent_written
    (a : Written)
    (hr : Ends rest)
    (hlo : longMin ≤ a.value)
    (hhi : a.value ≤ longMax) :
    timeComponent (a.text ++ rest) = some (a.value, rest) := by
  unfold timeComponent
  rw [strtol_written a hr]
  dsimp only
  rw [decide_eq_false (by omega), if_neg Bool.false_ne_true, if_neg (by decide),
    clipLong_eq hlo hhi]

/-- A component that `time_to_long` reads. -/
theorem exists_written_of_timeComponent
    (h : timeComponent str = some (n, rest)) :
    ∃ a : Written, longMin ≤ a.value ∧ a.value ≤ longMax ∧ str = a.text ++ rest ∧ Ends rest := by
  unfold timeComponent at h
  dsimp only at h
  cases hconv : (strtol str).converted with
  | false =>
      rw [hconv, if_pos rfl] at h
      split at h
      · cases h
      · cases h
  | true =>
      obtain ⟨a, r, rfl, hr⟩ := exists_written hconv
      rw [strtol_written a hr] at h
      dsimp only at h
      by_cases hout : a.value < longMin ∨ longMax < a.value
      · rw [decide_eq_true hout, if_pos rfl] at h
        cases h
      · rw [decide_eq_false hout, if_neg Bool.false_ne_true, if_neg (by decide)] at h
        obtain rfl : r = rest := congrArg Prod.snd (Option.some.inj h)
        exact ⟨a, by omega, by omega, rfl, hr⟩

/-- `time_to_long` takes three numbers that fit. -/
theorem timeToLong_isSome_iff
    {delimiter : Char}
    (hd : delimiter.isDigit = false) :
    (timeToLong str delimiter).isSome = true ↔
      ∃ a b c : Written, (∀ e ∈ [a, b, c], longMin ≤ e.value ∧ e.value ≤ longMax) ∧
        str = a.text ++ delimiter :: (b.text ++ delimiter :: c.text) := by
  have hmatch : ∀ t : Text, matchChar delimiter (delimiter :: t) = some t := fun t => if_pos rfl
  constructor
  · intro h
    obtain ⟨r, hr⟩ := Option.isSome_iff_exists.mp h
    unfold timeToLong at hr
    simp only [Option.bind_eq_bind, Option.bind_eq_some_iff] at hr
    obtain ⟨⟨n₁, s₁⟩, h₁, s₂, h₂, ⟨n₂, s₃⟩, h₃, s₄, h₄, ⟨n₃, s₅⟩, h₅, hend⟩ := hr
    obtain ⟨a, halo, hahi, rfl, -⟩ := exists_written_of_timeComponent h₁
    obtain ⟨b, hblo, hbhi, hb, -⟩ := exists_written_of_timeComponent h₃
    obtain ⟨c, hclo, hchi, hc, -⟩ := exists_written_of_timeComponent h₅
    have hdelim₁ := matchChar_eq_some h₂
    have hdelim₂ := matchChar_eq_some h₄
    dsimp only at hdelim₁ hdelim₂ hend
    split at hend
    · rename_i hnil
      refine ⟨a, b, c, ?_, ?_⟩
      · simp only [List.forall_mem_cons]
        exact ⟨⟨halo, hahi⟩, ⟨hblo, hbhi⟩, ⟨hclo, hchi⟩, by simp⟩
      · rw [hdelim₁, hb, hdelim₂, hc, hnil, List.append_nil]
    · cases hend
  · rintro ⟨a, b, c, hfits, rfl⟩
    simp only [List.forall_mem_cons] at hfits
    obtain ⟨⟨halo, hahi⟩, ⟨hblo, hbhi⟩, ⟨hclo, hchi⟩, -⟩ := hfits
    have hc := timeComponent_written c ends_nil hclo hchi
    rw [List.append_nil] at hc
    unfold timeToLong
    simp only [Option.bind_eq_bind, timeComponent_written a (ends_cons hd) halo hahi,
      timeComponent_written b (ends_cons hd) hblo hbhi, Option.bind_some, hmatch, hc, if_true]
    rfl

/-- The characters of a number. -/
theorem mem_written
    {a : Written} {c : Char}
    (h : c ∈ a.text) :
    isSpace c = true ∨ c ∈ a.sign ∨ c.isDigit = true := by
  rcases List.mem_append.mp h with h | h
  · exact .inl (a.isSpace c h)
  · rcases List.mem_append.mp h with h | h
    · exact .inr (.inl h)
    · exact .inr (.inr (a.isDigit c h))

end Components

section Validity

variable {r : TimestampReading}

theorem timezoneIsValid_iff
    {tz : Text}
    (hz : 'Z' ∉ tz) :
    timezoneIsValid (some tz) = true ↔ ZoneOffset (fun minute => minute % 15 = 0) tz := by
  have hne : tz ≠ ['Z'] := by
    rintro rfl
    exact hz List.mem_cons_self
  rw [timezoneIsValid, if_neg hne, ZoneOffset, ← List.all_eq_true]
  cases hall : tz.all Char.isDigit with
  | false => simp
  | true =>
      rw [if_neg (by decide)]
      by_cases h2 : tz.length = 2
      · rw [if_pos h2]
        simp [h2, digitsValue]
      · rw [if_neg h2]
        by_cases h4 : tz.length = 4
        · rw [if_pos h4]
          dsimp only
          by_cases hless : Nat.ofDigitChars 10 (tz.take 2) 0 < 12
          · rw [if_pos hless]
            simp [h4, digitsValue, hless]
            omega
          · rw [if_neg hless]
            by_cases heq : Nat.ofDigitChars 10 (tz.take 2) 0 = 12
            · rw [if_pos heq]
              simp [h4, digitsValue, heq]
            · rw [if_neg heq]
              simp [h4, digitsValue, heq, hless]
        · rw [if_neg h4]
          simp [h2, h4]

/-- A letter is in none of the numbers of a reading. -/
theorem not_mem_date
    {c : Char}
    (hspace : isSpace c = false)
    (hdigit : c.isDigit = false)
    (hsign : c ≠ '+' ∧ c ≠ '-') :
    c ∉ r.date := by
  have hnumber : ∀ a : Written, c ∉ a.text := by
    intro a hc
    rcases mem_written hc with h | h | h
    · rw [hspace] at h
      cases h
    · rcases a.isSign with ha | ha | ha
      · rw [ha] at h
        cases h
      · rw [ha] at h
        exact hsign.1 (List.mem_singleton.mp h)
      · rw [ha] at h
        exact hsign.2 (List.mem_singleton.mp h)
    · rw [hdigit] at h
      cases h
  simp only [TimestampReading.date, List.mem_append, List.mem_cons, not_or]
  exact ⟨hnumber _, hsign.2, hnumber _, hsign.2, hnumber _⟩

/-- A character is in the time only as the sign of one of its numbers. -/
theorem mem_time_iff
    {c : Char}
    (hspace : isSpace c = false)
    (hdigit : c.isDigit = false)
    (hcolon : c ≠ ':') :
    c ∈ r.time ↔ ∃ a ∈ r.clock, c ∈ a.sign := by
  have hnumber : ∀ a : Written, c ∈ a.text ↔ c ∈ a.sign := by
    intro a
    constructor
    · intro h
      rcases mem_written h with h | h | h
      · rw [hspace] at h
        cases h
      · exact h
      · rw [hdigit] at h
        cases h
    · intro h
      exact List.mem_append_right _ (List.mem_append_left _ h)
  simp only [TimestampReading.time, TimestampReading.clock, List.mem_append, List.mem_cons, hnumber,
    hcolon, false_or, List.not_mem_nil, or_false, exists_eq_or_imp, exists_eq_left]

theorem time_ne_nil : r.time ≠ [] := by
  intro h
  exact Written.text_ne_nil r.hour (List.append_eq_nil_iff.mp h).1

theorem sign_chars
    {a : Written} {c : Char}
    (h : c ∈ a.sign) :
    c = '+' ∨ c = '-' := by
  rcases a.isSign with ha | ha | ha
  · rw [ha] at h
    cases h
  · rw [ha] at h
    exact .inl (List.mem_singleton.mp h)
  · rw [ha] at h
    exact .inr (List.mem_singleton.mp h)

theorem z_not_mem_time : 'Z' ∉ r.time := by
  rw [mem_time_iff (by decide) (by decide) (by decide)]
  rintro ⟨a, -, hc⟩
  rcases sign_chars hc with h | h
  · exact absurd h (by decide)
  · exact absurd h (by decide)

/-- The letters and signs are none of the digits of an offset. -/
theorem not_mem_digits
    {digits : Text} {c : Char}
    (hdigits : ∀ d ∈ digits, d.isDigit = true)
    (hc : c.isDigit = false) :
    c ∉ digits := by
  intro hmem
  rw [hdigits c hmem] at hc
  cases hc

/-- Behind a sign within the time the code does not look for another designator. -/
theorem zone_of_sign_mem_time
    {c : Char}
    (h : r.Accepted)
    (hspace : isSpace c = false)
    (hdigit : c.isDigit = false)
    (hcolon : c ≠ ':')
    (hc : c ∈ r.time) :
    r.zone.head? = some 'Z' ∨ (c = '+' ∧ r.zone.head? = some '-') := by
  obtain ⟨a, ha, hmem⟩ := (mem_time_iff hspace hdigit hcolon).mp hc
  exact h.signs a ha c hmem

/-- The code cuts a reading where its designator is. -/
theorem exists_cutAt
    (h : r.Accepted) :
    ∃ tz, CutAt r.time r.zone tz ∧ timezoneIsValid tz = true := by
  rcases h.zone with hzone | ⟨more, hzone, -⟩ | ⟨sign, digits, hzone, hsign, hoffset⟩
  · have hfree : ∀ c, isSpace c = false → c.isDigit = false → c ≠ ':' → c ∉ r.time := by
      intro c hspace hdigit hcolon hc
      have hhead := zone_of_sign_mem_time h hspace hdigit hcolon hc
      rw [hzone] at hhead
      simp at hhead
    rw [hzone]
    exact ⟨none, .noZone time_ne_nil z_not_mem_time (hfree _ (by decide) (by decide) (by decide))
      (hfree _ (by decide) (by decide) (by decide)), rfl⟩
  · rw [hzone]
    exact ⟨some ['Z'], .utc z_not_mem_time, rfl⟩
  · have hdigits := hoffset.1
    have hne : digits ≠ [] := by
      rintro rfl
      rcases hoffset.2 with ⟨hlen, -⟩ | ⟨hlen, -⟩
      · cases hlen
      · cases hlen
    have hnoz : 'Z' ∉ digits := not_mem_digits hdigits (by decide)
    have hz : 'Z' ∉ r.time ++ digits := by
      simpa using ⟨z_not_mem_time, hnoz⟩
    have hminus : '-' ∉ r.time := by
      intro hc
      have hhead := zone_of_sign_mem_time h (by decide) (by decide) (by decide) hc
      rw [hzone] at hhead
      rcases hsign with rfl | rfl
      · simp at hhead
      · simp at hhead
    rw [hzone]
    refine ⟨some digits, ?_, (timezoneIsValid_iff hnoz).mpr hoffset⟩
    rcases hsign with rfl | rfl
    · have hplus : '+' ∉ r.time := by
        intro hc
        have hhead := zone_of_sign_mem_time h (by decide) (by decide) (by decide) hc
        rw [hzone] at hhead
        simp at hhead
      refine .plus hne hz ?_ hplus
      have hnone : '-' ∉ digits := not_mem_digits hdigits (by decide)
      simpa using ⟨hminus, hnone⟩
    · exact .minus hne hz hminus

/-- What a cut says about the signs before it, and about the designator when it is valid. -/
theorem CutAt.signs
    {time zone : Text} {tz : Option Text}
    (h : CutAt time zone tz)
    {c : Char}
    (hc : c ∈ time)
    (hsign : c = '+' ∨ c = '-') :
    zone.head? = some 'Z' ∨ (c = '+' ∧ zone.head? = some '-') := by
  cases h with
  | noZone hne hz hminus hplus =>
      rcases hsign with rfl | rfl
      · exact absurd hc hplus
      · exact absurd hc hminus
  | utc hz => exact .inl rfl
  | minus hne hz hminus =>
      rcases hsign with rfl | rfl
      · exact .inr ⟨rfl, rfl⟩
      · exact absurd hc hminus
  | plus hne hz hminus hplus =>
      rcases hsign with rfl | rfl
      · exact absurd hc hplus
      · exact absurd (List.mem_append_left _ hc) hminus

theorem CutAt.zone
    {time zone : Text} {tz : Option Text}
    (h : CutAt time zone tz)
    (hvalid : timezoneIsValid tz = true) :
    Zone (fun _ => True) (fun minute => minute % 15 = 0) zone := by
  cases h with
  | noZone hne hz hminus hplus => exact .inl rfl
  | utc hz => exact .inr (.inl ⟨_, rfl, trivial⟩)
  | minus hne hz hminus =>
      have hnoz := fun hmem => hz (List.mem_append_right time hmem)
      exact .inr (.inr ⟨'-', _, rfl, .inr rfl, (timezoneIsValid_iff hnoz).mp hvalid⟩)
  | plus hne hz hminus hplus =>
      have hnoz := fun hmem => hz (List.mem_append_right time hmem)
      exact .inr (.inr ⟨'+', _, rfl, .inl rfl, (timezoneIsValid_iff hnoz).mp hvalid⟩)

/-- `timestamp_is_valid` accepts the readings that pass its checks. -/
theorem timestampIsValid_iff
    {ts : Text} :
    timestampIsValid ts = true ↔ ∃ r : TimestampReading, r.Accepted ∧ r.text = ts := by
  constructor
  · intro h
    unfold timestampIsValid at h
    cases hsplit : timestampSplit ts with
    | none =>
        rw [hsplit] at h
        cases h
    | some parts =>
        obtain ⟨date, time, tz⟩ := parts
        rw [hsplit] at h
        dsimp only at h
        by_cases hboth : ((timeToLong date '-').isNone || (timeToLong time ':').isNone) = true
        · rw [if_pos hboth] at h
          cases h
        rw [if_neg hboth] at h
        simp only [Bool.or_eq_true, Option.isNone_iff_eq_none, not_or] at hboth
        obtain ⟨zone, rfl, hcut⟩ := exists_cut_of_timestampSplit hsplit
        obtain ⟨year, mon, mday, hdate, rfl⟩ :=
          (timeToLong_isSome_iff (by decide)).mp (Option.isSome_iff_ne_none.mpr hboth.1)
        obtain ⟨hour, min, sec, htime, rfl⟩ :=
          (timeToLong_isSome_iff (by decide)).mp (Option.isSome_iff_ne_none.mpr hboth.2)
        refine ⟨⟨year, mon, mday, hour, min, sec, zone⟩, ⟨?_, ?_, hcut.zone h⟩, rfl⟩
        · exact fun a ha => (List.mem_append.mp (show a ∈ [year, mon, mday] ++ [hour, min, sec]
            from ha)).elim (hdate a) (htime a)
        · intro a ha c hc
          refine hcut.signs ?_ (sign_chars hc)
          have hmem : c ∈ a.text := List.mem_append_right _ (List.mem_append_left _ hc)
          simp only [TimestampReading.clock, List.mem_cons, List.not_mem_nil, or_false] at ha
          simp only [List.mem_append, List.mem_cons]
          rcases ha with rfl | rfl | rfl
          · exact .inl hmem
          · exact .inr (.inr (.inl hmem))
          · exact .inr (.inr (.inr (.inr hmem)))
  · rintro ⟨r, hr, rfl⟩
    obtain ⟨tz, hcut, hzone⟩ := exists_cutAt hr
    have hsplit := timestampSplit_append (not_mem_date (r := r) (by decide) (by decide) (by decide))
      hcut
    have hdate : (timeToLong r.date '-').isSome = true :=
      (timeToLong_isSome_iff (by decide)).mpr ⟨r.year, r.mon, r.mday,
        fun a ha => hr.fits a (List.mem_append_left r.clock ha), rfl⟩
    have htime : (timeToLong r.time ':').isSome = true :=
      (timeToLong_isSome_iff (by decide)).mpr ⟨r.hour, r.min, r.sec,
        fun a ha => hr.fits a (List.mem_append_right [r.year, r.mon, r.mday] ha), rfl⟩
    unfold timestampIsValid TimestampReading.text
    rw [hsplit]
    dsimp only
    rw [if_neg (by simp [Option.isSome_iff_ne_none.mp hdate, Option.isSome_iff_ne_none.mp htime]),
      hzone]

/-- No digit begins a designator. -/
theorem ends_of_zone
    {tail : Text → Prop} {minutes : Nat → Prop} {zone : Text}
    (h : Zone tail minutes zone) :
    Ends zone := by
  rcases h with rfl | ⟨more, rfl, -⟩ | ⟨sign, digits, rfl, rfl | rfl, -⟩
  · exact ends_nil
  · exact ends_cons (by decide)
  · exact ends_cons (by decide)
  · exact ends_cons (by decide)

/-- A text has one reading at most. -/
theorem reading_unique
    {r q : TimestampReading}
    (hr : Ends r.zone)
    (hq : Ends q.zone)
    (h : r.text = q.text) :
    r = q := by
  have hminus : ∀ t, Ends ('-' :: t) := fun t => ends_cons (by decide)
  have hcolon : ∀ t, Ends (':' :: t) := fun t => ends_cons (by decide)
  have hT : ∀ t, Ends ('T' :: t) := fun t => ends_cons (by decide)
  simp only [TimestampReading.text, TimestampReading.date, TimestampReading.time, List.append_assoc,
    List.cons_append] at h
  obtain ⟨hyear, h⟩ := Written.append_inj (hminus _) (hminus _) h
  obtain ⟨hmon, h⟩ := Written.append_inj (hminus _) (hminus _) (List.tail_eq_of_cons_eq h)
  obtain ⟨hmday, h⟩ := Written.append_inj (hT _) (hT _) (List.tail_eq_of_cons_eq h)
  obtain ⟨hhour, h⟩ := Written.append_inj (hcolon _) (hcolon _) (List.tail_eq_of_cons_eq h)
  obtain ⟨hmin, h⟩ := Written.append_inj (hcolon _) (hcolon _) (List.tail_eq_of_cons_eq h)
  obtain ⟨hsec, hzone⟩ := Written.append_inj hr hq (List.tail_eq_of_cons_eq h)
  exact TimestampReading.ext hyear hmon hmday hhour hmin hsec hzone

/-- The documented readings are the accepted ones that are exact. -/
theorem documented_iff : r.Documented ↔ r.Accepted ∧ r.Exact := by
  constructor
  · intro h
    have hvalue : ∀ a ∈ r.numbers, 0 ≤ a.value := by
      intro a ha
      rw [Written.value_eq_of_plain (h.plain a ha)]
      exact Int.natCast_nonneg _
    have hmin : longMin ≤ 0 := by decide
    refine ⟨⟨fun a ha => ⟨hmin.trans (hvalue a ha), h.fits a ha⟩, ?_, ?_⟩, ⟨h.plain, ?_, ?_⟩⟩
    · intro a ha c hc
      rw [(h.plain a (List.mem_append_right [r.year, r.mon, r.mday] ha)).2] at hc
      cases hc
    · rcases h.zone with hzone | ⟨more, hzone, -⟩ | ⟨sign, digits, hzone, hsign, hdigits, hoffset⟩
      · exact .inl hzone
      · exact .inr (.inl ⟨more, hzone, trivial⟩)
      · refine .inr (.inr ⟨sign, digits, hzone, hsign, hdigits, ?_⟩)
        rcases hoffset with hhours | ⟨hlen, ⟨hless, hminutes⟩ | htwelve⟩
        · exact .inl hhours
        · refine .inr ⟨hlen, .inl ⟨hless, ?_⟩⟩
          simp only [List.mem_cons, List.not_mem_nil, or_false] at hminutes
          omega
        · exact .inr ⟨hlen, .inr htwelve⟩
    · intro more hmore
      rcases h.zone with hzone | ⟨more', hzone, hnil⟩ | ⟨sign, digits, hzone, hsign, -⟩
      · rw [hzone] at hmore
        cases hmore
      · rw [hzone] at hmore
        rw [← List.tail_eq_of_cons_eq hmore, hnil]
      · rw [hzone] at hmore
        obtain rfl := List.head_eq_of_cons_eq hmore
        rcases hsign with hsign | hsign
        · cases hsign
        · cases hsign
    · intro hlen
      rcases h.zone with hzone | ⟨more, hzone, hnil⟩ | ⟨sign, digits, hzone, hsign, hdigits, hoffset⟩
      · rw [hzone] at hlen
        cases hlen
      · rw [hzone, hnil] at hlen
        cases hlen
      · rw [hzone] at hlen ⊢
        rcases hoffset with ⟨htwo, -⟩ | ⟨-, ⟨-, hminutes⟩ | ⟨-, hminutes⟩⟩
        · simp [htwo] at hlen
        · simp only [List.mem_cons, List.not_mem_nil, or_false] at hminutes
          show digitsValue (digits.drop 2) < 60
          omega
        · show digitsValue (digits.drop 2) < 60
          omega
  · rintro ⟨h, hexact⟩
    refine ⟨hexact.plain, fun a ha => (h.fits a ha).2, ?_⟩
    rcases h.zone with hzone | ⟨more, hzone, -⟩ | ⟨sign, digits, hzone, hsign, hdigits, hoffset⟩
    · exact .inl hzone
    · exact .inr (.inl ⟨more, hzone, hexact.utc more hzone⟩)
    · refine .inr (.inr ⟨sign, digits, hzone, hsign, hdigits, ?_⟩)
      rcases hoffset with hhours | ⟨hlen, ⟨hless, hminutes⟩ | htwelve⟩
      · exact .inl hhours
      · refine .inr ⟨hlen, .inl ⟨hless, ?_⟩⟩
        have hsixty : digitsValue (digits.drop 2) < 60 := by
          have hfive := hexact.minutes
          rw [hzone] at hfive
          exact hfive (by simp [hlen])
        simp only [List.mem_cons, List.not_mem_nil, or_false]
        omega
      · exact .inr ⟨hlen, .inr htwelve⟩

end Validity

/-- The timestamps that are valid are those in the documented format exactly where the text has no
reading that passes the checks with blanks, signs, something behind its `Z` or an offset of 60
minutes and more. -/
theorem timestampIsValid_format_iff (ts : Text) :
    (timestampIsValid ts = true ↔ ∃ r : TimestampReading, r.Documented ∧ r.text = ts) ↔
      ∀ r : TimestampReading, r.Accepted → r.text = ts → r.Exact := by
  rw [timestampIsValid_iff]
  constructor
  · intro h r hr hts
    obtain ⟨q, hq, hqts⟩ := h.mp ⟨r, hr, hts⟩
    obtain rfl := reading_unique (ends_of_zone hr.zone) (ends_of_zone hq.zone)
      (hts.trans hqts.symm)
    exact (documented_iff.mp hq).2
  · intro h
    constructor
    · rintro ⟨r, hr, hts⟩
      exact ⟨r, documented_iff.mpr ⟨hr, h r hr hts⟩, hts⟩
    · rintro ⟨r, hr, hts⟩
      exact ⟨r, (documented_iff.mp hr).1, hts⟩

/-- What follows a `Z` is not looked at. -/
theorem timestampIsValid_junk :
    ¬ (timestampIsValid "2014-10-14T10:00:00Zoo".toList = true ↔
      ∃ r : TimestampReading, r.Documented ∧ r.text = "2014-10-14T10:00:00Zoo".toList) := by
  intro h
  obtain ⟨r, hr, hts⟩ := h.mp (by decide +kernel)
  have hr' : r =
      { year := .ofDigits "2014".toList (by decide) (by simp)
        mon := .ofDigits "10".toList (by decide) (by simp)
        mday := .ofDigits "14".toList (by decide) (by simp)
        hour := .ofDigits "10".toList (by decide) (by simp)
        min := .ofDigits "00".toList (by decide) (by simp)
        sec := .ofDigits "00".toList (by decide) (by simp)
        zone := "Zoo".toList } :=
    reading_unique (ends_of_zone hr.zone) (ends_cons (by decide)) hts
  have hutc := (documented_iff.mp hr).2.utc "oo".toList (by rw [hr']; rfl)
  cases hutc

end Obix
