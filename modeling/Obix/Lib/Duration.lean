import Obix.Lib.CString
import Mathlib.Data.Rat.Defs

/-!
# Durations

The texts of durations in days, hours, minutes and seconds, with the rational
number of seconds that each of them denotes, and the numbers that a duration in
milliseconds splits into.

A literal is built from numerals that carry their own well-formedness, so that
every literal is in the grammar.  The grammar is unambiguous: a text is that of
one literal at most (`Literal.text_injective`), and what it denotes is unique.
-/

namespace Duration

open CString

section Grammar

/-- A non-empty string of digits. -/
@[ext]
structure Numeral where
  digits : Text
  ne_nil : digits ≠ []
  isDigit : ∀ c ∈ digits, c.isDigit = true

/-- The number that a numeral stands for. -/
def Numeral.value (n : Numeral) : Nat := Nat.ofDigitChars 10 n.digits 0

/-- The numeral of a number, without leading zeros. -/
def Numeral.ofNat (n : Nat) : Numeral where
  digits := Nat.toDigits 10 n
  ne_nil := Nat.toDigits_ne_nil
  isDigit := fun _ hc => Nat.isDigit_of_mem_toDigits (by omega) (by omega) hc

@[simp] theorem Numeral.value_ofNat (n : Nat) : (Numeral.ofNat n).value = n :=
  Nat.ofDigitChars_ten_toDigits

/-- A fraction in thousandths. -/
@[ext]
structure Thousandths extends Numeral where
  length_eq : digits.length = 3

/-- Seconds, with or without a fraction. -/
@[ext]
structure Seconds where
  whole : Numeral
  fraction : Option Thousandths

/-- A time section: at least one of its numbers is there. -/
@[ext]
structure Time where
  hours : Option Numeral
  minutes : Option Numeral
  seconds : Option Seconds
  nonempty : hours.isSome ∨ minutes.isSome ∨ seconds.isSome

/-- A duration as it is written. -/
@[ext]
structure Literal where
  negative : Bool
  days : Option Numeral
  time : Option Time

/-- A number with the letter of its unit. -/
def unitText (letter : Char) : Option Numeral → Text
  | none => []
  | some n => n.digits ++ [letter]

/-- The seconds behind their whole part. -/
def fractionText : Option Thousandths → Text
  | none => ['S']
  | some f => '.' :: (f.digits ++ ['S'])

def secondsText : Option Seconds → Text
  | none => []
  | some s => s.whole.digits ++ fractionText s.fraction

def Time.text (t : Time) : Text :=
  unitText 'H' t.hours ++ (unitText 'M' t.minutes ++ secondsText t.seconds)

/-- The section with its `T`. -/
def timeText : Option Time → Text
  | none => []
  | some t => 'T' :: t.text

def Literal.text (l : Literal) : Text :=
  (if l.negative then ['-'] else []) ++ 'P' :: (unitText 'D' l.days ++ timeText l.time)

/-- The number of an optional part. -/
def unitValue (o : Option Numeral) : ℚ :=
  o.elim 0 fun n => n.value

def Seconds.value (s : Seconds) : ℚ :=
  s.whole.value + s.fraction.elim 0 fun f => (f.value : ℚ) / 1000

def Time.value (t : Time) : ℚ :=
  unitValue t.hours * 3600 + unitValue t.minutes * 60 + t.seconds.elim 0 Seconds.value

/-- The seconds that a literal denotes. -/
def Literal.value (l : Literal) : ℚ :=
  (if l.negative then -1 else 1) * (unitValue l.days * 86400 + l.time.elim 0 Time.value)

/-- A text is in the grammar and denotes a number of seconds. -/
def Denotes (s : Text) (q : ℚ) : Prop :=
  ∃ l : Literal, l.text = s ∧ l.value = q

end Grammar

section Unambiguous

/-- The first character that is not a digit. -/
def mark (s : Text) : Option Char := (s.dropWhile Char.isDigit).head?

theorem mark_digits
    (n : Numeral)
    (r : Text) :
    mark (n.digits ++ r) = mark r := by
  rw [mark, List.dropWhile_append_of_pos n.isDigit, mark]

theorem mark_cons
    {c : Char}
    (hc : c.isDigit = false)
    (r : Text) :
    mark (c :: r) = some c := by
  simp [mark, hc]

theorem mark_unitText
    {c : Char}
    (hc : c.isDigit = false)
    (o : Option Numeral)
    (r : Text) :
    mark (unitText c o ++ r) = if o.isSome then some c else mark r := by
  cases o with
  | none => rfl
  | some n => simp [unitText, mark_digits, mark_cons hc]

/-- A numeral ends where the first other character stands. -/
theorem Numeral.append_inj
    {a b : Numeral} {c d : Char} {r s : Text}
    (hc : c.isDigit = false)
    (hd : d.isDigit = false)
    (h : a.digits ++ c :: r = b.digits ++ d :: s) :
    a = b ∧ c :: r = d :: s := by
  have htake : ∀ (n : Numeral) {e : Char} (t : Text), e.isDigit = false →
      (n.digits ++ e :: t).takeWhile Char.isDigit = n.digits := by
    intro n e t he
    rw [List.takeWhile_append_of_pos n.isDigit]
    simp [he]
  have hdigits : a.digits = b.digits := by
    rw [← htake a r hc, h, htake b s hd]
  refine ⟨Numeral.ext hdigits, ?_⟩
  rw [hdigits] at h
  exact List.append_cancel_left h

/-- A part with a unit is told from what follows by its letter. -/
theorem unitText_append_inj
    {c : Char} {a b : Option Numeral} {r s : Text}
    (hc : c.isDigit = false)
    (hr : mark r ≠ some c)
    (hs : mark s ≠ some c)
    (h : unitText c a ++ r = unitText c b ++ s) :
    a = b ∧ r = s := by
  have hmark := congrArg mark h
  rw [mark_unitText hc, mark_unitText hc] at hmark
  cases a with
  | none =>
      cases b with
      | none => exact ⟨rfl, h⟩
      | some n => exact absurd (by simpa using hmark) hr
  | some m =>
      cases b with
      | none => exact absurd (by simpa using hmark.symm) hs
      | some n =>
          simp only [unitText, List.append_assoc, List.singleton_append] at h
          obtain ⟨hmn, hrs⟩ := Numeral.append_inj hc hc h
          exact ⟨congrArg some hmn, (List.cons.inj hrs).2⟩

theorem fractionText_head
    (f : Option Thousandths) :
    ∃ c r, fractionText f = c :: r ∧ c.isDigit = false ∧ c ≠ 'H' ∧ c ≠ 'M' := by
  cases f with
  | none => exact ⟨'S', [], rfl, by decide, by decide, by decide⟩
  | some f => exact ⟨'.', f.digits ++ ['S'], rfl, by decide, by decide, by decide⟩

theorem fractionText_injective : Function.Injective fractionText := by
  intro f g h
  cases f with
  | none =>
      cases g with
      | none => rfl
      | some g => simp [fractionText] at h
  | some f =>
      cases g with
      | none => simp [fractionText] at h
      | some g =>
          simp only [fractionText, List.cons.injEq, true_and] at h
          exact congrArg some (Thousandths.ext (List.append_cancel_right h))

theorem mark_secondsText
    (s : Option Seconds) :
    mark (secondsText s) ≠ some 'H' ∧ mark (secondsText s) ≠ some 'M' := by
  cases s with
  | none => simp [secondsText, mark]
  | some s =>
      obtain ⟨c, r, hcr, hc, hH, hM⟩ := fractionText_head s.fraction
      rw [secondsText, mark_digits, hcr, mark_cons hc]
      exact ⟨by simpa using hH, by simpa using hM⟩

theorem secondsText_injective : Function.Injective secondsText := by
  intro s t h
  cases s with
  | none =>
      cases t with
      | none => rfl
      | some t => exact absurd (List.append_eq_nil_iff.mp h.symm).1 t.whole.ne_nil
  | some s =>
      cases t with
      | none => exact absurd (List.append_eq_nil_iff.mp h).1 s.whole.ne_nil
      | some t =>
          obtain ⟨c, r, hcr, hc, -⟩ := fractionText_head s.fraction
          obtain ⟨d, r', hdr, hd, -⟩ := fractionText_head t.fraction
          simp only [secondsText, hcr, hdr] at h
          obtain ⟨hwhole, hrest⟩ := Numeral.append_inj hc hd h
          rw [← hcr, ← hdr] at hrest
          exact congrArg some (Seconds.ext hwhole (fractionText_injective hrest))

theorem Time.text_injective : Function.Injective Time.text := by
  intro t u h
  have hH : ∀ v : Time, mark (unitText 'M' v.minutes ++ secondsText v.seconds) ≠ some 'H' := by
    intro v
    rw [mark_unitText (by decide)]
    split
    · decide
    · exact (mark_secondsText v.seconds).1
  obtain ⟨hhours, h⟩ := unitText_append_inj (by decide) (hH t) (hH u) h
  obtain ⟨hminutes, h⟩ := unitText_append_inj (by decide) (mark_secondsText t.seconds).2
    (mark_secondsText u.seconds).2 h
  exact Time.ext hhours hminutes (secondsText_injective h)

theorem timeText_injective : Function.Injective timeText := by
  intro t u h
  cases t with
  | none =>
      cases u with
      | none => rfl
      | some u => simp [timeText] at h
  | some t =>
      cases u with
      | none => simp [timeText] at h
      | some u => exact congrArg some (Time.text_injective (List.cons.inj h).2)

/-- The grammar is unambiguous. -/
theorem Literal.text_injective : Function.Injective Literal.text := by
  intro l k h
  have hD : ∀ t : Option Time, mark (timeText t) ≠ some 'D' := by
    intro t
    cases t with
    | none => simp [timeText, mark]
    | some t => simp [timeText, mark]
  have hsplit : l.negative = k.negative ∧
      unitText 'D' l.days ++ timeText l.time = unitText 'D' k.days ++ timeText k.time := by
    cases hl : l.negative with
    | false =>
        cases hk : k.negative with
        | false => simpa [Literal.text, hl, hk] using h
        | true => simp [Literal.text, hl, hk] at h
    | true =>
        cases hk : k.negative with
        | false => simp [Literal.text, hl, hk] at h
        | true => simpa [Literal.text, hl, hk] using h
  obtain ⟨hdays, htime⟩ := unitText_append_inj (by decide) (hD _) (hD _) hsplit.2
  exact Literal.ext hsplit.1 hdays (timeText_injective htime)

/-- A text denotes one number. -/
theorem Denotes.unique
    {s : Text} {q q' : ℚ}
    (h : Denotes s q)
    (h' : Denotes s q') :
    q = q' := by
  obtain ⟨l, hl, rfl⟩ := h
  obtain ⟨k, hk, rfl⟩ := h'
  rw [Literal.text_injective (hl.trans hk.symm)]

end Unambiguous

section Characters

/-- The characters of durations. -/
def alphabet : List Char := ['-', 'P', 'D', 'T', 'H', 'M', 'S', '.']

/-- A character of a literal is a digit or one of the letters and signs. -/
theorem Literal.mem_text
    {l : Literal} {c : Char}
    (h : c ∈ l.text) :
    c.isDigit = true ∨ c ∈ alphabet := by
  have hunit : ∀ {letter : Char} {o : Option Numeral}, letter ∈ alphabet → c ∈ unitText letter o →
      c.isDigit = true ∨ c ∈ alphabet := by
    intro letter o hletter hc
    cases o with
    | none => exact absurd hc List.not_mem_nil
    | some n =>
        rcases List.mem_append.mp hc with hc | hc
        · exact Or.inl (n.isDigit c hc)
        · exact Or.inr (List.mem_singleton.mp hc ▸ hletter)
  have hseconds : ∀ {s : Option Seconds}, c ∈ secondsText s → c.isDigit = true ∨ c ∈ alphabet := by
    intro s hc
    rcases s with _ | ⟨whole, _ | f⟩
    · exact absurd hc List.not_mem_nil
    · rcases List.mem_append.mp hc with hc | hc
      · exact Or.inl (whole.isDigit c hc)
      · exact Or.inr (List.mem_singleton.mp hc ▸ by decide)
    · rcases List.mem_append.mp hc with hc | hc
      · exact Or.inl (whole.isDigit c hc)
      · rcases List.mem_cons.mp hc with rfl | hc
        · exact Or.inr (by decide)
        · rcases List.mem_append.mp hc with hc | hc
          · exact Or.inl (f.isDigit c hc)
          · exact Or.inr (List.mem_singleton.mp hc ▸ by decide)
  have htime : ∀ {t : Option Time}, c ∈ timeText t → c.isDigit = true ∨ c ∈ alphabet := by
    intro t hc
    cases t with
    | none => exact absurd hc List.not_mem_nil
    | some t =>
        rcases List.mem_cons.mp hc with rfl | hc
        · exact Or.inr (by decide)
        · rcases List.mem_append.mp hc with hc | hc
          · exact hunit (by decide) hc
          · rcases List.mem_append.mp hc with hc | hc
            · exact hunit (by decide) hc
            · exact hseconds hc
  rcases List.mem_append.mp h with hc | hc
  · split at hc
    · exact Or.inr (List.mem_singleton.mp hc ▸ by decide)
    · exact absurd hc List.not_mem_nil
  · rcases List.mem_cons.mp hc with rfl | hc
    · exact Or.inr (by decide)
    · rcases List.mem_append.mp hc with hc | hc
      · exact hunit (by decide) hc
      · exact htime hc

/-- There is no blank in a literal. -/
theorem Literal.blank_not_mem (l : Literal) : ' ' ∉ l.text := by
  intro h
  rcases Literal.mem_text h with h | h
  · exact absurd h (by decide)
  · exact absurd h (by decide)

end Characters

section Spans

/-- Milliseconds split into units. -/
@[ext]
structure Span where
  days : Nat
  hours : Nat
  minutes : Nat
  seconds : Nat
  millis : Nat
  deriving DecidableEq, Repr

/-- The milliseconds of a span. -/
def Span.total (s : Span) : Nat :=
  s.days * 86400000 + s.hours * 3600000 + s.minutes * 60000 + s.seconds * 1000 + s.millis

end Spans

end Duration
