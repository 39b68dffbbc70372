import Obix.Lib.Numerals

/-!
# Numbers as they are written

A number that `strtol` reads carries its blanks, its sign and its digits, so that a text built of
such numbers is told from the text alone (`Written.append_inj`).  One without blanks and a sign is
a string of digits.
-/

namespace CString

/-- White space, a sign and digits. -/
@[ext]
structure Written where
  blanks : Text
  sign : Text
  digits : Text
  isSpace : ∀ c ∈ blanks, isSpace c = true
  isSign : sign = [] ∨ sign = ['+'] ∨ sign = ['-']
  ne_nil : digits ≠ []
  isDigit : ∀ c ∈ digits, c.isDigit = true

/-- No digit follows. -/
def Ends (rest : Text) : Prop :=
  ∀ c, rest.head? = some c → c.isDigit = false

/-- What a `long` keeps of a number that `strtol` reads. -/
def clipLong (n : Int) : Int :=
  if n > longMax then longMax else if n < longMin then longMin else n

/-- The character that `strtol` stops at. -/
def mark (s : Text) : Option Char :=
  (strtol s).rest.head?

namespace Written

variable (a : Written) {rest : Text}

def text : Text :=
  a.blanks ++ (a.sign ++ a.digits)

/-- The number that the digits stand for. -/
def magnitude : Nat :=
  Nat.ofDigitChars 10 a.digits 0

def value : Int :=
  if a.sign = ['-'] then -(a.magnitude : Int) else a.magnitude

/-- A string of digits, as a number. -/
def ofDigits
    (digits : Text)
    (hne : digits ≠ [])
    (hdigits : ∀ c ∈ digits, c.isDigit = true) :
    Written where
  blanks := []
  sign := []
  digits := digits
  isSpace := fun _ hc => absurd hc List.not_mem_nil
  isSign := .inl rfl
  ne_nil := hne
  isDigit := hdigits

/-- There are only digits. -/
def Plain : Prop :=
  a.blanks = [] ∧ a.sign = []

end Written

theorem ends_nil : Ends [] := by
  intro c hc
  cases hc

theorem ends_cons
    {c : Char} {rest : Text}
    (hc : c.isDigit = false) :
    Ends (c :: rest) := by
  intro d hd
  rw [← Option.some.inj hd]
  exact hc

theorem clipLong_eq
    {n : Int}
    (hlo : longMin ≤ n)
    (hhi : n ≤ longMax) :
    clipLong n = n := by
  rw [clipLong, if_neg (not_lt.mpr hhi), if_neg (not_lt.mpr hlo)]

section Read

variable {a b : Written} {r s : Text}

theorem Written.text_ne_nil (a : Written) : a.text ≠ [] := by
  intro h
  exact a.ne_nil (List.append_eq_nil_iff.mp (List.append_eq_nil_iff.mp h).2).2

theorem Written.value_eq_of_plain
    (h : a.Plain) :
    a.value = a.magnitude := by
  rw [Written.value, h.2, if_neg (by simp)]

theorem Written.text_eq_of_plain
    (h : a.Plain) :
    a.text = a.digits := by
  rw [Written.text, h.1, h.2]
  rfl

/-- What `strtol` makes of a number. -/
theorem strtol_written
    (a : Written)
    (hr : Ends r) :
    strtol (a.text ++ r) =
      { value := clipLong a.value, erange := decide (a.value < longMin ∨ longMax < a.value),
        rest := r, converted := true } := by
  have h := strtol_sign_digits a.isSpace a.isSign a.ne_nil a.isDigit hr
  rw [Written.text, List.append_assoc, List.append_assoc, h]
  dsimp only
  change (if a.value > longMax then _ else if a.value < longMin then _ else _) = _
  unfold clipLong
  by_cases hmax : a.value > longMax
  · rw [if_pos hmax, if_pos hmax, decide_eq_true (.inr hmax)]
  · rw [if_neg hmax, if_neg hmax]
    by_cases hmin : a.value < longMin
    · rw [if_pos hmin, if_pos hmin, decide_eq_true (.inl hmin)]
    · rw [if_neg hmin, if_neg hmin, decide_eq_false (by simp only [not_or]; exact ⟨hmin, hmax⟩)]
      rfl

/-- What `strtol` converts is a number. -/
theorem exists_written
    (h : (strtol s).converted = true) :
    ∃ (a : Written) (r : Text), s = a.text ++ r ∧ Ends r := by
  obtain ⟨blanks, sign, digits, r, rfl, hblanks, hsign, hne, hdigits, hr⟩ := exists_sign_digits h
  exact ⟨⟨blanks, sign, digits, hblanks, hsign, hne, hdigits⟩, r, by simp [Written.text], hr⟩

theorem rest_strtol_of_not_converted
    (h : (strtol s).converted = false) :
    (strtol s).rest = s := by
  unfold strtol at h ⊢
  dsimp only at h ⊢
  generalize (if (s.dropWhile isSpace).head? = some '-' ∨ (s.dropWhile isSpace).head? = some '+'
    then (s.dropWhile isSpace).tail else s.dropWhile isSpace) = u at h ⊢
  by_cases hu : u.takeWhile Char.isDigit = []
  · rw [if_pos hu]
  · rw [if_neg hu] at h
    split_ifs at h

theorem mark_written
    (a : Written)
    (hr : Ends r) :
    mark (a.text ++ r) = r.head? := by
  rw [mark, strtol_written a hr]

theorem mark_cons
    {c : Char}
    (hspace : isSpace c = false)
    (hminus : c ≠ '-')
    (hplus : c ≠ '+')
    (hdigit : c.isDigit = false)
    (r : Text) :
    mark (c :: r) = some c := by
  rw [mark, strtol_none hspace hminus hplus hdigit r]
  rfl

theorem mark_nil : mark [] = none := rfl

/-- The digits of a number are all the digits that there are. -/
theorem takeWhile_digits
    {digits : Text}
    (hdigits : ∀ c ∈ digits, c.isDigit = true)
    (hr : Ends r) :
    (digits ++ r).takeWhile Char.isDigit = digits := by
  rw [List.takeWhile_append_of_pos hdigits]
  cases r with
  | nil => rw [List.takeWhile_nil, List.append_nil]
  | cons c r => rw [List.takeWhile_cons_of_neg (by simp [hr c rfl]), List.append_nil]

/-- A number ends where no digit follows. -/
theorem Written.append_inj
    (hr : Ends r)
    (hs : Ends s)
    (h : a.text ++ r = b.text ++ s) :
    a = b ∧ r = s := by
  have hhead : ∀ (e : Written) (t : Text), ∃ c u, e.sign ++ (e.digits ++ t) = c :: u ∧
      CString.isSpace c = false := by
    intro e t
    obtain ⟨d, ds, hd⟩ := List.exists_cons_of_ne_nil e.ne_nil
    rcases e.isSign with hsign | hsign | hsign
    · rw [hsign, hd]
      exact ⟨d, ds ++ t, rfl, (not_isSpace_of_isDigit (e.isDigit d (hd ▸ List.mem_cons_self))).1⟩
    · rw [hsign]
      exact ⟨'+', e.digits ++ t, rfl, rfl⟩
    · rw [hsign]
      exact ⟨'-', e.digits ++ t, rfl, rfl⟩
  have hblanks : ∀ (e : Written) (t : Text),
      (e.text ++ t).takeWhile CString.isSpace = e.blanks := by
    intro e t
    obtain ⟨c, u, hcu, hc⟩ := hhead e t
    rw [Written.text, List.append_assoc, List.append_assoc, hcu,
      List.takeWhile_append_of_pos e.isSpace, List.takeWhile_cons_of_neg (by simp [hc]),
      List.append_nil]
  have hsame : a.blanks = b.blanks := by rw [← hblanks a r, h, hblanks b s]
  rw [Written.text, Written.text, hsame, List.append_assoc, List.append_assoc, List.append_assoc,
    List.append_assoc] at h
  have hrest := List.append_cancel_left h
  -- a sign is no digit
  have hfirst : ∀ (e : Written) (t : Text), ∃ c u, e.digits ++ t = c :: u ∧ c ≠ '-' ∧ c ≠ '+' := by
    intro e t
    obtain ⟨d, ds, hd⟩ := List.exists_cons_of_ne_nil e.ne_nil
    obtain ⟨-, hminus, hplus⟩ := not_isSpace_of_isDigit (e.isDigit d (hd ▸ List.mem_cons_self))
    exact ⟨d, ds ++ t, by rw [hd]; rfl, hminus, hplus⟩
  obtain ⟨c, u, hcu, hcminus, hcplus⟩ := hfirst a r
  obtain ⟨d, v, hdv, hdminus, hdplus⟩ := hfirst b s
  have hsign : a.sign = b.sign := by
    rw [hcu, hdv] at hrest
    rcases a.isSign with ha | ha | ha
    · rcases b.isSign with hb | hb | hb
      · rw [ha, hb]
      · rw [ha, hb] at hrest
        exact absurd (List.head_eq_of_cons_eq hrest) hcplus
      · rw [ha, hb] at hrest
        exact absurd (List.head_eq_of_cons_eq hrest) hcminus
    · rcases b.isSign with hb | hb | hb
      · rw [ha, hb] at hrest
        exact absurd (List.head_eq_of_cons_eq hrest).symm hdplus
      · rw [ha, hb]
      · rw [ha, hb] at hrest
        exact absurd (List.head_eq_of_cons_eq hrest) (by decide)
    · rcases b.isSign with hb | hb | hb
      · rw [ha, hb] at hrest
        exact absurd (List.head_eq_of_cons_eq hrest).symm hdminus
      · rw [ha, hb] at hrest
        exact absurd (List.head_eq_of_cons_eq hrest) (by decide)
      · rw [ha, hb]
  rw [hsign] at hrest
  have hdigits := List.append_cancel_left hrest
  have hequal : a.digits = b.digits := by
    rw [← takeWhile_digits a.isDigit hr, hdigits, takeWhile_digits b.isDigit hs]
  rw [hequal] at hdigits
  exact ⟨Written.ext hsame hsign hequal, List.append_cancel_left hdigits⟩

end Read

end CString
