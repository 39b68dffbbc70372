import Obix.Lib.CString
import Mathlib.Data.List.TakeWhile

/-!
# Printed numbers

A number that is printed with `%d` is read back by `strtol`, also when blanks
were put before it, and nothing is read where no number begins.  What `strtol`
accepts is white space, a sign and digits, with anything behind them
(`strtol_eq_iff`).
-/

namespace CString

@[simp] theorem showInt_natCast (n : Nat) : showInt n = Nat.toDigits 10 n := by
  simp [showInt]

/-- Digits that follow make a number no smaller. -/
theorem le_ofDigitChars (ds : Text) (v : Nat) :
    v ≤ Nat.ofDigitChars 10 ds v := by
  induction ds generalizing v with
  | nil => simp
  | cons c ds ih =>
      rw [Nat.ofDigitChars_cons]
      exact Nat.le_trans (by omega) (ih _)

theorem ofDigitChars_lt
    {digits : Text}
    (hdigits : ∀ c ∈ digits, c.isDigit = true)
    (init : Nat) :
    Nat.ofDigitChars 10 digits init < (init + 1) * 10 ^ digits.length := by
  induction digits generalizing init with
  | nil => simp
  | cons c digits ih =>
      have hc : 48 ≤ c.toNat ∧ c.toNat ≤ 57 := by
        have := hdigits c List.mem_cons_self
        simpa [Char.isDigit, UInt32.le_iff_toNat_le] using this
      have hzero : '0'.toNat = 48 := rfl
      rw [Nat.ofDigitChars_cons, List.length_cons, Nat.pow_succ', ← Nat.mul_assoc]
      refine Nat.lt_of_lt_of_le (ih (fun d hd => hdigits d (List.mem_cons_of_mem c hd)) _) ?_
      exact Nat.mul_le_mul_right _ (by omega)

/-- A printed number is read back, with what stands behind it. -/
theorem strtol_toDigits_append
    {n : Nat} {rest : Text}
    (hmax : (n : Int) ≤ longMax)
    (hrest : ∀ c, rest.head? = some c → c.isDigit = false) :
    strtol (Nat.toDigits 10 n ++ rest) =
      { value := n, erange := false, rest := rest, converted := true } := by
  have h := @strtol_digits (Nat.toDigits 10 n) rest Nat.toDigits_ne_nil
    (fun d hd => Nat.isDigit_of_mem_toDigits (by omega) (by omega) hd) hrest
  rw [Nat.ofDigitChars_ten_toDigits] at h
  exact h hmax

/-- A printed number is read back. -/
theorem strtol_toDigits
    {n : Nat} {c : Char}
    (hmax : (n : Int) ≤ longMax)
    (hc : c.isDigit = false)
    (r : Text) :
    strtol (Nat.toDigits 10 n ++ c :: r) =
      { value := n, erange := false, rest := c :: r, converted := true } :=
  strtol_toDigits_append hmax fun _ hd => by simpa [← Option.some.inj hd] using hc

/-- Blanks before a number are skipped. -/
theorem strtol_blanks
    {s : Text}
    (h : (strtol s).converted = true)
    (k : Nat) :
    strtol (List.replicate k ' ' ++ s) = strtol s := by
  have hskip : (List.replicate k ' ' ++ s).dropWhile isSpace = s.dropWhile isSpace :=
    List.dropWhile_append_of_pos fun c hc => List.eq_of_mem_replicate hc ▸ rfl
  unfold strtol at h ⊢
  rw [hskip]
  dsimp only at h ⊢
  generalize (if (s.dropWhile isSpace).head? = some '-' ∨ (s.dropWhile isSpace).head? = some '+'
    then (s.dropWhile isSpace).tail else s.dropWhile isSpace) = u at h ⊢
  by_cases hu : u.takeWhile Char.isDigit = []
  · simp [hu] at h
  · simp [hu]

/-- Nothing is read where no number begins. -/
theorem strtol_none
    {c : Char}
    (hspace : isSpace c = false)
    (hminus : c ≠ '-')
    (hplus : c ≠ '+')
    (hdigit : c.isDigit = false)
    (r : Text) :
    strtol (c :: r) = { value := 0, erange := false, rest := c :: r, converted := false } := by
  simp [strtol, hspace, hminus, hplus, hdigit]

/-- A string begins with a number: white space, a sign and digits. -/
def ReadsNumber
    (s : Text)
    (n : Int) :
    Prop :=
  ∃ blanks sign digits rest : Text, s = blanks ++ (sign ++ (digits ++ rest)) ∧
    (∀ c ∈ blanks, isSpace c = true) ∧ (sign = [] ∨ sign = ['+'] ∨ sign = ['-']) ∧
    digits ≠ [] ∧ (∀ c ∈ digits, c.isDigit = true) ∧
    (∀ c, rest.head? = some c → c.isDigit = false) ∧
    n = if sign = ['-'] then -(Nat.ofDigitChars 10 digits 0 : Int) else Nat.ofDigitChars 10 digits 0

/-- What `strtol` makes of a sign and digits. -/
theorem strtol_sign_digits
    {blanks sign digits rest : Text}
    (hblanks : ∀ c ∈ blanks, isSpace c = true)
    (hsign : sign = [] ∨ sign = ['+'] ∨ sign = ['-'])
    (hne : digits ≠ [])
    (hdigits : ∀ c ∈ digits, c.isDigit = true)
    (hrest : ∀ c, rest.head? = some c → c.isDigit = false) :
    strtol (blanks ++ (sign ++ (digits ++ rest))) =
      (let v := if sign = ['-'] then -(Nat.ofDigitChars 10 digits 0 : Int)
        else Nat.ofDigitChars 10 digits 0
      if v > longMax then { value := longMax, erange := true, rest := rest, converted := true }
      else if v < longMin then
        { value := longMin, erange := true, rest := rest, converted := true }
      else { value := v, erange := false, rest := rest, converted := true }) := by
  obtain ⟨d, ds, rfl⟩ := List.exists_cons_of_ne_nil hne
  obtain ⟨hspace, hminus, hplus⟩ := not_isSpace_of_isDigit (hdigits d (by simp))
  have hskip : (blanks ++ (sign ++ (d :: ds ++ rest))).dropWhile isSpace =
      sign ++ (d :: ds ++ rest) := by
    rw [List.dropWhile_append_of_pos hblanks]
    rcases hsign with rfl | rfl | rfl
    · simp [hspace]
    · rfl
    · rfl
  have htake : ((d :: ds) ++ rest).takeWhile Char.isDigit = d :: ds := by
    rw [List.takeWhile_append_of_pos hdigits]
    cases rest with
    | nil => simp
    | cons c rest => simp [hrest c (by simp)]
  have hdrop : ((d :: ds) ++ rest).dropWhile Char.isDigit = rest := by
    rw [List.dropWhile_append_of_pos hdigits]
    cases rest with
    | nil => simp
    | cons c rest => simp [hrest c (by simp)]
  unfold strtol
  rw [hskip]
  rcases hsign with rfl | rfl | rfl
  · have hhead : (d :: ds ++ rest).head? = some d := rfl
    simp only [List.nil_append, hhead, Option.some.injEq, hminus, hplus, or_self, if_false,
      htake, hdrop]
    simp
  · simp only [List.singleton_append, List.head?_cons, Option.some.injEq, or_true, if_true,
      List.tail_cons, htake, hdrop]
    simp
  · simp only [List.singleton_append, List.head?_cons, true_or, if_true, List.tail_cons, htake,
      hdrop]
    simp

/-- Every number that is converted begins the string. -/
theorem exists_sign_digits
    {s : Text}
    (h : (strtol s).converted = true) :
    ∃ blanks sign digits rest : Text, s = blanks ++ (sign ++ (digits ++ rest)) ∧
      (∀ c ∈ blanks, isSpace c = true) ∧ (sign = [] ∨ sign = ['+'] ∨ sign = ['-']) ∧
      digits ≠ [] ∧ (∀ c ∈ digits, c.isDigit = true) ∧
      (∀ c, rest.head? = some c → c.isDigit = false) := by
  have hblanks : ∀ c ∈ s.takeWhile isSpace, isSpace c = true := fun c hc =>
    List.mem_takeWhile_imp hc
  obtain ⟨sign, u, hsplit, hsign, hu⟩ : ∃ sign u : Text, s.dropWhile isSpace = sign ++ u ∧
      (sign = [] ∨ sign = ['+'] ∨ sign = ['-']) ∧
      (if (s.dropWhile isSpace).head? = some '-' ∨ (s.dropWhile isSpace).head? = some '+'
        then (s.dropWhile isSpace).tail else s.dropWhile isSpace) = u := by
    rcases hdrop : s.dropWhile isSpace with _ | ⟨c, t⟩
    · exact ⟨[], [], rfl, Or.inl rfl, rfl⟩
    · by_cases hminus : c = '-'
      · exact ⟨['-'], t, by rw [hminus]; rfl, Or.inr (Or.inr rfl), by simp [hminus]⟩
      · by_cases hplus : c = '+'
        · exact ⟨['+'], t, by rw [hplus]; rfl, Or.inr (Or.inl rfl), by simp [hplus]⟩
        · exact ⟨[], c :: t, rfl, Or.inl rfl, by simp [hminus, hplus]⟩
  have hne : u.takeWhile Char.isDigit ≠ [] := by
    intro hnone
    unfold strtol at h
    dsimp only at h
    rw [hu, if_pos hnone] at h
    cases h
  refine ⟨s.takeWhile isSpace, sign, u.takeWhile Char.isDigit, u.dropWhile Char.isDigit, ?_,
    hblanks, hsign, hne, fun c hc => List.mem_takeWhile_imp hc, ?_⟩
  · rw [List.takeWhile_append_dropWhile, ← hsplit, List.takeWhile_append_dropWhile]
  · intro c hc
    have := List.head?_dropWhile_not Char.isDigit u
    rw [hc] at this
    simpa using this

theorem strtol_eq_iff
    {s : Text} {n : Int} :
    (strtol s).converted = true ∧ (strtol s).erange = false ∧ (strtol s).value = n ↔
      ReadsNumber s n ∧ longMin ≤ n ∧ n ≤ longMax := by
  constructor
  · rintro ⟨hconv, herange, hvalue⟩
    obtain ⟨blanks, sign, digits, rest, rfl, hblanks, hsign, hne, hdigits, hrest⟩ :=
      exists_sign_digits hconv
    rw [strtol_sign_digits hblanks hsign hne hdigits hrest] at herange hvalue
    dsimp only at herange hvalue
    have hnumber := fun m hm => (⟨blanks, sign, digits, rest, rfl, hblanks, hsign, hne, hdigits,
      hrest, hm⟩ : ReadsNumber (blanks ++ (sign ++ (digits ++ rest))) m)
    generalize (if sign = ['-'] then -(Nat.ofDigitChars 10 digits 0 : Int)
      else Nat.ofDigitChars 10 digits 0) = v at herange hvalue hnumber
    by_cases hmax : v > longMax
    · rw [if_pos hmax] at herange
      cases herange
    · rw [if_neg hmax] at herange hvalue
      by_cases hmin : v < longMin
      · rw [if_pos hmin] at herange
        cases herange
      · rw [if_neg hmin] at hvalue
        exact ⟨hnumber n hvalue.symm, hvalue ▸ not_lt.mp hmin, hvalue ▸ not_lt.mp hmax⟩
  · rintro ⟨⟨blanks, sign, digits, rest, rfl, hblanks, hsign, hne, hdigits, hrest, rfl⟩,
      hmin, hmax⟩
    rw [strtol_sign_digits hblanks hsign hne hdigits hrest]
    dsimp only
    rw [if_neg (not_lt.mpr hmax), if_neg (not_lt.mpr hmin)]
    exact ⟨rfl, rfl, rfl⟩
end CString
