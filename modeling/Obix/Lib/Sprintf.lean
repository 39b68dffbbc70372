import Obix.Lib.Numerals

/-!
# The length of printed text

`sprintf` with the conversions `%s` and `%d`, whose arguments are given as the
texts they print.  A format with as many conversions as there are arguments prints
its own characters, without two for each conversion, and the arguments
(`length_sprintf`).
-/

namespace CString

/-- `sprintf` of a format with the given arguments. -/
def sprintf : Text → List Text → Text
  | '%' :: 's' :: fmt, arg :: args => arg ++ sprintf fmt args
  | '%' :: 'd' :: fmt, arg :: args => arg ++ sprintf fmt args
  | c :: fmt, args => c :: sprintf fmt args
  | [], _ => []

@[simp] theorem sprintf_string
    (fmt arg : Text)
    (args : List Text) :
    sprintf ('%' :: 's' :: fmt) (arg :: args) = arg ++ sprintf fmt args := rfl

@[simp] theorem sprintf_decimal
    (fmt arg : Text)
    (args : List Text) :
    sprintf ('%' :: 'd' :: fmt) (arg :: args) = arg ++ sprintf fmt args := rfl

/-- Text without a percent sign is printed as it is. -/
theorem sprintf_append
    {lit : Text}
    (h : '%' ∉ lit)
    (fmt : Text)
    (args : List Text) :
    sprintf (lit ++ fmt) args = lit ++ sprintf fmt args := by
  induction lit with
  | nil => rfl
  | cons c lit ih =>
      obtain ⟨hc, hlit⟩ := not_or.mp (mt List.mem_cons.mpr h)
      rw [List.cons_append, List.cons_append, ← ih hlit, sprintf]
      · intro t arg more hargs hpercent
        exact absurd hpercent.symm hc
      · intro t arg more hargs hpercent
        exact absurd hpercent.symm hc

/-- Number of conversions of a format. -/
def conversions : Text → Nat
  | '%' :: 's' :: fmt => conversions fmt + 1
  | '%' :: 'd' :: fmt => conversions fmt + 1
  | _ :: fmt => conversions fmt
  | [] => 0

/-- What is printed takes the place of the conversions. -/
theorem length_sprintf
    {fmt : Text} {args : List Text}
    (h : conversions fmt = args.length) :
    (sprintf fmt args).length + 2 * args.length =
      fmt.length + (args.map List.length).sum := by
  fun_induction sprintf fmt args with
  | case1 fmt arg args ih =>
      have hrest := ih (by simpa [conversions] using h)
      simp only [List.length_append, List.length_cons, List.map_cons, List.sum_cons]
      omega
  | case2 fmt arg args ih =>
      have hrest := ih (by simpa [conversions] using h)
      simp only [List.length_append, List.length_cons, List.map_cons, List.sum_cons]
      omega
  | case3 c fmt args hs hd ih =>
      -- a conversion here would be one without an argument
      have hfmt : conversions (c :: fmt) = conversions fmt := by
        rw [conversions]
        · rintro t rfl rfl
          cases args with
          | nil => simp [conversions] at h
          | cons arg args => exact hs t arg args rfl rfl rfl
        · rintro t rfl rfl
          cases args with
          | nil => simp [conversions] at h
          | cons arg args => exact hd t arg args rfl rfl rfl
      have hrest := ih (hfmt.symm.trans h)
      simp only [List.length_cons]
      omega
  | case4 args =>
      have hnil : args = [] := by simpa [conversions] using h.symm
      simp [hnil]

/-- A natural number is printed with at most `k` digits if it is less than `10 ^ k`. -/
theorem length_showInt_le_iff
    {n k : Nat}
    (hk : 0 < k) :
    (showInt n).length ≤ k ↔ n < 10 ^ k := by
  rw [showInt_natCast]
  exact Nat.length_toDigits_le_iff (by omega) hk

end CString
