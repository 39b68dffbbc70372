import Obix.Utils.ReltimeReading

/-!
# The format of relative times

The documented format has numbers of digits only, at least one of them behind its `P` and its `T`,
nothing behind the last one, and the bounds of the code; its value is truncated to milliseconds.
`obix_reltime_to_long` accepts it and has its value exactly for the texts none of whose accepted
readings has a blank, a sign, something behind it or a fraction that the code scales wrongly
(`obixReltimeToLong_format_iff`).
-/

namespace Obix

open CString ReltimeScan

section Spec

/-- The milliseconds of a fraction, the rest of it cut off. -/
def fractionMillis (f : Written) : Nat :=
  f.magnitude * 1000 / 10 ^ f.digits.length

/-- The first digits of a number, up to a thousand. -/
def Leading (v w : Nat) : Prop :=
  ∃ j, w = v / 10 ^ j ∧ w ≤ 1000 ∧ ∀ i, i < j → 1000 < v / 10 ^ i

/-- The fractions that the code scales to their milliseconds: those of up to three digits, zeros,
and longer ones that begin with a digit other than zero, do not begin with `1000`, and fit a `long`
or begin with `922`.  The length of a fraction is an `int`; where it is too long for that and counts
as less than three digits, the fraction must begin with three zeros and vanish in a `long`. -/
def ExactFraction (f : Written) : Prop :=
  let v := f.magnitude
  let n := f.digits.length
  n ≤ 3 ∨ v = 0 ∨
    (3 ≤ asInt n ∧ 10 ^ (n - 1) ≤ v ∧ v / 10 ^ (n - 4) ≠ 1000 ∧
      ((v : Int) ≤ longMax ∨ v / 10 ^ (n - 3) = 922)) ∨
    (asInt n < 3 ∧ v / 10 ^ (n - 3) = 0 ∧
      ∃ w, Leading (min v longMax.toNat) w ∧ 2 ^ 64 ∣ w * 10 ^ (3 - asInt n).toNat)

namespace ReltimeReading

variable (r : ReltimeReading)

/-- The numbers of a reading. -/
def numbers : List Written :=
  r.days.toList ++ r.time.elim [] fun t => t.hours.toList ++ (t.minutes.toList ++
    t.seconds.elim [] fun s => s.whole :: s.fraction.toList)

/-- The documented format. -/
structure Documented : Prop where
  plain : ∀ a ∈ r.numbers, a.Plain
  nonempty : r.days.isSome ∨ r.time.isSome
  time : ∀ t, r.time = some t → t.hours.isSome ∨ t.minutes.isSome ∨ t.seconds.isSome
  bounds : r.InBounds

/-- The signed milliseconds of a reading. -/
def millis : Int :=
  (if r.negative then -1 else 1) * (r.wholeMillis + r.fraction.elim 0 fun f => (fractionMillis f : Int))

/-- Only digits, nothing behind them, and a fraction that the code scales. -/
structure Exact (tail : Text) : Prop where
  plain : ∀ a ∈ r.numbers, a.Plain
  tail : tail = []
  fraction : ∀ f, r.fraction = some f → ExactFraction f

end ReltimeReading

/-- The code accepts a text if and only if it is in the format, and then has its value. -/
structure ReltimeAsDocumented (str : Text) : Prop where
  accepts : (∃ d, obixReltimeToLong str = .ok d) ↔
    ∃ r : ReltimeReading, r.Documented ∧ r.before [] = str
  value : ∀ r : ReltimeReading, r.Documented → r.before [] = str →
    obixReltimeToLong str = .ok r.millis ∧ |r.millis| ≤ 2 ^ 31 - 1

end Spec

section Fraction

variable {v w : Nat}

theorem magnitude_lt (f : Written) : f.magnitude < 10 ^ f.digits.length := by
  have h := ofDigitChars_lt f.isDigit 0
  rwa [Nat.zero_add, Nat.one_mul] at h

/-- The loop of the code finds the first digits. -/
theorem leading_dropSmall
    (v : Nat) :
    ∃ w : Nat, ReltimeScan.dropSmall v = w ∧ Leading v w := by
  induction v using Nat.strong_induction_on with
  | _ v ih =>
      rw [ReltimeScan.dropSmall]
      by_cases hbig : 1000 < (v : Int)
      · rw [if_pos hbig]
        obtain ⟨w, hw, j, rfl, hle, hmore⟩ := ih (v / 10) (by omega)
        refine ⟨_, hw, j + 1, ?_, hle, ?_⟩
        · rw [Nat.div_div_eq_div_mul, pow_succ, mul_comm]
        · intro i hi
          cases i with
          | zero => simpa using hbig
          | succ i =>
              have hprev := hmore i (by omega)
              rwa [Nat.div_div_eq_div_mul, mul_comm, ← pow_succ] at hprev
      · rw [if_neg hbig]
        refine ⟨v, rfl, 0, by simp, by omega, ?_⟩
        intro i hi
        omega

/-- The first digits are what they are. -/
theorem leading_unique
    {w' : Nat}
    (h : Leading v w)
    (h' : Leading v w') :
    w = w' := by
  obtain ⟨j, rfl, hle, hmore⟩ := h
  obtain ⟨j', rfl, hle', hmore'⟩ := h'
  have hj : ¬ j < j' := fun hlt => absurd (hmore' j hlt) (not_lt.mpr hle)
  have hj' : ¬ j' < j := fun hlt => absurd (hmore j' hlt) (not_lt.mpr hle')
  rw [show j = j' by omega]

theorem leading_small
    (h : v ≤ 1000) :
    Leading v v :=
  ⟨0, by simp, h, fun i hi => absurd hi (Nat.not_lt_zero i)⟩

theorem leading_ge
    (h : Leading v w)
    (hbig : 1000 < v) :
    100 ≤ w := by
  obtain ⟨j, rfl, hle, hmore⟩ := h
  cases j with
  | zero => simp at hle; omega
  | succ j =>
      have hprev := hmore j (by omega)
      rw [pow_succ, ← Nat.div_div_eq_div_mul]
      omega

theorem leading_longMax : Leading longMax.toNat 922 :=
  ⟨16, by decide, by decide, by decide⟩

/-- A number of more than three digits has its first three, unless it begins with `1000`. -/
theorem leading_iff
    {n : Nat}
    (hn : 3 < n)
    (hv : 10 ^ (n - 1) ≤ v)
    (hlt : v < 10 ^ n)
    (h : Leading v w) :
    w = v / 10 ^ (n - 3) ↔ v / 10 ^ (n - 4) ≠ 1000 := by
  obtain ⟨m, rfl⟩ : ∃ m, n = m + 4 := ⟨n - 4, by omega⟩
  rw [show m + 4 - 1 = m + 3 by omega] at hv
  rw [show m + 4 - 3 = m + 1 by omega, show m + 4 - 4 = m by omega]
  have hpos : 0 < 10 ^ m := by positivity
  have hfour : 1000 ≤ v / 10 ^ m := by
    rw [Nat.le_div_iff_mul_le hpos]
    calc
      1000 * 10 ^ m = 10 ^ (m + 3) := by ring
      _ ≤ v := hv
  have hless : v / 10 ^ m < 10000 := by
    rw [Nat.div_lt_iff_lt_mul hpos]
    calc
      v < 10 ^ (m + 4) := hlt
      _ = 10000 * 10 ^ m := by ring
  have hnext : v / 10 ^ (m + 1) = v / 10 ^ m / 10 := by rw [Nat.div_div_eq_div_mul, pow_succ]
  have hmono : ∀ i, i ≤ m → v / 10 ^ m ≤ v / 10 ^ i := fun i hi =>
    Nat.div_le_div_left (Nat.pow_le_pow_right (by omega) hi) (by positivity)
  constructor
  · rintro rfl heq
    obtain ⟨j, hj, hle, hmore⟩ := h
    by_cases hjm : j ≤ m
    · have := hmono j hjm
      omega
    · have := hmore m (by omega)
      omega
  · intro hne
    refine leading_unique h ⟨m + 1, rfl, by omega, ?_⟩
    intro i hi
    have := hmono i (by omega)
    omega

theorem asLong_spec
    (n : Int) :
    ∃ q, n = asLong n + q * 2 ^ 64 ∧ -2 ^ 63 ≤ asLong n ∧ asLong n < 2 ^ 63 := by
  refine ⟨n.bdiv (2 ^ 64), ?_, ?_⟩
  · exact_mod_cast (Int.bmod_add_bdiv' n (2 ^ 64)).symm
  · have hlo := Int.le_bmod (x := n) (m := 2 ^ 64) (by decide)
    have hhi := Int.bmod_lt (x := n) (m := 2 ^ 64) (by decide)
    unfold asLong
    norm_num at hlo hhi ⊢
    exact ⟨hlo, hhi⟩

/-- A fraction that does not fit a `long` is not scaled to anything but zero. -/
theorem asLong_922_ne
    {e t : Nat}
    (he : 1 ≤ e)
    (hpos : 0 < t)
    (hlt : t < 1000) :
    asLong (922 * 10 ^ e) ≠ t := by
  intro heq
  by_cases hsmall : e ≤ 8
  · have hle : (10 : Int) ^ e ≤ 10 ^ 8 := by exact_mod_cast Nat.pow_le_pow_right (by omega) hsmall
    have hge : (10 : Int) ^ 1 ≤ 10 ^ e := by exact_mod_cast Nat.pow_le_pow_right (by omega) he
    rw [asLong_eq (by omega) (by omega)] at heq
    omega
  · obtain ⟨q, hq, -⟩ := asLong_spec (922 * 10 ^ e)
    obtain ⟨i, rfl⟩ : ∃ i, e = 9 + i := ⟨e - 9, by omega⟩
    rw [heq, pow_add] at hq
    generalize (10 : Int) ^ i = x at hq
    norm_num at hq
    omega

variable {f : Written}

theorem fractionAdded_eq
    (h : f.Plain) :
    ∃ w : Nat, Leading (min f.magnitude longMax.toNat) w ∧
      fractionAdded f = asLong (w * 10 ^ (3 - asInt f.digits.length).toNat) := by
  obtain ⟨w, hw, hlead⟩ := leading_dropSmall (min f.magnitude longMax.toNat)
  refine ⟨w, hlead, ?_⟩
  have hclip : clipLong f.value = (min f.magnitude longMax.toNat : Nat) := by
    have hmax : longMax = 9223372036854775807 := rfl
    have hmin : longMin = -9223372036854775808 := rfl
    rw [Written.value_eq_of_plain h]
    unfold clipLong
    by_cases hbig : (f.magnitude : Int) > longMax
    · rw [if_pos hbig, min_eq_right (by omega)]
      omega
    · rw [if_neg hbig, if_neg (by omega), min_eq_left (by omega)]
  rw [fractionAdded, hclip, hw, Written.text_eq_of_plain h]

theorem fractionMillis_of_lt
    (h : 3 < f.digits.length) :
    fractionMillis f = f.magnitude / 10 ^ (f.digits.length - 3) := by
  have hpow : 10 ^ f.digits.length = 10 ^ (f.digits.length - 3) * 1000 := by
    rw [show (1000 : Nat) = 10 ^ 3 by norm_num, ← pow_add]
    congr 1
    omega
  rw [fractionMillis, hpow, Nat.mul_div_mul_right _ _ (by omega)]

theorem fractionMillis_lt (f : Written) : fractionMillis f < 1000 := by
  rw [fractionMillis, Nat.div_lt_iff_lt_mul (by positivity), mul_comm]
  exact Nat.mul_lt_mul_of_pos_left (magnitude_lt f) (by omega)

/-- Up to three digits are scaled by what they lack. -/
theorem fractionAdded_short
    (h : f.Plain)
    (hn : f.digits.length ≤ 3) :
    fractionAdded f = fractionMillis f := by
  obtain ⟨w, hlead, hadded⟩ := fractionAdded_eq h
  have hlt := magnitude_lt f
  have hpos : 0 < f.digits.length := List.length_pos_of_ne_nil f.ne_nil
  have hmax : longMax.toNat = 9223372036854775807 := rfl
  have hbound : f.magnitude < 10 ^ 3 := hlt.trans_le (Nat.pow_le_pow_right (by omega) hn)
  rw [min_eq_left (by omega)] at hlead
  obtain rfl := leading_unique hlead (leading_small (by omega))
  rw [hadded, asInt_eq (by omega) (by omega), fractionMillis]
  generalize f.digits.length = n at *
  obtain rfl | rfl | rfl : n = 1 ∨ n = 2 ∨ n = 3 := by omega
  · rw [show (3 - ((1 : Nat) : Int)).toNat = 2 from rfl, asLong_eq (by omega) (by omega)]
    omega
  · rw [show (3 - ((2 : Nat) : Int)).toNat = 1 from rfl, asLong_eq (by omega) (by omega)]
    omega
  · rw [show (3 - ((3 : Nat) : Int)).toNat = 0 from rfl, asLong_eq (by omega) (by omega)]
    omega

/-- Longer ones whose length is an `int`. -/
theorem fractionAdded_long_iff
    (h : f.Plain)
    (hn : 3 < f.digits.length)
    (hk : 3 ≤ asInt f.digits.length)
    (hv : f.magnitude ≠ 0) :
    fractionAdded f = fractionMillis f ↔
      10 ^ (f.digits.length - 1) ≤ f.magnitude ∧ f.magnitude / 10 ^ (f.digits.length - 4) ≠ 1000 ∧
        ((f.magnitude : Int) ≤ longMax ∨ f.magnitude / 10 ^ (f.digits.length - 3) = 922) := by
  obtain ⟨w, hlead, hadded⟩ := fractionAdded_eq h
  have hlt := magnitude_lt f
  have hw : w ≤ 1000 := by
    obtain ⟨j, rfl, hle, -⟩ := hlead
    exact hle
  have hmax : longMax = 9223372036854775807 := rfl
  rw [hadded, show (3 - asInt f.digits.length).toNat = 0 by omega, pow_zero, mul_one,
    asLong_eq (by omega) (by omega), fractionMillis_of_lt hn]
  rw [show ((w : Int) = ((f.magnitude / 10 ^ (f.digits.length - 3) : Nat) : Int)) ↔
    w = f.magnitude / 10 ^ (f.digits.length - 3) by exact_mod_cast Iff.rfl]
  generalize f.magnitude = v at *
  generalize f.digits.length = n at *
  by_cases hfirst : 10 ^ (n - 1) ≤ v
  · by_cases hfits : (v : Int) ≤ longMax
    · rw [min_eq_left (by omega)] at hlead
      rw [leading_iff hn hfirst hlt hlead]
      exact ⟨fun hne => ⟨hfirst, hne, .inl hfits⟩, fun hall => hall.2.1⟩
    · rw [min_eq_right (by omega)] at hlead
      rw [leading_unique hlead leading_longMax]
      constructor
      · intro heq
        refine ⟨hfirst, ?_, .inr heq.symm⟩
        obtain ⟨m, rfl⟩ : ∃ m, n = m + 4 := ⟨n - 4, by omega⟩
        rw [show m + 4 - 3 = m + 1 by omega, pow_succ, ← Nat.div_div_eq_div_mul] at heq
        rw [show m + 4 - 4 = m by omega]
        omega
      · rintro ⟨-, -, hor⟩
        exact (hor.resolve_left hfits).symm
  · refine iff_of_false ?_ fun hall => hfirst hall.1
    -- a zero in front is not seen: the number has as many digits as it can
    have hsmall : v / 10 ^ (n - 3) < 100 := by
      rw [Nat.div_lt_iff_lt_mul (by positivity)]
      calc
        v < 10 ^ (n - 1) := not_le.mp hfirst
        _ = 100 * 10 ^ (n - 3) := by
            rw [show (100 : Nat) = 10 ^ 2 by norm_num, ← pow_add]
            congr 1
            omega
    intro heq
    by_cases hbig : 1000 < min v longMax.toNat
    · have := leading_ge hlead hbig
      omega
    · obtain rfl := leading_unique hlead (leading_small (not_lt.mp hbig))
      have hmin : min v longMax.toNat = v := by omega
      have hdiv : v / 10 ^ (n - 3) ≤ v / 10 ^ 1 :=
        Nat.div_le_div_left (Nat.pow_le_pow_right (by omega) (by omega)) (by norm_num)
      omega

/-- Fractions whose length is no `int`. -/
theorem fractionAdded_huge_iff
    (h : f.Plain)
    (hn : 3 < f.digits.length)
    (hk : asInt f.digits.length < 3) :
    fractionAdded f = fractionMillis f ↔
      f.magnitude / 10 ^ (f.digits.length - 3) = 0 ∧
        ∃ w, Leading (min f.magnitude longMax.toNat) w ∧
          2 ^ 64 ∣ w * 10 ^ (3 - asInt f.digits.length).toNat := by
  obtain ⟨w, hlead, hadded⟩ := fractionAdded_eq h
  have hmillis := fractionMillis_lt f
  have hlong : 2 ^ 31 ≤ f.digits.length := by
    by_contra hlt
    rw [asInt_eq (by omega) (by omega)] at hk
    omega
  have hmax : longMax.toNat = 9223372036854775807 := rfl
  rw [hadded, fractionMillis_of_lt hn] at *
  have hexp : 1 ≤ (3 - asInt f.digits.length).toNat := by omega
  generalize (3 - asInt f.digits.length).toNat = e at *
  constructor
  · intro heq
    have hzero : f.magnitude / 10 ^ (f.digits.length - 3) = 0 := by
      by_contra hne
      have hbig : longMax.toNat ≤ f.magnitude := by
        have hge := (Nat.div_pos_iff.mp (Nat.pos_of_ne_zero hne)).2
        have hpow : 10 ^ 19 ≤ 10 ^ (f.digits.length - 3) := Nat.pow_le_pow_right (by omega) (by omega)
        omega
      rw [min_eq_right hbig] at hlead
      rw [leading_unique hlead leading_longMax] at heq
      exact asLong_922_ne hexp (Nat.pos_of_ne_zero hne) hmillis (by exact_mod_cast heq)
    refine ⟨hzero, w, hlead, ?_⟩
    rw [hzero] at heq
    obtain ⟨q, hq, -⟩ := asLong_spec (w * 10 ^ e)
    rw [heq] at hq
    have hdvd : ((2 ^ 64 : Nat) : Int) ∣ ((w * 10 ^ e : Nat) : Int) := by
      refine ⟨q, ?_⟩
      push_cast
      rw [hq]
      push_cast
      ring
    exact_mod_cast hdvd
  · rintro ⟨hzero, w', hlead', hdvd⟩
    obtain rfl := leading_unique hlead hlead'
    rw [hzero]
    obtain ⟨q, hq⟩ := hdvd
    have hcast : ((w : Int) * 10 ^ e) = 0 + ((2 ^ 64 : Nat) : Int) * q := by
      rw [zero_add]
      exact_mod_cast hq
    rw [hcast, asLong, Int.add_mul_bmod_self_left]
    rfl

/-- The code scales a fraction rightly exactly when it is of one of the kinds. -/
theorem fractionAdded_eq_iff
    (h : f.Plain) :
    fractionAdded f = fractionMillis f ↔ ExactFraction f := by
  by_cases hn : f.digits.length ≤ 3
  · exact iff_of_true (fractionAdded_short h hn) (.inl hn)
  by_cases hv : f.magnitude = 0
  · refine iff_of_true ?_ (.inr (.inl hv))
    obtain ⟨w, hlead, hadded⟩ := fractionAdded_eq h
    rw [hv] at hlead
    obtain rfl := leading_unique hlead (leading_small (by simp))
    rw [hadded, fractionMillis, hv]
    simp [asLong]
  rw [not_le] at hn
  unfold ExactFraction
  dsimp only
  by_cases hk : 3 ≤ asInt f.digits.length
  · rw [fractionAdded_long_iff h hn hk hv]
    constructor
    · intro hall
      exact .inr (.inr (.inl ⟨hk, hall⟩))
    · rintro (hle | hzero | ⟨-, hall⟩ | ⟨hless, -⟩)
      · omega
      · exact absurd hzero hv
      · exact hall
      · omega
  · rw [fractionAdded_huge_iff h hn (not_le.mp hk)]
    constructor
    · intro hall
      exact .inr (.inr (.inr ⟨not_le.mp hk, hall⟩))
    · rintro (hle | hzero | ⟨hge, -⟩ | ⟨-, hall⟩)
      · omega
      · exact absurd hzero hv
      · exact absurd hge hk
      · exact hall

end Fraction

section Unambiguous

variable {letter : Char} {s s' tail : Text}

/-- A number with a unit is told from what follows by its letter. -/
theorem withUnit_inj
    {o o' : Option Written}
    (hletter : letter.isDigit = false)
    (ho : o = none → mark s ≠ some letter)
    (ho' : o' = none → mark s' ≠ some letter)
    (h : withUnit letter o s = withUnit letter o' s') :
    o = o' ∧ s = s' := by
  cases o with
  | none =>
      cases o' with
      | none => exact ⟨rfl, h⟩
      | some b =>
          have hmark := ho rfl
          rw [show s = withUnit letter (some b) s' from h, mark_withUnit hletter] at hmark
          exact absurd rfl hmark
  | some a =>
      cases o' with
      | none =>
          have hmark := ho' rfl
          rw [show s' = withUnit letter (some a) s from h.symm, mark_withUnit hletter] at hmark
          exact absurd rfl hmark
      | some b =>
          obtain ⟨rfl, hrest⟩ := Written.append_inj (ends_cons hletter) (ends_cons hletter) h
          exact ⟨rfl, List.tail_eq_of_cons_eq hrest⟩

theorem ends_withFraction (f : Option Written) : Ends (withFraction f tail) := by
  cases f with
  | none => exact ends_cons (by decide)
  | some f => exact ends_cons (by decide)

theorem withFraction_inj
    {f f' : Option Written}
    (h : withFraction f s = withFraction f' s') :
    f = f' ∧ s = s' := by
  cases f with
  | none =>
      cases f' with
      | none => exact ⟨rfl, List.tail_eq_of_cons_eq h⟩
      | some b => exact absurd (List.head_eq_of_cons_eq h) (by decide)
  | some a =>
      cases f' with
      | none => exact absurd (List.head_eq_of_cons_eq h) (by decide)
      | some b =>
          obtain ⟨rfl, hrest⟩ := Written.append_inj (ends_cons (by decide)) (ends_cons (by decide))
            (List.tail_eq_of_cons_eq h)
          exact ⟨rfl, List.tail_eq_of_cons_eq hrest⟩

theorem withSeconds_inj
    {q q' : Option SecondsReading}
    (hq : q = none → mark tail ≠ some 'S' ∧ mark tail ≠ some '.')
    (h : withSeconds q tail = withSeconds q' []) :
    q = q' ∧ tail = [] := by
  cases q with
  | none =>
      cases q' with
      | none => exact ⟨rfl, h⟩
      | some b =>
          obtain ⟨hS, hpoint⟩ := hq rfl
          rw [show tail = withSeconds (some b) [] from h] at hS hpoint
          exact (mark_withSeconds.elim hS hpoint).elim
  | some a =>
      cases q' with
      | none => exact absurd (List.append_eq_nil_iff.mp h).1 (Written.text_ne_nil a.whole)
      | some b =>
          obtain ⟨hwhole, hrest⟩ := Written.append_inj (ends_withFraction _) (ends_withFraction _) h
          obtain ⟨hfraction, htail⟩ := withFraction_inj hrest
          exact ⟨congrArg some (SecondsReading.ext hwhole hfraction), htail⟩

theorem before_inj
    {t u : TimeReading}
    (ht : t.seconds = none → t.StopsAt tail)
    (hu : u.seconds = none → u.StopsAt [])
    (h : t.before tail = u.before []) :
    t = u ∧ tail = [] := by
  obtain ⟨hhours, h⟩ := withUnit_inj (by decide) (mark_minutes ht) (mark_minutes hu) h
  obtain ⟨hminutes, h⟩ := withUnit_inj (by decide) (mark_seconds ht) (mark_seconds hu) h
  obtain ⟨hseconds, htail⟩ := withSeconds_inj (fun hnone => (ht hnone).seconds) h
  exact ⟨TimeReading.ext hhours hminutes hseconds, htail⟩

/-- A time section begins with a letter that is not that of days. -/
theorem mark_withTime
    {r : ReltimeReading}
    (h : r.Accepted tail)
    (hdays : r.days = none) :
    mark (withTime r.time tail) ≠ some 'D' := by
  obtain ⟨t, ht⟩ := Option.isSome_iff_exists.mp (h.nonempty.resolve_left (by simp [hdays]))
  rw [ht, withTime, mark_cons (by decide) (by decide) (by decide) (by decide)]
  decide

/-- A text has one accepted reading at most, when one of them is all of it. -/
theorem accepted_unique
    {r q : ReltimeReading}
    (hr : r.Accepted tail)
    (hq : q.Accepted [])
    (h : r.before tail = q.before []) :
    r = q ∧ tail = [] := by
  obtain ⟨hnegative, h⟩ : r.negative = q.negative ∧
      withUnit 'D' r.days (withTime r.time tail) = withUnit 'D' q.days (withTime q.time []) := by
    unfold ReltimeReading.before at h
    cases hrn : r.negative with
    | false =>
        cases hqn : q.negative with
        | false => simpa [hrn, hqn] using h
        | true => simp [hrn, hqn] at h
    | true =>
        cases hqn : q.negative with
        | false => simp [hrn, hqn] at h
        | true => simpa [hrn, hqn] using h
  obtain ⟨hdays, h⟩ := withUnit_inj (by decide) (mark_withTime hr) (mark_withTime hq) h
  obtain ⟨htime, htail⟩ : r.time = q.time ∧ tail = [] := by
    cases hrt : r.time with
    | none =>
        rw [hrt] at h
        cases hqt : q.time with
        | none =>
            rw [hqt] at h
            exact ⟨rfl, h⟩
        | some u =>
            rw [hqt] at h
            have hhead := hr.noTime hrt
            rw [show tail = withTime (some u) [] from h] at hhead
            exact absurd rfl hhead
    | some t =>
        rw [hrt] at h
        cases hqt : q.time with
        | none =>
            rw [hqt] at h
            cases h
        | some u =>
            rw [hqt] at h
            obtain ⟨rfl, htail⟩ := before_inj (hr.noSeconds t hrt) (hq.noSeconds u hqt)
              (List.tail_eq_of_cons_eq h)
            exact ⟨rfl, htail⟩
  exact ⟨ReltimeReading.ext hnegative hdays htime, htail⟩

end Unambiguous

section Format

variable {r : ReltimeReading} {tail : Text}

/-- The documented readings pass the checks of the code. -/
theorem accepted_of_documented
    (h : r.Documented) :
    r.Accepted [] where
  bounds := h.bounds
  nonempty := h.nonempty
  noTime := fun _ => by simp
  noSeconds := by
    intro t ht hnone
    have hmark := mark_nil
    refine ⟨⟨?_, ?_⟩, fun _ => ?_, fun _ _ => ?_, .inr ⟨rfl, ?_⟩⟩
    · simp [hmark]
    · simp [hmark]
    · simp [hmark]
    · simp [hmark]
    · rcases h.time t ht with hhours | hminutes | hseconds
      · exact .inl hhours
      · exact .inr hminutes
      · rw [hnone] at hseconds
        cases hseconds

theorem documented_of_accepted
    (h : r.Accepted [])
    (hplain : ∀ a ∈ r.numbers, a.Plain) :
    r.Documented where
  plain := hplain
  nonempty := h.nonempty
  bounds := h.bounds
  time := by
    intro t ht
    cases hs : t.seconds with
    | some s => exact .inr (.inr rfl)
    | none =>
        rcases (h.noSeconds t ht hs).number with ⟨hconv, -⟩ | ⟨-, hhours | hminutes⟩
        · cases hconv
        · exact .inl hhours
        · exact .inr (.inl hminutes)

theorem mem_numbers_of_fraction
    {f : Written}
    (h : r.fraction = some f) :
    f ∈ r.numbers := by
  unfold ReltimeReading.fraction at h
  obtain ⟨t, ht, h⟩ := Option.bind_eq_some_iff.mp h
  obtain ⟨s, hs, h⟩ := Option.bind_eq_some_iff.mp h
  unfold ReltimeReading.numbers
  rw [ht]
  simp [hs, h]

/-- The milliseconds of a reading within the bounds, and of a fraction below a second, are within
32 bits. -/
theorem wholeMillis_bounds
    (h : r.InBounds) :
    0 ≤ r.wholeMillis ∧ r.wholeMillis + 999 ≤ 2 ^ 31 - 1 := by
  have hbound : ∀ {preceding alone rest : Int} {o : Option Written},
      Bounded preceding alone rest o → 0 ≤ alone → 0 ≤ rest →
        0 ≤ unitNumber o ∧ unitNumber o ≤ alone ∧ (0 < preceding → unitNumber o ≤ rest) := by
    intro preceding alone rest o hb halone hrest
    cases o with
    | none => exact ⟨le_refl 0, halone, fun _ => hrest⟩
    | some a => exact hb a rfl
  have hdays := hbound h.days (by decide) (by decide)
  unfold ReltimeReading.wholeMillis
  cases ht : r.time with
  | none =>
      rw [Option.elim_none]
      omega
  | some t =>
      have hhours := hbound (h.time t ht).hours (by decide) (by decide)
      have hminutes := hbound (h.time t ht).minutes (by decide) (by decide)
      have hseconds := hbound (h.time t ht).seconds (by decide) (by decide)
      rw [Option.elim_some]
      omega

/-- The milliseconds that a fraction adds. -/
theorem fraction_bounds (r : ReltimeReading) :
    0 ≤ (r.fraction.elim 0 fun f => (fractionMillis f : Int)) ∧
      (r.fraction.elim 0 fun f => (fractionMillis f : Int)) ≤ 999 := by
  cases r.fraction with
  | none =>
      rw [Option.elim_none]
      omega
  | some f =>
      have := fractionMillis_lt f
      rw [Option.elim_some]
      omega

theorem abs_millis_le
    (h : r.InBounds) :
    |r.millis| ≤ 2 ^ 31 - 1 := by
  have hwhole := wholeMillis_bounds h
  have hfraction := fraction_bounds r
  unfold ReltimeReading.millis
  rw [abs_le]
  split
  · omega
  · omega

/-- The code has the value of a reading exactly when it scales its fraction. -/
theorem signed_sum_eq_iff
    (hb : r.InBounds)
    (hplain : ∀ a ∈ r.numbers, a.Plain) :
    (if r.negative then asLong (-r.sum) else r.sum) = r.millis ↔
      ∀ f, r.fraction = some f → ExactFraction f := by
  have hwhole := wholeMillis_bounds hb
  have hmillis := fraction_bounds r
  have hiff : (if r.negative then asLong (-r.sum) else r.sum) = r.millis ↔
      r.fraction.elim 0 fractionAdded = r.fraction.elim 0 fun f => (fractionMillis f : Int) := by
    have hadded : -2 ^ 63 ≤ r.fraction.elim 0 fractionAdded ∧
        r.fraction.elim 0 fractionAdded < 2 ^ 63 := by
      cases r.fraction with
      | none =>
          rw [Option.elim_none]
          omega
      | some f =>
          obtain ⟨-, -, hrange⟩ := asLong_spec
            (dropSmall (clipLong f.value) * 10 ^ (3 - asInt f.text.length).toNat)
          exact hrange
    unfold ReltimeReading.millis ReltimeReading.sum
    generalize r.fraction.elim 0 fractionAdded = x at *
    generalize (r.fraction.elim 0 fun f => (fractionMillis f : Int)) = y at *
    cases r.negative with
    | false =>
        rw [if_neg Bool.false_ne_true, if_neg Bool.false_ne_true]
        omega
    | true =>
        obtain ⟨q, hq, hlo, hhi⟩ := asLong_spec (-(r.wholeMillis + x))
        rw [if_pos rfl, if_pos rfl]
        omega
  rw [hiff]
  cases hf : r.fraction with
  | none => simp
  | some f =>
      rw [Option.elim_some, Option.elim_some,
        fractionAdded_eq_iff (hplain f (mem_numbers_of_fraction hf))]
      simp

end Format

/-- The code accepts a text if and only if it is in the format, with its value, exactly where no
accepted reading of the text has a blank, a sign, something behind it or a fraction that is scaled
wrongly. -/
theorem obixReltimeToLong_format_iff (str : Text) :
    ReltimeAsDocumented str ↔
      ∀ (r : ReltimeReading) (tail : Text), r.Accepted tail → r.before tail = str →
        r.Exact tail := by
  constructor
  · intro h r tail hr hstr
    obtain ⟨q, hq, hqstr⟩ := h.accepts.mp (obixReltimeToLong_ok_iff.mpr ⟨r, tail, hr, hstr⟩)
    obtain ⟨rfl, rfl⟩ := accepted_unique hr (accepted_of_documented hq) (hstr.trans hqstr.symm)
    refine ⟨hq.plain, rfl, ?_⟩
    have hvalue := (h.value r hq hstr).1
    rw [← hstr, obixReltimeToLong_before hr] at hvalue
    exact (signed_sum_eq_iff hq.bounds hq.plain).mp (Except.ok.inj hvalue)
  · intro h
    constructor
    · rw [obixReltimeToLong_ok_iff]
      constructor
      · rintro ⟨r, tail, hr, hstr⟩
        obtain ⟨hplain, rfl, -⟩ := h r tail hr hstr
        exact ⟨r, documented_of_accepted hr hplain, hstr⟩
      · rintro ⟨r, hr, hstr⟩
        exact ⟨r, [], accepted_of_documented hr, hstr⟩
    · intro r hr hstr
      have haccepted := accepted_of_documented hr
      have hexact := h r [] haccepted hstr
      refine ⟨?_, abs_millis_le hr.bounds⟩
      rw [← hstr, obixReltimeToLong_before haccepted]
      exact congrArg Except.ok ((signed_sum_eq_iff hr.bounds hr.plain).mpr hexact.fraction)

/-- What follows the days of a relative time is not looked at. -/
theorem obixReltimeToLong_junk : ¬ ReltimeAsDocumented "P1Dx".toList := by
  intro h
  obtain ⟨q, hq, hstr⟩ := h.accepts.mp ⟨86400000, by decide +kernel⟩
  have haccepted : ReltimeReading.Accepted
      { negative := false, days := some (.ofDigits ['1'] (by decide) (by simp)), time := none }
      ['x'] := by
    refine ⟨⟨?_, ?_⟩, .inl rfl, fun _ => by decide, ?_⟩
    · intro a ha
      obtain rfl := Option.some.inj ha
      decide
    · intro t ht
      cases ht
    · intro t ht
      cases ht
  have htail := (accepted_unique haccepted (accepted_of_documented hq) hstr.symm).2
  cases htail

end Obix
