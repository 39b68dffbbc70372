import Obix.Utils.Reltime
import Mathlib.Tactic

/-!
# The sizes of hash tables

`is_prime` and `get_prime` of `hash.c`.  The divisors that are tried are the numbers `6k - 1` and
`6k + 1`.  For all bounds that `get_prime` can be asked for the signed square of the divisor does
not overflow, and the answer is that of primality (`isPrime_eq`).

An `unsigned int` is its value, and the answer is `none` when a signed product overflows.
-/

namespace Obix

section Functions

/-- The divisor `i` of `is_prime` and the step `w` to the next one. -/
structure TrialDivisor where
  i : Nat
  w : Nat
  pos : 0 < w
  lt : w < 6

/-- The next divisor. -/
def TrialDivisor.next (t : TrialDivisor) : TrialDivisor where
  i := t.i + t.w
  w := 6 - t.w
  pos := Nat.sub_pos_of_lt t.lt
  lt := Nat.sub_lt (by decide) t.pos

/-- The loop of `is_prime`. -/
def isPrimeLoop (n : Nat) (t : TrialDivisor) : Option Nat :=
  if intMax < t.i * t.i then none
  else if t.i * t.i ≤ n then
    if n % t.i = 0 then some 0 else isPrimeLoop n t.next
  else some 1
termination_by intMax + 1 - t.i
decreasing_by
  have hself := Nat.le_mul_self t.i
  have hpos := t.pos
  show intMax + 1 - (t.i + t.w) < intMax + 1 - t.i
  omega

/-- `is_prime`. -/
def isPrime (n : Nat) : Option Nat :=
  if n = 2 ∨ n = 3 then some 1
  else if n % 2 = 0 ∨ n % 3 = 0 then some 0
  else isPrimeLoop n ⟨5, 2, by decide, by decide⟩

/-- One passes for a prime, so that a search that wraps around comes to an end. -/
theorem isPrime_one : isPrime 1 = some 1 := by
  rw [isPrime, if_neg (by decide), if_neg (by decide), isPrimeLoop, if_neg (by decide),
    if_neg (by decide)]

/-- `get_prime`. -/
def getPrime (num : UInt32) : Option UInt32 :=
  match h : isPrime num.toNat with
  | none => none
  | some r => if r = 0 then getPrime (num + 1) else some num
termination_by (1 - num).toNat
decreasing_by
  rename_i hr
  have hone : num.toNat ≠ 1 := by
    intro heq
    rw [heq, isPrime_one, hr] at h
    cases h
  have hlt := num.toNat_lt
  rw [UInt32.toNat_sub, UInt32.toNat_sub, UInt32.toNat_add]
  have hvalue : (1 : UInt32).toNat = 1 := rfl
  omega

end Functions

section Trials

variable {n : Nat} {t : TrialDivisor}

/-- The divisors before this one are excluded, and it is the next one to try. -/
structure TrialDivisor.Reached (n : Nat) (t : TrialDivisor) : Prop where
  form : (t.i % 6 = 5 ∧ t.w = 2) ∨ (t.i % 6 = 1 ∧ t.w = 4)
  five : 5 ≤ t.i
  excluded : ∀ d, 2 ≤ d → d < t.i → ¬ d ∣ n

/-- What is skipped has a divisor that has been tried. -/
theorem TrialDivisor.Reached.next
    (h : t.Reached n)
    (hi : ¬ t.i ∣ n) :
    t.next.Reached n := by
  have hfive := h.five
  have htwo : ¬ 2 ∣ n := h.excluded 2 (by decide) (by omega)
  have hthree : ¬ 3 ∣ n := h.excluded 3 (by decide) (by omega)
  refine ⟨?_, ?_, ?_⟩
  · have hform := h.form
    simp only [TrialDivisor.next]
    omega
  · simp only [TrialDivisor.next]
    omega
  · intro d hd hlt hdvd
    rcases Nat.lt_trichotomy d t.i with hbefore | rfl | hbehind
    · exact h.excluded d hd hbefore hdvd
    · exact hi hdvd
    · -- between two divisors there are multiples of two and three only
      have hskipped : 2 ∣ d ∨ 3 ∣ d := by
        have hform := h.form
        simp only [TrialDivisor.next] at hlt
        omega
      rcases hskipped with hdiv | hdiv
      · exact htwo (hdiv.trans hdvd)
      · exact hthree (hdiv.trans hdvd)

/-- A number without a divisor up to its root is prime. -/
theorem TrialDivisor.Reached.prime
    (h : t.Reached n)
    (hn : 2 ≤ n)
    (hroot : n < t.i * t.i) :
    n.Prime := by
  by_contra hcomposite
  have hsq := Nat.minFac_sq_le_self (by omega) hcomposite
  have htwo := (Nat.minFac_prime (show n ≠ 1 by omega)).two_le
  refine h.excluded n.minFac htwo ?_ (Nat.minFac_dvd n)
  by_contra hge
  have hle := Nat.mul_le_mul (not_lt.mp hge) (not_lt.mp hge)
  rw [← pow_two n.minFac] at hle
  omega

/-- The loop decides primality, and no square overflows. -/
theorem isPrimeLoop_eq
    (hn : 2 ≤ n)
    (hbound : n ≤ 2147024896)
    (h : t.Reached n)
    (hi : t.i ≤ 46340) :
    isPrimeLoop n t = some (if n.Prime then 1 else 0) := by
  fun_induction isPrimeLoop n t with
  | case1 t hover =>
      have hle := Nat.mul_le_mul hi hi
      unfold intMax at hover
      omega
  | case2 t hfits hle hmod =>
      have hfive := h.five
      have hlt : t.i < t.i * t.i := lt_mul_of_one_lt_left (by omega) (by omega)
      have hcomposite : ¬ n.Prime := by
        intro hprime
        rcases hprime.eq_one_or_self_of_dvd t.i (Nat.dvd_of_mod_eq_zero hmod) with hone | hself
        · omega
        · omega
      rw [if_neg hcomposite]
  | case3 t hfits hle hmod ih =>
      have hroot : t.i ≤ 46336 := by
        by_contra hgt
        have hsquare := Nat.mul_le_mul (not_le.mp hgt) (not_le.mp hgt)
        omega
      have hform := h.form
      refine ih (h.next fun hdvd => hmod (Nat.mod_eq_zero_of_dvd hdvd)) ?_
      simp only [TrialDivisor.next]
      omega
  | case4 t hfits hgt => rw [if_pos (h.prime hn (not_le.mp hgt))]

end Trials

section Results

variable {n : Nat} {num : UInt32}

/-- `is_prime` decides primality. -/
theorem isPrime_eq
    (hn : 2 ≤ n)
    (hbound : n ≤ 2147024896) :
    isPrime n = some (if n.Prime then 1 else 0) := by
  unfold isPrime
  by_cases hsmall : n = 2 ∨ n = 3
  · have hprime : n.Prime := by
      rcases hsmall with rfl | rfl
      · exact Nat.prime_two
      · exact Nat.prime_three
    rw [if_pos hsmall, if_pos hprime]
  rw [if_neg hsmall]
  by_cases hdiv : n % 2 = 0 ∨ n % 3 = 0
  · have hcomposite : ¬ n.Prime := by
      intro hprime
      rcases hdiv with hmod | hmod
      · have heq := (Nat.prime_dvd_prime_iff_eq Nat.prime_two hprime).mp
          (Nat.dvd_of_mod_eq_zero hmod)
        omega
      · have heq := (Nat.prime_dvd_prime_iff_eq Nat.prime_three hprime).mp
          (Nat.dvd_of_mod_eq_zero hmod)
        omega
    rw [if_pos hdiv, if_neg hcomposite]
  · rw [if_neg hdiv]
    refine isPrimeLoop_eq hn hbound ⟨.inl ⟨rfl, rfl⟩, le_rfl, ?_⟩ (by decide)
    intro d hd hlt hdvd
    have hlt : d < 5 := hlt
    interval_cases d
    · omega
    · omega
    · omega

theorem getPrime_of_prime
    (h : isPrime num.toNat = some 1) :
    getPrime num = some num := by
  rw [getPrime]
  split
  · rename_i hnone
    rw [h] at hnone
    cases hnone
  · rename_i r hr
    rw [h] at hr
    rw [← Option.some.inj hr, if_neg Nat.one_ne_zero]

theorem getPrime_of_composite
    (h : isPrime num.toNat = some 0) :
    getPrime num = getPrime (num + 1) := by
  rw [getPrime]
  split
  · rename_i hnone
    rw [h] at hnone
    cases hnone
  · rename_i r hr
    rw [h] at hr
    rw [← Option.some.inj hr, if_pos rfl]

/-- The search goes on until the first prime. -/
theorem getPrime_eq
    (hnum : 2 ≤ num.toNat)
    (hprime : ∃ p, p.Prime ∧ num.toNat ≤ p ∧ p ≤ 2147024896) :
    ∃ q, getPrime num = some q ∧ q.toNat.Prime ∧ num.toNat ≤ q.toNat ∧
      ∀ p, p.Prime → num.toNat ≤ p → q.toNat ≤ p := by
  obtain ⟨p, hp, hle, hbound⟩ := hprime
  -- by induction on the distance from the prime
  induction hdist : p - num.toNat generalizing num with
  | zero =>
      obtain rfl : num.toNat = p := by omega
      refine ⟨num, getPrime_of_prime ?_, hp, le_rfl, fun _ _ h => h⟩
      rw [isPrime_eq hnum hbound, if_pos hp]
  | succ k ih =>
      have heq := isPrime_eq hnum (show num.toNat ≤ 2147024896 by omega)
      by_cases hself : num.toNat.Prime
      · rw [if_pos hself] at heq
        exact ⟨num, getPrime_of_prime heq, hself, le_rfl, fun _ _ h => h⟩
      · rw [if_neg hself] at heq
        have hnext : (num + 1).toNat = num.toNat + 1 := by
          rw [UInt32.toNat_add]
          have hvalue : (1 : UInt32).toNat = 1 := rfl
          omega
        obtain ⟨q, hq, hqprime, hqle, hleast⟩ :=
          @ih (num + 1) (by omega) (by omega) (by omega)
        rw [getPrime_of_composite heq]
        refine ⟨q, hq, hqprime, by omega, fun p' hp' hle' => hleast p' hp' ?_⟩
        have hne : num.toNat ≠ p' := fun h => hself (h ▸ hp')
        omega

/-- The sizes of hash tables: `is_prime` decides primality without an overflow, and `get_prime`
comes to the next prime. -/
theorem prime_table_sizes :
    (∀ n, 2 ≤ n → n ≤ 2147024896 → ∃ r, isPrime n = some r ∧ (r = 1 ↔ n.Prime)) ∧
      ∀ num : UInt32, 2 ≤ num.toNat →
        (∃ p, p.Prime ∧ num.toNat ≤ p ∧ p ≤ 2147024896) →
        ∃ q, getPrime num = some q ∧ q.toNat.Prime ∧ num.toNat ≤ q.toNat ∧
          ∀ p, p.Prime → num.toNat ≤ p → q.toNat ≤ p := by
  constructor
  · intro n hn hbound
    refine ⟨_, isPrime_eq hn hbound, ?_⟩
    by_cases hprime : n.Prime
    · simp [hprime]
    · simp [hprime]
  · intro num hnum hprime
    exact getPrime_eq hnum hprime

/-- The first square that is tried, and the next prime behind it. -/
theorem prime_table_sizes_square :
    (∃ r, isPrime 25 = some r ∧ (r = 1 ↔ Nat.Prime 25)) ∧
      ∃ q, getPrime 25 = some q ∧ q.toNat.Prime ∧ (25 : UInt32).toNat ≤ q.toNat ∧
        ∀ p, p.Prime → (25 : UInt32).toNat ≤ p → q.toNat ≤ p :=
  ⟨prime_table_sizes.1 25 (by decide) (by decide),
    prime_table_sizes.2 25 (by decide) ⟨29, by norm_num, by decide, by decide⟩⟩

end Results

end Obix
