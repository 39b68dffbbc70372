import Mathlib.Data.List.Infix
import Mathlib.Tactic

/-!
# C strings as lists of characters

A C string is modelled by the list of its characters, without the terminator.
A pointer into a string is an offset, and `strstr` yields the offset of the
first occurrence of a needle.

The search lemmas come in two groups:

* `find_append_of_some`: an occurrence found in a prefix is found there
  whatever follows;
* `find_append_of_sep`: a prefix that ends with a character foreign to the
  needle and that does not contain the needle is skipped as a whole.

The second group of definitions covers number parsing (`strtol`), tokenizing
(`strtok_r`) and the path functions `dirname` and `basename`.
-/

namespace CString

/-- A C string without its terminator. -/
abbrev Text := List Char

section Search

/-- Offset of the first occurrence of a needle. -/
def find (needle : Text) : Text → Option Nat
  | [] => if needle = [] then some 0 else none
  | c :: s =>
      if needle.isPrefixOf (c :: s) then some 0
      else (find needle s).map (· + 1)

/-- `strstr` started at offset `n` of a buffer; the result is an offset of the buffer. -/
def strstr (buf : Text) (n : Nat) (needle : Text) : Option Nat :=
  (find needle (buf.drop n)).map (n + ·)

theorem find_of_prefix
    {needle s : Text}
    (h : needle <+: s) :
    find needle s = some 0 := by
  cases s with
  | nil =>
      have hn : needle = [] := List.prefix_nil.mp h
      simp [find, hn]
  | cons c s =>
      have hb : needle.isPrefixOf (c :: s) = true :=
        List.isPrefixOf_iff_prefix.mpr h
      simp [find, hb]

/-- What `find` returns is an occurrence. -/
theorem prefix_drop_of_find
    {needle s : Text} {i : Nat}
    (h : find needle s = some i) :
    needle <+: s.drop i := by
  induction s generalizing i with
  | nil =>
      by_cases hn : needle = []
      · simp [hn]
      · simp [find, hn] at h
  | cons c s ih =>
      by_cases hb : needle.isPrefixOf (c :: s) = true
      · simp only [find, hb, if_true, Option.some.injEq] at h
        subst h
        simpa using List.isPrefixOf_iff_prefix.mp hb
      · simp only [find, hb, Bool.false_eq_true, if_false,
          Option.map_eq_some_iff] at h
        obtain ⟨j, hj, rfl⟩ := h
        simpa using ih hj

/-- What `find` returns is the first occurrence. -/
theorem not_prefix_drop_of_lt_find
    {needle s : Text} {i j : Nat}
    (h : find needle s = some i)
    (hj : j < i) :
    ¬ needle <+: s.drop j := by
  induction s generalizing i j with
  | nil =>
      by_cases hn : needle = []
      · simp [find, hn] at h
        omega
      · simp [find, hn] at h
  | cons c s ih =>
      by_cases hb : needle.isPrefixOf (c :: s) = true
      · simp only [find, hb, if_true, Option.some.injEq] at h
        omega
      · simp only [find, hb, Bool.false_eq_true, if_false,
          Option.map_eq_some_iff] at h
        obtain ⟨k, hk, rfl⟩ := h
        cases j with
        | zero =>
            intro hp
            exact hb (List.isPrefixOf_iff_prefix.mpr (by simpa using hp))
        | succ j =>
            simpa using ih hk (by omega)

/-- An occurrence with no earlier one is what `find` returns. -/
theorem find_eq_some
    {needle s : Text} {i : Nat}
    (hocc : needle <+: s.drop i)
    (hlen : i ≤ s.length)
    (hfirst : ∀ j, j < i → ¬ needle <+: s.drop j) :
    find needle s = some i := by
  induction s generalizing i with
  | nil =>
      have hi : i = 0 := by simpa using hlen
      subst hi
      exact find_of_prefix (by simpa using hocc)
  | cons c s ih =>
      cases i with
      | zero =>
          exact find_of_prefix (by simpa using hocc)
      | succ i =>
          have hb : ¬ needle.isPrefixOf (c :: s) = true := by
            intro hb
            exact hfirst 0 (by omega) (by simpa using List.isPrefixOf_iff_prefix.mp hb)
          have hrec : find needle s = some i := by
            refine ih (by simpa using hocc) (by simpa using hlen) ?_
            intro j hj
            simpa using hfirst (j + 1) (by omega)
          simp [find, hb, hrec]

/-- A needle that occurs nowhere is not found. -/
theorem find_eq_none
    {needle s : Text}
    (hnone : ∀ j, ¬ needle <+: s.drop j) :
    find needle s = none := by
  cases h : find needle s with
  | none => rfl
  | some i => exact absurd (prefix_drop_of_find h) (hnone i)

theorem not_prefix_drop_of_find_none
    {needle s : Text}
    (h : find needle s = none)
    (j : Nat) :
    ¬ needle <+: s.drop j := by
  induction s generalizing j with
  | nil =>
      by_cases hn : needle = []
      · simp [find, hn] at h
      · intro hp
        exact hn (by simpa using hp)
  | cons c s ih =>
      by_cases hb : needle.isPrefixOf (c :: s) = true
      · simp [find, hb] at h
      · simp only [find, hb, Bool.false_eq_true, if_false,
          Option.map_eq_none_iff] at h
        cases j with
        | zero =>
            intro hp
            exact hb (List.isPrefixOf_iff_prefix.mpr (by simpa using hp))
        | succ j =>
            simpa using ih h j

/-- The found occurrence lies inside the searched string. -/
theorem find_add_length_le
    {needle s : Text} {i : Nat}
    (h : find needle s = some i) :
    i + needle.length ≤ s.length := by
  by_cases hn : needle = []
  · subst hn
    have h0 : find [] s = some 0 := find_of_prefix (List.nil_prefix)
    rw [h0] at h
    cases h
    simp
  · have hp := (prefix_drop_of_find h).length_le
    have hpos : 0 < needle.length := List.length_pos_iff.mpr hn
    rw [List.length_drop] at hp
    omega

/-- An occurrence in a prefix of the text is also the first one of the whole text. -/
theorem find_append_of_some
    {needle s : Text} {i : Nat}
    (h : find needle s = some i)
    (r : Text) :
    find needle (s ++ r) = some i := by
  have hle := find_add_length_le h
  refine find_eq_some ?_ (by simp; omega) ?_
  · rw [List.drop_append_of_le_length (by omega)]
    exact List.prefix_append_of_prefix (prefix_drop_of_find h)
  · intro j hj hp
    rw [List.drop_append_of_le_length (by omega)] at hp
    have hin : needle <+: s.drop j :=
      List.prefix_of_prefix_length_le hp (List.prefix_append _ _) (by simp; omega)
    exact not_prefix_drop_of_lt_find h hj hin

/-- A first occurrence that lies in a prefix of the text is the first one there. -/
theorem find_of_append
    {needle s r : Text} {i : Nat}
    (h : find needle (s ++ r) = some i)
    (hle : i + needle.length ≤ s.length) :
    find needle s = some i := by
  refine find_eq_some ?_ (by omega) ?_
  · have hp := prefix_drop_of_find h
    rw [List.drop_append_of_le_length (by omega)] at hp
    exact List.prefix_of_prefix_length_le hp (List.prefix_append _ _) (by simp; omega)
  · intro j hj hp
    refine not_prefix_drop_of_lt_find h hj ?_
    rw [List.drop_append_of_le_length (by omega)]
    exact List.prefix_append_of_prefix hp

/-- An occurrence that starts before a foreign character also ends before it. -/
theorem prefix_drop_of_sep
    {needle s r : Text} {sep : Char} {j : Nat}
    (hsep : sep ∉ needle)
    (hj : j ≤ s.length)
    (hp : needle <+: (s ++ sep :: r).drop j) :
    needle <+: s.drop j := by
  rw [List.drop_append_of_le_length hj] at hp
  by_cases hlen : needle.length ≤ (s.drop j).length
  · exact List.prefix_of_prefix_length_le hp (List.prefix_append _ _) hlen
  · exfalso
    have hpre : s.drop j ++ [sep] <+: needle := by
      refine List.prefix_of_prefix_length_le ?_ hp (by simp at hlen ⊢; omega)
      exact ⟨r, by simp⟩
    exact hsep (hpre.subset (by simp))

/-- A part without the needle that ends with a foreign character is skipped. -/
theorem find_append_of_sep
    {needle s : Text} {sep : Char}
    (hsep : sep ∉ needle)
    (h : find needle (s ++ [sep]) = none)
    (r : Text) :
    find needle (s ++ [sep] ++ r) = (find needle r).map (s.length + 1 + ·) := by
  have hbefore : ∀ j, j ≤ s.length → ¬ needle <+: (s ++ [sep] ++ r).drop j := by
    intro j hj hp
    rw [List.append_assoc, List.singleton_append] at hp
    have hin := prefix_drop_of_sep hsep hj hp
    refine not_prefix_drop_of_find_none h j ?_
    rw [List.drop_append_of_le_length hj]
    exact List.prefix_append_of_prefix hin
  have hafter : ∀ k, (s ++ [sep] ++ r).drop (s.length + 1 + k) = r.drop k := by
    intro k
    have hlen : (s ++ [sep]).length = s.length + 1 := by simp
    rw [List.drop_append, List.drop_eq_nil_of_le (by omega), List.nil_append, hlen,
      Nat.add_sub_cancel_left]
  cases hr : find needle r with
  | none =>
      refine find_eq_none ?_
      intro j hp
      by_cases hj : j ≤ s.length
      · exact hbefore j hj hp
      · obtain ⟨k, rfl⟩ : ∃ k, j = s.length + 1 + k := ⟨j - (s.length + 1), by omega⟩
        rw [hafter] at hp
        exact not_prefix_drop_of_find_none hr k hp
  | some i =>
      have hle := find_add_length_le hr
      refine find_eq_some ?_ (by simp; omega) ?_
      · rw [hafter]
        exact prefix_drop_of_find hr
      · intro j hj hp
        by_cases hjs : j ≤ s.length
        · exact hbefore j hjs hp
        · obtain ⟨k, rfl⟩ : ∃ k, j = s.length + 1 + k := ⟨j - (s.length + 1), by omega⟩
          have hki : s.length + 1 + k < s.length + 1 + i := hj
          rw [hafter] at hp
          exact not_prefix_drop_of_lt_find hr (by omega) hp

end Search

section Numbers

/-- `isspace` in the C locale. -/
def isSpace (c : Char) : Bool :=
  c = ' ' || ('\t' ≤ c && c ≤ '\r')

/-- Largest value of a 64-bit `long`. -/
def longMax : Int := 2 ^ 63 - 1

/-- Smallest value of a 64-bit `long`. -/
def longMin : Int := -2 ^ 63

/-- Outcome of `strtol` in base 10: the value, `ERANGE`, and the rest from `endptr` on. -/
structure Strtol where
  value : Int
  erange : Bool
  rest : Text
  converted : Bool

/-- `strtol(s, &endptr, 10)`. -/
def strtol (s : Text) : Strtol :=
  let t := s.dropWhile isSpace
  let neg := t.head? = some '-'
  let u := if t.head? = some '-' ∨ t.head? = some '+' then t.tail else t
  let ds := u.takeWhile Char.isDigit
  if ds = [] then
    { value := 0, erange := false, rest := s, converted := false }
  else
    let m : Int := Nat.ofDigitChars 10 ds 0
    let v := if neg then -m else m
    if v > longMax then
      { value := longMax, erange := true, rest := u.dropWhile Char.isDigit, converted := true }
    else if v < longMin then
      { value := longMin, erange := true, rest := u.dropWhile Char.isDigit, converted := true }
    else
      { value := v, erange := false, rest := u.dropWhile Char.isDigit, converted := true }

/-- `printf` of a natural number with `%.2d`. -/
def pad2 (n : Nat) : Text :=
  if n < 10 then '0' :: Nat.toDigits 10 n else Nat.toDigits 10 n

/-- `printf` of an integer with `%d` or `%ld`. -/
def showInt (n : Int) : Text :=
  if n < 0 then '-' :: Nat.toDigits 10 n.natAbs else Nat.toDigits 10 n.natAbs

theorem isDigit_of_mem_pad2
    {n : Nat} {c : Char}
    (h : c ∈ pad2 n) :
    c.isDigit = true := by
  unfold pad2 at h
  split at h
  · rcases List.mem_cons.mp h with rfl | h
    · decide
    · exact Nat.isDigit_of_mem_toDigits (by omega) (by omega) h
  · exact Nat.isDigit_of_mem_toDigits (by omega) (by omega) h

theorem pad2_ne_nil (n : Nat) : pad2 n ≠ [] := by
  unfold pad2
  split
  · simp
  · exact Nat.toDigits_ne_nil

theorem ofDigitChars_pad2 (n : Nat) :
    Nat.ofDigitChars 10 (pad2 n) 0 = n := by
  unfold pad2
  split
  · have h := Nat.ofDigitChars_ten_toDigits (n := n)
    simpa [Nat.ofDigitChars] using h
  · exact Nat.ofDigitChars_ten_toDigits

/-- A digit is neither white space nor a sign. -/
theorem not_isSpace_of_isDigit
    {c : Char}
    (h : c.isDigit = true) :
    isSpace c = false ∧ c ≠ '-' ∧ c ≠ '+' := by
  have hd : 48 ≤ c.val.toNat ∧ c.val.toNat ≤ 57 := by
    simpa [Char.isDigit, UInt32.le_iff_toNat_le] using h
  refine ⟨?_, ?_, ?_⟩
  · have h1 : c ≠ ' ' := by
      rintro rfl
      simp at hd
    have h2 : ¬ c ≤ '\r' := by
      intro hle
      have : c.val.toNat ≤ 13 := by
        simpa [Char.le_def, UInt32.le_iff_toNat_le] using hle
      omega
    simp [isSpace, h1, h2]
  · rintro rfl
    simp at hd
  · rintro rfl
    simp at hd

/-- Reading back a digit string that a non-digit follows. -/
theorem strtol_digits
    {ds rest : Text}
    (hne : ds ≠ [])
    (hds : ∀ c ∈ ds, c.isDigit = true)
    (hrest : ∀ c, rest.head? = some c → c.isDigit = false)
    (hmax : (Nat.ofDigitChars 10 ds 0 : Int) ≤ longMax) :
    strtol (ds ++ rest) =
      { value := Nat.ofDigitChars 10 ds 0, erange := false,
        rest := rest, converted := true } := by
  obtain ⟨d, ds', rfl⟩ := List.exists_cons_of_ne_nil hne
  obtain ⟨hsp, hminus, hplus⟩ := not_isSpace_of_isDigit (hds d (by simp))
  have hskip : ((d :: ds') ++ rest).dropWhile isSpace = (d :: ds') ++ rest := by
    simp [hsp]
  have htake : ((d :: ds') ++ rest).takeWhile Char.isDigit = d :: ds' := by
    rw [List.takeWhile_append_of_pos hds]
    cases rest with
    | nil => simp
    | cons c rest => simp [hrest c (by simp)]
  have hdrop : ((d :: ds') ++ rest).dropWhile Char.isDigit = rest := by
    rw [List.dropWhile_append_of_pos hds]
    cases rest with
    | nil => simp
    | cons c rest => simp [hrest c (by simp)]
  have hmin : ¬ ((Nat.ofDigitChars 10 (d :: ds') 0 : Int) < longMin) := by
    have : longMin ≤ 0 := by decide
    omega
  unfold strtol
  simp only [hskip]
  have hhead : (d :: ds' ++ rest).head? = some d := rfl
  simp only [hhead, Option.some.injEq, hminus, hplus, or_self, if_false, htake, hdrop]
  simp [hmax, hmin]

end Numbers

section Paths

/-- Tokens of a string as `strtok_r` cuts them, after a partly read token. -/
def tokensAux (delim : Char) : Text → Text → List Text
  | acc, [] => if acc = [] then [] else [acc]
  | acc, c :: s =>
      if c = delim then
        if acc = [] then tokensAux delim [] s else acc :: tokensAux delim [] s
      else tokensAux delim (acc ++ [c]) s

/-- The non-empty maximal parts of a string without the delimiter. -/
def tokens (delim : Char) (s : Text) : List Text :=
  tokensAux delim [] s

/-- POSIX `dirname`. -/
def dirname (s : Text) : Text :=
  let r := s.reverse.dropWhile (· = '/')
  if r = [] then
    if s = [] then ['.'] else ['/']
  else
    let d := r.dropWhile (· ≠ '/')
    if d = [] then ['.']
    else if d.dropWhile (· = '/') = [] then ['/']
    else (d.dropWhile (· = '/')).reverse

/-- POSIX `basename`. -/
def basename (s : Text) : Text :=
  let r := s.reverse.dropWhile (· = '/')
  if r = [] then
    if s = [] then ['.'] else ['/']
  else (r.takeWhile (· ≠ '/')).reverse

/-- Tokens, each with a delimiter before it. -/
def delimited (delim : Char) (ts : List Text) : Text :=
  ts.flatMap (delim :: ·)

/-- A token that is cut out whole. -/
def IsToken (delim : Char) (t : Text) : Prop :=
  t ≠ [] ∧ delim ∉ t

theorem delimited_cons (delim : Char) (t : Text) (ts : List Text) :
    delimited delim (t :: ts) = delim :: (t ++ delimited delim ts) := by
  simp [delimited]

theorem delimited_concat (delim : Char) (ts : List Text) (t : Text) :
    delimited delim (ts ++ [t]) = delimited delim ts ++ delim :: t := by
  simp [delimited]

theorem tokensAux_append
    {delim : Char} {t : Text}
    (ht : delim ∉ t)
    (acc s : Text) :
    tokensAux delim acc (t ++ s) = tokensAux delim (acc ++ t) s := by
  induction t generalizing acc with
  | nil => simp
  | cons c t ih =>
      simp only [List.mem_cons, not_or] at ht
      simp only [List.cons_append, tokensAux, if_neg (Ne.symm ht.1)]
      rw [ih ht.2]
      simp

@[simp] theorem tokens_delim_cons (delim : Char) (s : Text) :
    tokens delim (delim :: s) = tokens delim s := by
  simp [tokens, tokensAux]

theorem tokens_delimited
    {delim : Char} {ts : List Text}
    (h : ∀ t ∈ ts, IsToken delim t) :
    tokens delim (delimited delim ts) = ts := by
  induction ts with
  | nil => rfl
  | cons t ts ih =>
      obtain ⟨hne, ht⟩ := h t (by simp)
      have ih := ih fun u hu => h u (List.mem_cons_of_mem _ hu)
      rw [delimited_cons, tokens_delim_cons, tokens, tokensAux_append ht, List.nil_append]
      cases ts with
      | nil => simp [delimited, tokensAux, hne]
      | cons u us =>
          rw [delimited_cons, tokens_delim_cons] at ih
          rw [delimited_cons]
          simp only [tokensAux, if_true, hne, if_false]
          exact congrArg (t :: ·) ih

theorem find_double_append
    {delim : Char} {t s : Text}
    (ht : delim ∉ t)
    (hs : find [delim, delim] s = none) :
    find [delim, delim] (t ++ s) = none := by
  induction t with
  | nil => exact hs
  | cons c t ih =>
      simp only [List.mem_cons, not_or] at ht
      simp [find, List.isPrefixOf, ht.1, ih ht.2]

/-- There is no empty token between two delimiters. -/
theorem find_double_delimited
    {delim : Char} {ts : List Text}
    (h : ∀ t ∈ ts, IsToken delim t) :
    find [delim, delim] (delimited delim ts) = none := by
  induction ts with
  | nil => simp [delimited, find]
  | cons t ts ih =>
      obtain ⟨hne, ht⟩ := h t (by simp)
      have hrest := find_double_append ht (ih fun u hu => h u (List.mem_cons_of_mem _ hu))
      obtain ⟨c, t, rfl⟩ := List.exists_cons_of_ne_nil hne
      have hc : delim ≠ c := by
        rintro rfl
        exact ht (by simp)
      rw [delimited_cons, find, hrest]
      simp [List.isPrefixOf, hc]

/-- The last character of a path of tokens is not a delimiter. -/
theorem delimited_reverse
    {delim : Char} {ts : List Text} {t : Text}
    (ht : IsToken delim t) :
    ∃ c s, (delimited delim (ts ++ [t])).reverse = c :: s ∧ c ≠ delim ∧
      c :: s = t.reverse ++ delim :: (delimited delim ts).reverse := by
  obtain ⟨hne, hmem⟩ := ht
  obtain ⟨c, s, hcs⟩ := List.exists_cons_of_ne_nil (List.reverse_ne_nil_iff.mpr hne)
  refine ⟨c, s ++ delim :: (delimited delim ts).reverse, ?_, ?_, ?_⟩
  · rw [delimited_concat]
    simp [hcs]
  · rintro rfl
    exact hmem (List.mem_reverse.mp (hcs ▸ List.mem_cons_self))
  · simp [hcs]

theorem dropWhile_token
    {delim : Char} {t s : Text}
    (ht : delim ∉ t) :
    (t.reverse ++ delim :: s).dropWhile (· ≠ delim) = delim :: s := by
  have hall : ∀ c ∈ t.reverse, decide (c ≠ delim) = true := by
    intro c hc
    simp only [ne_eq, decide_not, Bool.not_eq_eq_eq_not, Bool.not_true, decide_eq_false_iff_not]
    rintro rfl
    exact ht (List.mem_reverse.mp hc)
  rw [List.dropWhile_append_of_pos hall]
  simp

theorem takeWhile_token
    {delim : Char} {t s : Text}
    (ht : delim ∉ t) :
    (t.reverse ++ delim :: s).takeWhile (· ≠ delim) = t.reverse := by
  have hall : ∀ c ∈ t.reverse, decide (c ≠ delim) = true := by
    intro c hc
    simp only [ne_eq, decide_not, Bool.not_eq_eq_eq_not, Bool.not_true, decide_eq_false_iff_not]
    rintro rfl
    exact ht (List.mem_reverse.mp hc)
  rw [List.takeWhile_append_of_pos hall]
  simp

theorem basename_delimited
    {ts : List Text} {t : Text}
    (ht : IsToken '/' t) :
    basename (delimited '/' (ts ++ [t])) = t := by
  obtain ⟨c, s, hrev, hc, hsplit⟩ := @delimited_reverse '/' ts t ht
  unfold basename
  rw [hrev, List.dropWhile_cons_of_neg (by simpa using hc)]
  simp only [reduceCtorEq, if_false]
  rw [hsplit, takeWhile_token ht.2, List.reverse_reverse]

theorem dirname_delimited
    {ts : List Text} {u t : Text}
    (hu : IsToken '/' u)
    (ht : IsToken '/' t) :
    dirname (delimited '/' (ts ++ [u] ++ [t])) = delimited '/' (ts ++ [u]) := by
  obtain ⟨c, s, hrev, hc, hsplit⟩ := @delimited_reverse '/' (ts ++ [u]) t ht
  obtain ⟨c', s', hrev', hc', -⟩ := @delimited_reverse '/' ts u hu
  unfold dirname
  rw [hrev, List.dropWhile_cons_of_neg (by simpa using hc)]
  simp only [reduceCtorEq, if_false]
  rw [hsplit, dropWhile_token ht.2, hrev']
  have hdrop : ('/' :: c' :: s').dropWhile (· = '/') = c' :: s' := by
    rw [List.dropWhile_cons_of_pos (by simp), List.dropWhile_cons_of_neg (by simpa using hc')]
  rw [hdrop]
  simp only [reduceCtorEq, if_false]
  rw [← hrev', List.reverse_reverse]

end Paths

end CString
