import Obix.Lib.CString
import Mathlib.Data.List.TakeWhile

/-!
# Tokens and parts of a string

The tokens of a string are parts of it without the delimiter, and a part without the delimiter
lies in one token (`isInfix_delimited_iff`).
-/

namespace CString

variable {delim : Char} {t u s : Text}

theorem tokensAux_append_delim
    (acc s : Text) :
    ∀ r : Text, tokensAux delim acc (r ++ delim :: s) = tokensAux delim acc r ++ tokens delim s
  | [] => by
      by_cases hacc : acc = []
      · simp [tokensAux, hacc, tokens]
      · simp [tokensAux, hacc, tokens]
  | c :: r => by
      simp only [List.cons_append, tokensAux, tokensAux_append_delim _ s r]
      split
      · split <;> simp
      · rfl

/-- A token is a part of its string. -/
theorem isInfix_of_mem_tokensAux
    {acc : Text}
    (h : t ∈ tokensAux delim acc s) :
    t <:+: acc ++ s := by
  induction s generalizing acc with
  | nil =>
      rw [tokensAux] at h
      split at h
      · cases h
      · rw [List.mem_singleton.mp h]
        exact (List.prefix_append _ _).isInfix
  | cons c s ih =>
      rw [tokensAux] at h
      have hlater : ∀ u : Text, u <:+: s → u <:+: acc ++ c :: s := fun u hu =>
        hu.trans ((List.suffix_cons c s).trans (List.suffix_append acc (c :: s))).isInfix
      split at h
      · split at h
        · exact hlater t (ih h)
        · rcases List.mem_cons.mp h with rfl | h
          · exact (List.prefix_append _ _).isInfix
          · exact hlater t (ih h)
      · have hpart := ih h
        rwa [List.append_assoc, List.singleton_append] at hpart

theorem isInfix_of_mem_tokens
    (h : t ∈ tokens delim s) :
    t <:+: s :=
  isInfix_of_mem_tokensAux h

theorem isToken_of_mem_tokensAux
    {acc : Text}
    (hacc : delim ∉ acc)
    (h : t ∈ tokensAux delim acc s) :
    IsToken delim t := by
  induction s generalizing acc with
  | nil =>
      rw [tokensAux] at h
      split at h
      · cases h
      · rename_i hne
        rw [List.mem_singleton.mp h]
        exact ⟨hne, hacc⟩
  | cons c s ih =>
      rw [tokensAux] at h
      split at h
      · split at h
        · exact ih (by simp) h
        · rename_i hne
          rcases List.mem_cons.mp h with rfl | h
          · exact ⟨hne, hacc⟩
          · exact ih (by simp) h
      · rename_i hc
        exact ih (by simp [hacc, Ne.symm hc]) h

theorem isToken_of_mem_tokens
    (h : t ∈ tokens delim s) :
    IsToken delim t :=
  isToken_of_mem_tokensAux (by simp) h

/-- A string of delimiters has no tokens. -/
theorem tokens_of_delims
    (h : ∀ c ∈ s, c = delim) :
    tokens delim s = [] := by
  induction s with
  | nil => rfl
  | cons c s ih =>
      rw [h c List.mem_cons_self, tokens_delim_cons]
      exact ih fun d hd => h d (List.mem_cons_of_mem c hd)

theorem tokens_of_isToken
    (h : IsToken delim t) :
    tokens delim t = [t] := by
  have htokens := @tokens_delimited delim [t] (by simpa using h)
  rwa [delimited_cons, tokens_delim_cons, delimited, List.flatMap_nil, List.append_nil] at htokens

theorem tokens_delimited_cons
    (ts : List Text) :
    tokens '/' (delimited '/' (t :: ts)) = tokens '/' t ++ tokens '/' (delimited '/' ts) := by
  rw [delimited_cons, tokens_delim_cons]
  cases ts with
  | nil =>
      show tokens '/' (t ++ []) = tokens '/' t ++ []
      rw [List.append_nil, List.append_nil]
  | cons u ts =>
      rw [delimited_cons, tokens, tokensAux_append_delim, tokens_delim_cons]
      rfl

/-- The last token of a path is its `basename`. -/
theorem getLast?_tokens
    (h : ∃ c ∈ s, c ≠ '/') :
    (tokens '/' s).getLast? = some (basename s) := by
  have hslashes : ∀ c ∈ s.reverse.takeWhile (· = '/'), c = '/' := by
    intro c hc
    simpa using List.mem_takeWhile_imp hc
  have hsplit := List.takeWhile_append_dropWhile (p := (· = '/')) (l := s.reverse)
  unfold basename
  dsimp only
  generalize s.reverse.takeWhile (· = '/') = slashes at hslashes hsplit
  generalize hr : s.reverse.dropWhile (· = '/') = r at hsplit ⊢
  -- something is left of the string without the slashes at its end
  obtain ⟨d, r, rfl⟩ : ∃ d r', r = d :: r' := by
    refine List.exists_cons_of_ne_nil fun hnil => ?_
    obtain ⟨c, hc, hne⟩ := h
    rw [hnil, List.append_nil] at hsplit
    exact hne (hslashes c (hsplit ▸ List.mem_reverse.mpr hc))
  have hd : d ≠ '/' := by
    have hhead := List.head?_dropWhile_not (· = '/') s.reverse
    rw [hr] at hhead
    simpa using hhead
  have hparts := List.takeWhile_append_dropWhile (p := (· ≠ '/')) (l := d :: r)
  have htoken : IsToken '/' ((d :: r).takeWhile (· ≠ '/')).reverse := by
    constructor
    · rw [List.takeWhile_cons_of_pos (by simpa using hd)]
      simp
    · intro hmem
      have := List.mem_takeWhile_imp (List.mem_reverse.mp hmem)
      simp at this
  have hrest : (d :: r).dropWhile (· ≠ '/') = [] ∨
      ∃ u, (d :: r).dropWhile (· ≠ '/') = '/' :: u := by
    rcases hdrop : (d :: r).dropWhile (· ≠ '/') with _ | ⟨e, u⟩
    · exact Or.inl rfl
    · have hhead := List.head?_dropWhile_not (· ≠ '/') (d :: r)
      rw [hdrop] at hhead
      exact Or.inr ⟨u, by rw [show e = '/' by simpa using hhead]⟩
  generalize ((d :: r).takeWhile (· ≠ '/')) = t at hparts htoken ⊢
  generalize (d :: r).dropWhile (· ≠ '/') = u at hparts hrest
  rw [if_neg (List.cons_ne_nil d r)]
  have hs : s = u.reverse ++ (t.reverse ++ slashes.reverse) := by
    rw [← List.reverse_append, ← List.reverse_append, List.append_assoc, hparts, hsplit,
      List.reverse_reverse]
  have hend : tokens '/' (t.reverse ++ slashes.reverse) = [t.reverse] := by
    rcases hslash : slashes.reverse with _ | ⟨e, es⟩
    · rw [List.append_nil, tokens_of_isToken htoken]
    · have hall : ∀ c ∈ e :: es, c = '/' := fun c hc =>
        hslashes c (List.mem_reverse.mp (hslash ▸ hc))
      rw [hall e List.mem_cons_self, tokens, tokensAux_append_delim,
        tokens_of_delims fun c hc => hall c (List.mem_cons_of_mem e hc), List.append_nil]
      exact tokens_of_isToken htoken
  rcases hrest with rfl | ⟨v, rfl⟩
  · rw [hs, List.reverse_nil, List.nil_append, hend]
    rfl
  · have hcut : s = v.reverse ++ '/' :: (t.reverse ++ slashes.reverse) := by
      rw [hs, List.reverse_cons, List.append_assoc]
      rfl
    rw [hcut, tokens, tokensAux_append_delim, hend, List.getLast?_append_of_ne_nil _ (by simp)]
    rfl

/-- A character is found where the string before does not have it. -/
theorem find_append_char
    (ht : delim ∉ t)
    (s : Text) :
    find [delim] (t ++ delim :: s) = some t.length := by
  induction t with
  | nil => exact find_of_prefix ⟨s, rfl⟩
  | cons c t ih =>
      simp only [List.mem_cons, not_or] at ht
      have hno : ¬ [delim].isPrefixOf (c :: (t ++ delim :: s)) = true := fun hp =>
        ht.1 (List.cons_prefix_cons.mp (List.isPrefixOf_iff_prefix.mp hp)).1
      rw [List.cons_append, find, if_neg hno, ih ht.2]
      rfl

theorem find_char_eq_none :
    find [delim] s = none ↔ delim ∉ s := by
  constructor
  · intro h hmem
    obtain ⟨a, b, rfl, ha⟩ := List.eq_append_cons_of_mem hmem
    rw [find_append_char ha] at h
    cases h
  · intro h
    refine find_eq_none fun j hp => h ?_
    exact List.mem_of_mem_drop (hp.subset List.mem_cons_self)

theorem exists_of_find_char
    {i : Nat}
    (h : find [delim] s = some i) :
    ∃ t u, s = t ++ delim :: u ∧ delim ∉ t ∧ t.length = i := by
  have hmem : delim ∈ s := by
    by_contra hnot
    rw [find_char_eq_none.mpr hnot] at h
    cases h
  obtain ⟨t, u, rfl, ht⟩ := List.eq_append_cons_of_mem hmem
  rw [find_append_char ht] at h
  exact ⟨t, u, rfl, ht, Option.some.inj h⟩

theorem find_of_isInfix
    {needle : Text}
    (h : needle <:+: s) :
    (find needle s).isSome = true := by
  obtain ⟨a, b, rfl⟩ := h
  by_contra hnone
  rw [Option.not_isSome_iff_eq_none] at hnone
  refine not_prefix_drop_of_find_none hnone a.length ?_
  rw [List.append_assoc, List.drop_left]
  exact List.prefix_append needle b

theorem isInfix_iff_exists_drop :
    t <:+: s ↔ ∃ j, j ≤ s.length ∧ t <+: s.drop j := by
  constructor
  · rintro ⟨a, b, rfl⟩
    refine ⟨a.length, by simp, ?_⟩
    rw [List.append_assoc, List.drop_left]
    exact List.prefix_append t b
  · rintro ⟨j, -, hj⟩
    exact hj.isInfix.trans (List.drop_suffix j s).isInfix

/-- A part without the delimiter does not go over it. -/
theorem isInfix_append_delim
    (ht : IsToken delim t) :
    t <:+: s ++ delim :: u ↔ t <:+: s ∨ t <:+: u := by
  constructor
  · intro h
    obtain ⟨j, -, hj⟩ := isInfix_iff_exists_drop.mp h
    by_cases hle : j ≤ s.length
    · exact .inl (isInfix_iff_exists_drop.mpr ⟨j, hle, prefix_drop_of_sep ht.2 hle hj⟩)
    · right
      rw [List.drop_append, List.drop_eq_nil_of_le (by omega), List.nil_append] at hj
      obtain ⟨k, hk⟩ : ∃ k, j - s.length = k + 1 := ⟨j - s.length - 1, by omega⟩
      rw [hk, List.drop_succ_cons] at hj
      exact hj.isInfix.trans (List.drop_suffix k u).isInfix
  · rintro (h | h)
    · exact h.trans (List.prefix_append _ _).isInfix
    · exact h.trans ((List.suffix_cons _ _).trans (List.suffix_append _ _)).isInfix

theorem isInfix_delimited_iff
    {ts : List Text}
    (ht : IsToken delim t) :
    t <:+: delimited delim ts ↔ ∃ v ∈ ts, t <:+: v := by
  induction ts with
  | nil => simp [delimited, ht.1]
  | cons v ts ih =>
      have hsplit : t <:+: v ++ delimited delim ts ↔ t <:+: v ∨ t <:+: delimited delim ts := by
        cases ts with
        | nil => simp [delimited, ht.1]
        | cons w ts =>
            rw [delimited_cons, isInfix_append_delim ht, ← List.nil_append (delim :: (w ++ _)),
              isInfix_append_delim ht]
            simp [ht.1]
      rw [delimited_cons, ← List.nil_append (delim :: (v ++ _)), isInfix_append_delim ht, hsplit, ih]
      simp [ht.1]

end CString
