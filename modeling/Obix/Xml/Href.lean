import Obix.Xml.Dom

/-!
# Hrefs of the subsystems

`is_given_type` and `is_str_identical` of `xml_utils.c` for the Device subsystem.
Two hrefs are identical if they are the same up to one slash at the end; for paths of
tokens this means that the tokens are the same.
-/

namespace Obix

open CString

/-- `obix_roots[OBIX_DEVICE].root`. -/
def deviceRootHref : Text := "/obix/deviceRoot/".toList

/-- A string without one slash at its end. -/
def trimSlash (s : Text) : Text :=
  if slashFollowed s then s.dropLast else s

/-- `is_str_identical` with `lenient == 1`. -/
def isStrIdentical (s t : Text) : Bool :=
  trimSlash s = trimSlash t

/-- `is_given_type` for the Device subsystem: the root without its slash, followed by
the end of the string or by a slash. -/
def isGivenType (href : Text) : Bool :=
  (trimSlash deviceRootHref).isPrefixOf href &&
    ((href.drop (trimSlash deviceRootHref).length).head?.all (· = '/'))

/-- `is_device_root_href`. -/
def isDeviceRootHref (href : Text) : Bool :=
  isStrIdentical href deviceRootHref

theorem trimSlash_append_slash (t : Text) : trimSlash (t ++ ['/']) = t := by
  simp [trimSlash, slashFollowed]

theorem trimSlash_cases (s : Text) :
    (slashFollowed s = false ∧ trimSlash s = s) ∨ s = trimSlash s ++ ['/'] := by
  unfold trimSlash
  cases hs : slashFollowed s with
  | false => exact .inl ⟨rfl, by simp⟩
  | true =>
      right
      simp only [slashFollowed, decide_eq_true_eq] at hs
      simp only [if_true]
      exact (List.dropLast_append_getLast? '/' hs).symm

theorem trimSlash_isPrefix (s : Text) : (trimSlash s).isPrefixOf s = true := by
  rw [List.isPrefixOf_iff_prefix]
  rcases trimSlash_cases s with ⟨-, htrim⟩ | htrim
  · rw [htrim]
  · exact ⟨['/'], htrim.symm⟩

/-- Identical strings are the same or differ by the slash at the end of one of them. -/
theorem isStrIdentical_cases
    {s t : Text}
    (h : isStrIdentical s t = true) :
    s = t ∨ (slashFollowed t = false ∧ s = t ++ ['/']) ∨
      (slashFollowed s = false ∧ t = s ++ ['/']) := by
  simp only [isStrIdentical, decide_eq_true_eq] at h
  rcases trimSlash_cases s with ⟨hs, hs'⟩ | hs <;> rcases trimSlash_cases t with ⟨ht, ht'⟩ | ht
  · exact .inl (by rw [← hs', h, ht'])
  · exact .inr (.inr ⟨hs, by rw [ht, ← h, hs']⟩)
  · exact .inr (.inl ⟨ht, by rw [hs, h, ht']⟩)
  · exact .inl (by rw [hs, ht, h])

theorem isStrIdentical_comm (s t : Text) : isStrIdentical s t = isStrIdentical t s := by
  simp only [isStrIdentical, eq_comm]

section Paths

/-- A path of tokens, each with a slash before it, with or without a slash at the end. -/
structure IsPath (s : Text) (ts : List Text) : Prop where
  isToken : ∀ t ∈ ts, IsToken '/' t
  ne_nil : ts ≠ []
  eq : s = delimited '/' ts ∨ s = delimited '/' ts ++ ['/']

variable {s t : Text} {ts us : List Text}

theorem tokensAux_append_slash
    (acc : Text) :
    ∀ s : Text, tokensAux '/' acc (s ++ ['/']) = tokensAux '/' acc s
  | [] => by
      by_cases hacc : acc = []
      · simp [tokensAux, hacc]
      · simp [tokensAux, hacc]
  | c :: s => by
      simp only [List.cons_append, tokensAux, tokensAux_append_slash _ s]

theorem IsPath.tokens
    (h : IsPath s ts) :
    tokens '/' s = ts := by
  rcases h.eq with rfl | rfl
  · exact tokens_delimited h.isToken
  · rw [CString.tokens, tokensAux_append_slash]
    exact tokens_delimited h.isToken

theorem slashFollowed_delimited
    (h : ∀ t ∈ ts, IsToken '/' t) :
    slashFollowed (delimited '/' ts) = false := by
  rcases List.eq_nil_or_concat ts with rfl | ⟨ts, t, rfl⟩
  · rfl
  · obtain ⟨hne, hslash⟩ := h t (by simp)
    rw [List.concat_eq_append, delimited_concat, slashFollowed, decide_eq_false_iff_not,
      List.getLast?_append_of_ne_nil _ (by simp)]
    obtain ⟨t, c, rfl⟩ := List.eq_nil_or_concat t |>.resolve_left hne
    intro hlast
    rw [List.concat_eq_append, ← List.cons_append, List.getLast?_concat] at hlast
    exact hslash (by simp [Option.some.inj hlast])

theorem IsPath.trimSlash
    (h : IsPath s ts) :
    trimSlash s = delimited '/' ts := by
  rcases h.eq with rfl | rfl
  · simp [Obix.trimSlash, slashFollowed_delimited h.isToken]
  · exact trimSlash_append_slash _

/-- Two paths are identical if they have the same tokens. -/
theorem IsPath.isStrIdentical_iff
    (hs : IsPath s ts)
    (ht : IsPath t us) :
    isStrIdentical s t = true ↔ ts = us := by
  rw [isStrIdentical, decide_eq_true_eq, hs.trimSlash, ht.trimSlash]
  constructor
  · intro h
    rw [← tokens_delimited hs.isToken, h, tokens_delimited ht.isToken]
  · rintro rfl
    rfl

theorem dirname_append_slash
    (h : s ≠ []) :
    dirname (s ++ ['/']) = dirname s := by
  simp [dirname, h]

theorem IsPath.dirname
    {u t : Text}
    (h : IsPath s (ts ++ [u] ++ [t])) :
    dirname s = delimited '/' (ts ++ [u]) := by
  have hu := h.isToken u (by simp)
  have ht := h.isToken t (by simp)
  rcases h.eq with rfl | rfl
  · exact dirname_delimited hu ht
  · rw [dirname_append_slash (by simp [delimited]), dirname_delimited hu ht]

theorem IsPath.basename
    {t : Text}
    (h : IsPath s (ts ++ [t])) :
    basename s = t := by
  have ht := h.isToken t (by simp)
  rcases h.eq with rfl | rfl
  · exact basename_delimited ht
  · have hslash : ∀ r : Text, r ≠ [] → CString.basename (r ++ ['/']) = CString.basename r := by
      intro r hr
      simp [CString.basename, hr]
    rw [hslash _ (by simp [delimited])]
    exact basename_delimited ht

theorem isPath_delimited
    (h : ∀ t ∈ ts, IsToken '/' t)
    (hne : ts ≠ []) :
    IsPath (delimited '/' ts) ts :=
  ⟨h, hne, .inl rfl⟩

/-- The part of a string before its first slash. -/
theorem exists_before_slash (r : Text) :
    ∃ t rest, r = t ++ rest ∧ '/' ∉ t ∧ (rest = [] ∨ ∃ rest', rest = '/' :: rest') := by
  induction r with
  | nil => exact ⟨[], [], rfl, by simp, .inl rfl⟩
  | cons c r ih =>
      by_cases hc : c = '/'
      · exact ⟨[], c :: r, rfl, by simp, .inr ⟨r, by rw [hc]⟩⟩
      · obtain ⟨t, rest, rfl, ht, hrest⟩ := ih
        exact ⟨c :: t, rest, rfl, by simp [Ne.symm hc, ht], hrest⟩

/-- A string that starts with a slash and has no two slashes in a row. -/
theorem exists_delimited
    (r : Text)
    (hdouble : ∀ j, ¬ ['/', '/'] <+: ('/' :: r).drop j) :
    ∃ ts, (∀ t ∈ ts, IsToken '/' t) ∧
      ('/' :: r = delimited '/' ts ∨ '/' :: r = delimited '/' ts ++ ['/']) := by
  obtain ⟨t, rest, rfl, ht, hrest⟩ := exists_before_slash r
  by_cases hnil : t = []
  · -- nothing can follow the slash
    subst hnil
    rcases hrest with rfl | ⟨rest, rfl⟩
    · exact ⟨[], by simp, .inr rfl⟩
    · exact absurd (by simp) (hdouble 0)
  · rcases hrest with rfl | ⟨rest, rfl⟩
    · refine ⟨[t], by simpa using ⟨hnil, ht⟩, .inl ?_⟩
      simp [delimited]
    · have hlt : rest.length < (t ++ '/' :: rest).length := by
        simp only [List.length_append, List.length_cons]
        omega
      obtain ⟨ts, hts, heq⟩ := exists_delimited rest fun j => by
        have hdrop : ('/' :: (t ++ '/' :: rest)).drop (t.length + 1 + j) = ('/' :: rest).drop j := by
          rw [← List.drop_drop]
          simp
        rw [← hdrop]
        exact hdouble _
      refine ⟨t :: ts, by simpa using ⟨⟨hnil, ht⟩, hts⟩, ?_⟩
      rw [delimited_cons]
      rcases heq with heq | heq
      · left
        rw [heq]
      · right
        rw [heq]
        simp
termination_by r.length

/-- A valid href that begins with a slash is a path. -/
theorem isPath_of_valid
    {href : Text}
    (hvalid : xmlIsValidHref href = true)
    (hslash : slashPreceded href = true) :
    IsPath href (tokens '/' href) := by
  simp only [xmlIsValidHref, Bool.not_eq_true', Bool.or_eq_false_iff] at hvalid
  have hdouble : ∀ j, ¬ ['/', '/'] <+: href.drop j :=
    not_prefix_drop_of_find_none (Option.isSome_eq_false_iff.mp hvalid.2 |> Option.isNone_iff_eq_none.mp)
  obtain ⟨r, rfl⟩ : ∃ r, href = '/' :: r := by
    cases href with
    | nil => cases hslash
    | cons c r =>
        simp only [slashPreceded, List.head?_cons, Option.some.injEq, decide_eq_true_eq] at hslash
        exact ⟨r, by rw [hslash]⟩
  obtain ⟨ts, hts, heq⟩ := exists_delimited r hdouble
  have hne : ts ≠ [] := by
    rintro rfl
    rcases heq with heq | heq
    · cases heq
    · rw [heq] at hvalid
      simp [delimited] at hvalid
  have hpath : IsPath ('/' :: r) ts := ⟨hts, hne, heq⟩
  rw [hpath.tokens]
  exact hpath

end Paths

end Obix
