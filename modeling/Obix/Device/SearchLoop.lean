import Mathlib.Data.List.TakeWhile
import Obix.Device.Hierarchy

/-!
# The loop of `device_search_parent`

`device_search_parent` takes `dirname` of a href again and again until a device is found.
`dirname` never gives a null pointer, so that this is the only way out of the loop.  A href with
a further component behind the device root leads to the spelling `/obix/deviceRoot`, whatever
slashes it has.  A href with nothing but slashes there jumps over it and stays at `/`
(`search_parent_ends_iff`).
-/

namespace Obix
namespace Devices

open CString

/-- The href of the device root without its slash. -/
def bareRoot : Text := trimSlash deviceRootHref

theorem slashFollowed_bareRoot : slashFollowed bareRoot = false := by decide

/-- What follows a device in a href with a further component. -/
structure Further (x : Text) : Prop where
  head : x.head? = some '/'
  component : ∃ c ∈ x, c ≠ '/'

section Dirname

variable {x : Text}

/-- There is no slash at the end to be taken away. -/
theorem dropWhile_reverse
    {d : Text}
    (h : slashFollowed d = false) :
    d.reverse.dropWhile (· = '/') = d.reverse := by
  rcases List.eq_nil_or_concat d with rfl | ⟨d, c, rfl⟩
  · rfl
  · have hc : ¬ c = '/' := by
      simpa [slashFollowed] using h
    rw [List.concat_eq_append, List.reverse_append, List.reverse_singleton, List.singleton_append,
      List.dropWhile_cons_of_neg (by simpa using hc)]

/-- The rest of a reversed list still ends with the same character. -/
theorem getLast?_dropWhile
    {p : Char → Bool} {r : Text} {c : Char}
    (h : r.getLast? = some c)
    (hne : r.dropWhile p ≠ []) :
    (r.dropWhile p).getLast? = some c := by
  rw [← List.takeWhile_append_dropWhile (p := p) (l := r), List.getLast?_append_of_ne_nil _ hne] at h
  exact h

theorem dropWhile_ne_nil
    {p : Char → Bool} {r : Text} {c : Char}
    (hc : c ∈ r)
    (hp : p c = false) :
    r.dropWhile p ≠ [] := by
  intro hnil
  have hall := List.dropWhile_eq_nil_iff.mp hnil c hc
  rw [hp] at hall
  cases hall

theorem dropWhile_append_left
    {p : Char → Bool} {r s : Text}
    (h : r.dropWhile p ≠ []) :
    (r ++ s).dropWhile p = r.dropWhile p ++ s := by
  rw [List.dropWhile_append, if_neg (by simpa using h)]

/-- `dirname` takes the last component and the slashes around it. -/
theorem dirname_further
    {d : Text}
    (hd : d ≠ [])
    (hfollowed : slashFollowed d = false)
    (h : Further x) :
    ∃ x' y, x = x' ++ y ∧ Further y ∧ dirname (d ++ x) = d ++ x' ∧
      (x' = [] ∨ Further x' ∧ slashFollowed x' = false) := by
  obtain ⟨c, hc, hslash⟩ := h.component
  have hlast : x.reverse.getLast? = some '/' := by rw [List.getLast?_reverse, h.head]
  -- the slashes at the end
  have hy : x.reverse.dropWhile (· = '/') ≠ [] :=
    dropWhile_ne_nil (List.mem_reverse.mpr hc) (by simpa using hslash)
  have hylast := getLast?_dropWhile hlast hy
  have hxsplit := List.takeWhile_append_dropWhile (p := fun c => decide (c = '/')) (l := x.reverse)
  have hynot := List.head?_dropWhile_not (fun c => decide (c = '/')) x.reverse
  generalize hydef : x.reverse.dropWhile (· = '/') = y at hy hylast hxsplit hynot
  -- the last component
  have hz : y.dropWhile (· ≠ '/') ≠ [] :=
    dropWhile_ne_nil (List.mem_of_getLast? hylast) (by simp)
  have hzlast := getLast?_dropWhile hylast hz
  have hysplit := List.takeWhile_append_dropWhile (p := fun c => decide (c ≠ '/')) (l := y)
  have hznot := List.head?_dropWhile_not (fun c => decide (c ≠ '/')) y
  generalize hzdef : y.dropWhile (· ≠ '/') = z at hz hzlast hysplit hznot
  have hdir : dirname (d ++ x) =
      if (z ++ d.reverse).dropWhile (· = '/') = [] then ['/']
      else ((z ++ d.reverse).dropWhile (· = '/')).reverse := by
    unfold dirname
    dsimp only
    rw [List.reverse_append, dropWhile_append_left (by rw [hydef]; exact hy), hydef,
      if_neg (by simp [hy]), dropWhile_append_left (by rw [hzdef]; exact hz), hzdef,
      if_neg (by simp [hz])]
  -- the slashes before it
  by_cases hw : z.dropWhile (· = '/') = []
  · refine ⟨[], x, rfl, h, ?_, .inl rfl⟩
    have hdrop : (z ++ d.reverse).dropWhile (· = '/') = d.reverse := by
      rw [List.dropWhile_append, if_pos (by simp [hw]), dropWhile_reverse hfollowed]
    rw [hdir, hdrop, if_neg (by simpa using hd), List.reverse_reverse, List.append_nil]
  · have hwlast := getLast?_dropWhile hzlast hw
    have hzsplit := List.takeWhile_append_dropWhile (p := fun c => decide (c = '/')) (l := z)
    obtain ⟨b, y', rfl⟩ := List.exists_cons_of_ne_nil hy
    obtain ⟨b', z', rfl⟩ := List.exists_cons_of_ne_nil hz
    have hb : b ≠ '/' := by simpa using hynot
    obtain rfl : b' = '/' := by simpa using hznot
    obtain ⟨e, w, hew⟩ := List.exists_cons_of_ne_nil hw
    have he : e ≠ '/' := by
      have hnot := List.head?_dropWhile_not (fun c => decide (c = '/')) ('/' :: z')
      rw [hew] at hnot
      simpa using hnot
    rw [hew] at hwlast hzsplit
    refine ⟨(e :: w).reverse, (x.reverse.takeWhile (· = '/') ++ (b :: y').takeWhile (· ≠ '/') ++
      ('/' :: z').takeWhile (· = '/')).reverse, ?_, ⟨?_, b, ?_, hb⟩, ?_, .inr ⟨⟨?_, e, ?_, he⟩, ?_⟩⟩
    · rw [← List.reverse_append, List.append_assoc, hzsplit, List.append_assoc, hysplit, hxsplit,
        List.reverse_reverse]
    · rw [List.head?_reverse, List.getLast?_append_of_ne_nil _ (by simp)]
      have hall : ∀ c ∈ ('/' :: z').takeWhile (· = '/'), c = '/' := by
        intro c hc
        simpa using List.mem_takeWhile_imp hc
      obtain ⟨c, hc⟩ := Option.ne_none_iff_exists'.mp (by simp :
        (('/' :: z').takeWhile (· = '/')).getLast? ≠ none)
      rw [hc, hall c (List.mem_of_getLast? hc)]
    · simp [hb]
    · rw [hdir, dropWhile_append_left hw, hew, if_neg (by simp), List.reverse_append,
        List.reverse_reverse]
    · rw [List.head?_reverse, hwlast]
    · simp
    · simpa [slashFollowed] using he

theorem Further.ne_nil
    (h : Further x) :
    x ≠ [] := by
  rintro rfl
  cases h.head

end Dirname

section Loop

variable {s : Registry} {href x : Text}

/-- The loop ends at the device root at the latest. -/
theorem searchUp_ends
    (s : Registry)
    (x : Text)
    (h : x = [] ∨ Further x) :
    ∃ n i t, Registry.searchUp n (bareRoot ++ x) s = (some i, t) := by
  by_cases hfound : ∃ i t, s.deviceSearch (bareRoot ++ x) = (some i, t)
  · obtain ⟨i, t, hi⟩ := hfound
    exact ⟨1, i, t, by rw [Registry.searchUp, hi]⟩
  · have hmiss : s.deviceSearch (bareRoot ++ x) = (none, s) := by
      cases hsearch : s.deviceSearch (bareRoot ++ x) with
      | mk r t =>
          cases r with
          | some i => exact absurd ⟨i, t, hsearch⟩ hfound
          | none => rw [deviceSearch_none hsearch]
    rcases h with rfl | h
    · -- the device root itself is found
      have hroot : s.deviceSearch (bareRoot ++ []) = (some deviceRoot, s.get deviceRoot) := by
        rw [Registry.deviceSearch, if_neg (by decide +kernel), if_pos (by decide +kernel)]
      rw [hroot] at hmiss
      cases hmiss
    · obtain ⟨x', y, hxy, hy, hdir, hx'⟩ := dirname_further (by decide) slashFollowed_bareRoot h
      have hlen : x'.length < x.length := by
        have := List.length_pos_iff.mpr hy.ne_nil
        rw [hxy, List.length_append]
        omega
      obtain ⟨n, i, t, hn⟩ := searchUp_ends s x' (hx'.imp id And.left)
      exact ⟨n + 1, i, t, by rw [Registry.searchUp, hmiss]; simpa only [hdir] using hn⟩
termination_by x.length

/-- Above the device root nothing is found, and `dirname` comes to stand at the slash. -/
theorem searchUp_above
    (n : Nat)
    (h : href = "/obix".toList ∨ href = ['/']) :
    Registry.searchUp n href s = (none, s) := by
  induction n generalizing href with
  | zero => rfl
  | succ n ih =>
      have hmiss : s.deviceSearch href = (none, s) := by
        rcases h with rfl | rfl <;>
        rw [Registry.deviceSearch, if_pos (by decide +kernel)]
      have hdir : dirname href = "/obix".toList ∨ dirname href = ['/'] := by
        rcases h with rfl | rfl
        · exact .inr (by decide +kernel)
        · exact .inr (by decide +kernel)
      rw [Registry.searchUp, hmiss]
      exact ih hdir

theorem dirname_slashes (k : Nat) :
    dirname (bareRoot ++ List.replicate k '/') = "/obix".toList := by
  have hdrop : (bareRoot ++ List.replicate k '/').reverse.dropWhile (· = '/') =
      bareRoot.reverse := by
    rw [List.reverse_append, List.reverse_replicate, List.dropWhile_append,
      List.dropWhile_eq_nil_iff.mpr (by simp), if_pos (by simp),
      dropWhile_reverse slashFollowed_bareRoot]
  unfold dirname
  rw [hdrop, if_neg (by decide)]
  decide +kernel

/-- `device_search_parent` comes back: it refuses the href, or its loop finds a device after
some number of rounds. -/
def SearchEnds (s : Registry) (href : Text) : Prop :=
  isGivenType href = false ∨ isDeviceRootHref href = true ∨
    ∃ n i t, Registry.searchUp n (dirname href) s = (some i, t)

/-- A href with a component behind the device root, or with at most one slash there. -/
theorem isGivenType_cases
    (h : isGivenType href = true) :
    (∃ k, href = bareRoot ++ List.replicate k '/') ∨ ∃ x, href = bareRoot ++ x ∧ Further x := by
  simp only [isGivenType, Bool.and_eq_true, List.isPrefixOf_iff_prefix] at h
  obtain ⟨⟨x, rfl⟩, hnext⟩ := h
  rw [List.drop_left] at hnext
  by_cases hall : ∀ c ∈ x, c = '/'
  · exact .inl ⟨x.length, by rw [← List.eq_replicate_of_mem hall]; rfl⟩
  · push Not at hall
    refine .inr ⟨x, rfl, ?_, hall⟩
    obtain ⟨c, hc, -⟩ := hall
    obtain ⟨d, x, rfl⟩ := List.exists_cons_of_ne_nil (List.ne_nil_of_mem hc)
    simpa using hnext

/-- The lookup of a parent ends for every href of the Device subsystem but those that are the
device root with two or more slashes and nothing else behind it. -/
theorem search_parent_ends_iff
    (s : Registry)
    (href : Text)
    (h : isGivenType href = true) :
    SearchEnds s href ↔ ∀ k, href ≠ trimSlash deviceRootHref ++ List.replicate (k + 2) '/' := by
  constructor
  · rintro hends k rfl
    have hdir := dirname_slashes (k + 2)
    rcases hends with hends | hends | ⟨n, i, t, hends⟩
    · rw [h] at hends
      cases hends
    · -- one slash is ignored, the others are not
      have htrim : trimSlash (trimSlash deviceRootHref ++ List.replicate (k + 2) '/') =
          trimSlash deviceRootHref ++ List.replicate (k + 1) '/' := by
        rw [List.replicate_succ', ← List.append_assoc, trimSlash_append_slash]
      simp only [isDeviceRootHref, isStrIdentical, htrim, decide_eq_true_eq] at hends
      simp at hends
    · have hdir : dirname (trimSlash deviceRootHref ++ List.replicate (k + 2) '/') =
          "/obix".toList := hdir
      rw [hdir, searchUp_above n (.inl rfl)] at hends
      cases hends
  · intro hslashes
    rcases isGivenType_cases h with ⟨k, rfl⟩ | ⟨x, rfl, hx⟩
    · right
      left
      rcases k with _ | _ | k
      · decide +kernel
      · decide +kernel
      · exact absurd rfl (hslashes k)
    · obtain ⟨x', y, -, -, hdir, hx'⟩ := dirname_further (by decide) slashFollowed_bareRoot hx
      right
      right
      have hdir : dirname (bareRoot ++ x) = bareRoot ++ x' := hdir
      rw [hdir]
      exact searchUp_ends s x' (hx'.imp id And.left)

/-- A component behind several slashes. -/
theorem search_parent_ends_component :
    ∃ s, sampleStart = some s ∧ isGivenType "/obix/deviceRoot//a//".toList = true ∧
      SearchEnds s "/obix/deviceRoot//a//".toList := by
  obtain ⟨s, hs⟩ := Option.isSome_iff_exists.mp (by decide +kernel : sampleStart.isSome = true)
  refine ⟨s, hs, by decide +kernel, ?_⟩
  refine (search_parent_ends_iff s _ (by decide +kernel)).mpr fun k heq => ?_
  have hmem : 'a' ∈ trimSlash deviceRootHref ++ List.replicate (k + 2) '/' := by
    rw [← heq]
    decide +kernel
  rcases List.mem_append.mp hmem with hmem | hmem
  · exact absurd hmem (by decide +kernel)
  · exact absurd (List.eq_of_mem_replicate hmem) (by decide)

/-- Two slashes behind the device root. -/
theorem search_parent_endless :
    ¬ ∀ (s : Registry) (href : Text), isGivenType href = true → SearchEnds s href := by
  intro hall
  obtain ⟨s, -⟩ := Option.isSome_iff_exists.mp (by decide +kernel : sampleStart.isSome = true)
  rcases hall s "/obix/deviceRoot//".toList (by decide +kernel) with h | h | ⟨n, i, t, h⟩
  · exact absurd h (by decide +kernel)
  · exact absurd h (by decide +kernel)
  · have hdir : dirname "/obix/deviceRoot//".toList = "/obix".toList := by decide +kernel
    rw [hdir, searchUp_above n (.inl rfl)] at h
    cases h

end Loop

end Devices
end Obix
