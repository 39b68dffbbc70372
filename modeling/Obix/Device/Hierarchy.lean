import Obix.Device.Links

/-!
# The hierarchy of devices

The parent of a device ought to be the registered device with the longest href that is a
proper prefix of its own.  This holds as long as no device is signed up above another one
(`Reachable.hierarchy`): the devices below a new device keep the parent they had.
-/

namespace Obix
namespace Devices

open CString

section Root

/-- The tokens of the href of the device root. -/
def rootTokens : List Text := ["obix".toList, "deviceRoot".toList]

theorem isPath_deviceRootHref : IsPath deviceRootHref rootTokens where
  isToken := by
    intro t ht
    simp only [rootTokens, List.mem_cons, List.not_mem_nil, or_false] at ht
    rcases ht with rfl | rfl <;> exact ⟨by decide, by decide⟩
  ne_nil := by decide
  eq := .inr (by decide +kernel)

variable {href : Text} {ts : List Text}

theorem isDeviceRootHref_iff
    (h : IsPath href ts) :
    isDeviceRootHref href = true ↔ ts = rootTokens :=
  h.isStrIdentical_iff isPath_deviceRootHref

theorem delimited_rootTokens (us : List Text) :
    delimited '/' (rootTokens ++ us) = trimSlash deviceRootHref ++ delimited '/' us := by
  have hroot : delimited '/' rootTokens = trimSlash deviceRootHref := by decide +kernel
  rw [← hroot, delimited, delimited, delimited, List.flatMap_append]

theorem isGivenType_delimited
    (h : rootTokens <+: ts) :
    isGivenType (delimited '/' ts) = true := by
  obtain ⟨us, rfl⟩ := h
  rw [isGivenType, delimited_rootTokens, List.drop_left]
  simp only [List.isPrefixOf_iff_prefix, Bool.and_eq_true, List.prefix_append, true_and]
  cases us with
  | nil => rfl
  | cons u us => simp [delimited_cons]

/-- A valid href of the Device subsystem is a path below the device root. -/
theorem isPath_of_isGivenType
    (hvalid : xmlIsValidHref href = true)
    (htype : isGivenType href = true) :
    ∃ ts, IsPath href ts ∧ rootTokens <+: ts := by
  simp only [isGivenType, Bool.and_eq_true, List.isPrefixOf_iff_prefix] at htype
  obtain ⟨⟨x, rfl⟩, hnext⟩ := htype
  rw [List.drop_left] at hnext
  refine ⟨_, isPath_of_valid hvalid rfl, ?_⟩
  cases x with
  | nil => exact ⟨[], by decide +kernel⟩
  | cons c y =>
      obtain rfl : c = '/' := by simpa using hnext
      exact ⟨tokens '/' y, rfl⟩

end Root

/-- A href is above another one: its tokens are a proper beginning of those of the
other. -/
def IsAbove (a b : Text) : Prop :=
  tokens '/' a <+: tokens '/' b ∧ tokens '/' a ≠ tokens '/' b

/-- A device whose href is above another one, and no registered device is in between. -/
def NearestAbove (s : Registry) (e : ObixDev) (href : Text) : Prop :=
  IsAbove e.href href ∧ ∀ j f, s.heap j = some f → IsAbove f.href href →
    tokens '/' f.href <+: tokens '/' e.href

/-- The devices of a registry can be found by their hrefs. -/
structure Indexed (s : Registry) : Prop where
  path : ∀ i dev, s.heap i = some dev → ∃ ts, IsPath dev.href ts ∧ rootTokens <+: ts
  unique : ∀ i j dev dev', s.heap i = some dev → s.heap j = some dev' →
    isStrIdentical dev.href dev'.href = true → i = j
  known : ∀ i dev, s.heap i = some dev → i ≠ deviceRoot → i ∈ s.tab.items

/-- The devices of a registry are arranged by their hrefs. -/
structure Hierarchy (s : Registry) : Prop where
  path : ∀ i dev, s.heap i = some dev → ∃ ts, IsPath dev.href ts ∧ rootTokens <+: ts
  unique : ∀ i j dev dev', s.heap i = some dev → s.heap j = some dev' →
    isStrIdentical dev.href dev'.href = true → i = j
  known : ∀ i dev, s.heap i = some dev → i ≠ deviceRoot → i ∈ s.tab.items
  nearest : ∀ i dev p e, s.heap i = some dev → dev.parent = some p → s.heap p = some e →
    NearestAbove s e dev.href

theorem Hierarchy.indexed
    {s : Registry}
    (hh : Hierarchy s) :
    Indexed s :=
  ⟨hh.path, hh.unique, hh.known⟩

section Search

variable {s : Registry} {href : Text} {ts : List Text} {i : Nat} {dev : ObixDev}

theorem Indexed.eq_of_tokens
    (hh : Indexed s)
    {j : Nat} {dev' : ObixDev}
    (hi : s.heap i = some dev)
    (hj : s.heap j = some dev')
    (h : tokens '/' dev.href = tokens '/' dev'.href) :
    i = j := by
  obtain ⟨us, hus, -⟩ := hh.path i dev hi
  obtain ⟨vs, hvs, -⟩ := hh.path j dev' hj
  rw [hus.tokens, hvs.tokens] at h
  exact hh.unique i j dev dev' hi hj ((hus.isStrIdentical_iff hvs).mpr h)

/-- A device that is found has the tokens of the href. -/
theorem Indexed.tokens_of_search
    (hs : Linked s)
    (hh : Indexed s)
    (hpath : IsPath href ts)
    (h : (s.deviceSearch href).1 = some i) :
    ∃ dev, s.heap i = some dev ∧ tokens '/' dev.href = ts := by
  obtain ⟨-, dev, hdev, hid, -⟩ :=
    hs.deviceSearch (Prod.ext h rfl : s.deviceSearch href = (some i, _))
  obtain ⟨us, hus, -⟩ := hh.path i dev hdev
  rw [hus.isStrIdentical_iff hpath] at hid
  exact ⟨dev, hdev, hid ▸ hus.tokens⟩

/-- A registered device is found. -/
theorem Indexed.search_of_identical
    (hs : Linked s)
    (hh : Indexed s)
    (htype : isGivenType href = true)
    (hdev : s.heap i = some dev)
    (hid : isStrIdentical href dev.href = true) :
    (s.deviceSearch href).1 = some i := by
  -- it is enough that something is found
  suffices hfound : (s.deviceSearch href).1 ≠ none by
    obtain ⟨j, hj⟩ := Option.ne_none_iff_exists'.mp hfound
    obtain ⟨-, dev', hdev', hid', -⟩ :=
      hs.deviceSearch (Prod.ext hj rfl : s.deviceSearch href = (some j, _))
    simp only [isStrIdentical, decide_eq_true_eq] at hid hid'
    rw [hj, hh.unique j i dev' dev hdev' hdev (by simp [isStrIdentical, hid', hid])]
  unfold Registry.deviceSearch
  rw [htype, if_neg (by decide)]
  split
  · simp
  · rename_i hnotRoot
    split
    · simp
    · split
      · rename_i hmiss
        intro _
        have hi : i ≠ deviceRoot := by
          rintro rfl
          obtain ⟨root, hr, -, hhref, -⟩ := hs.root
          obtain rfl := Option.some.inj (hdev.symm.trans hr)
          rw [hhref] at hid
          exact hnotRoot hid
        have hdiff := HashTable.not_identical_of_search deviceComputeHash_congr hs.compareStr
          hs.placed hmiss i (hh.known i dev hdev hi)
        rw [Registry.keyOf_of_heap hdev, hid] at hdiff
        cases hdiff
      · simp

theorem Indexed.search_of_tokens
    (hs : Linked s)
    (hh : Indexed s)
    (hts : ∀ t ∈ ts, IsToken '/' t)
    (hroot : rootTokens <+: ts)
    (hdev : s.heap i = some dev)
    (htokens : tokens '/' dev.href = ts) :
    (s.deviceSearch (delimited '/' ts)).1 = some i := by
  have hne : ts ≠ [] := by
    rintro rfl
    exact absurd hroot (by decide +kernel)
  obtain ⟨us, hus, -⟩ := hh.path i dev hdev
  obtain rfl : us = ts := hus.tokens.symm.trans htokens
  exact hh.search_of_identical hs (isGivenType_delimited hroot) hdev
    (((isPath_delimited hts hne).isStrIdentical_iff hus).mpr rfl)

/-- The loop of `device_search_parent` finds the device with the longest href. -/
theorem Indexed.searchUp
    (hs : Linked s)
    (hh : Indexed s)
    (n : Nat)
    (hts : ∀ t ∈ ts, IsToken '/' t)
    (hroot : rootTokens <+: ts)
    (hn : ts.length ≤ n) :
    ∃ i dev, (Registry.searchUp n (delimited '/' ts) s).1 = some i ∧ s.heap i = some dev ∧
      tokens '/' dev.href <+: ts ∧ ∀ j f, s.heap j = some f → tokens '/' f.href <+: ts →
        tokens '/' f.href <+: tokens '/' dev.href := by
  have hne : ts ≠ [] := by
    rintro rfl
    exact absurd hroot (by decide +kernel)
  induction n generalizing ts with
  | zero =>
      have := List.length_pos_iff.mpr hne
      omega
  | succ n ih =>
      unfold Registry.searchUp
      split
      · rename_i i t hsearch
        have hfst : (s.deviceSearch (delimited '/' ts)).1 = some i := by rw [hsearch]
        obtain ⟨dev, hdev, htokens⟩ := hh.tokens_of_search hs (isPath_delimited hts hne) hfst
        exact ⟨i, dev, rfl, hdev, by rw [htokens], fun j f _ hf => by rwa [htokens]⟩
      · rename_i t hsearch
        obtain rfl := deviceSearch_none hsearch
        have hmiss : ∀ j f, t.heap j = some f → tokens '/' f.href ≠ ts := by
          intro j f hf heq
          have hfound := hh.search_of_tokens hs hts hroot hf heq
          rw [hsearch] at hfound
          cases hfound
        -- the device root is registered, so that there are tokens behind those of the root
        have hlong : ts ≠ rootTokens := by
          obtain ⟨root, hr, -, hhref, -⟩ := hs.root
          intro heq
          exact hmiss _ root hr (by rw [hhref, isPath_deviceRootHref.tokens, heq])
        obtain ⟨us, hus⟩ := hroot
        obtain ⟨vs, v, rfl⟩ : ∃ vs v, us = vs ++ [v] := by
          rcases List.eq_nil_or_concat us with rfl | ⟨vs, v, rfl⟩
          · exact absurd hus.symm (by simpa using hlong)
          · exact ⟨vs, v, by simp⟩
        rw [← List.append_assoc] at hus
        obtain ⟨ws, w, hws⟩ : ∃ ws w, rootTokens ++ vs = ws ++ [w] := by
          rcases List.eq_nil_or_concat (rootTokens ++ vs) with hnil | ⟨ws, w, hws⟩
          · simp [rootTokens] at hnil
          · exact ⟨ws, w, by simpa using hws⟩
        have hsub : ∀ x ∈ rootTokens ++ vs, IsToken '/' x := fun x hx =>
          hts x (hus ▸ List.mem_append_left _ hx)
        have hdirname : dirname (delimited '/' ts) = delimited '/' (rootTokens ++ vs) := by
          have hpath := isPath_delimited hts hne
          rw [← hus, hws] at hpath ⊢
          rw [hpath.dirname]
        obtain ⟨i, dev, hfound, hdev, hpre, hmax⟩ := ih hsub ⟨vs, rfl⟩
          (by rw [← hus] at hn; simp at hn ⊢; omega) (by rw [hws]; simp)
        refine ⟨i, dev, by rw [hdirname]; exact hfound, hdev, ?_, ?_⟩
        · exact hpre.trans (hus ▸ List.prefix_append _ _)
        · intro j f hf hpref
          refine hmax j f hf ?_
          rw [← hus] at hpref hmiss
          exact (List.prefix_concat_iff.mp hpref).resolve_left (hmiss j f hf)

/-- `device_search_parent` finds the nearest device above a href. -/
theorem Indexed.searchParent
    (hs : Linked s)
    (hh : Indexed s)
    (hvalid : xmlIsValidHref href = true)
    {p : Nat} {t : Registry}
    (h : s.deviceSearchParent href = (some p, t)) :
    (∃ ts, IsPath href ts ∧ rootTokens <+: ts) ∧
      ∃ parent, s.heap p = some parent ∧ NearestAbove s parent href := by
  unfold Registry.deviceSearchParent at h
  split at h
  · cases h
  · rename_i hcond
    push Not at hcond
    obtain ⟨ts, hpath, hroot⟩ := isPath_of_isGivenType hvalid (by simpa using hcond.1)
    refine ⟨⟨ts, hpath, hroot⟩, ?_⟩
    obtain ⟨us, rfl⟩ := hroot
    -- the href is not that of the device root
    obtain ⟨vs, v, rfl⟩ : ∃ vs v, us = vs ++ [v] := by
      rcases List.eq_nil_or_concat us with rfl | ⟨vs, v, rfl⟩
      · exact absurd ((isDeviceRootHref_iff hpath).mpr (by simp)) hcond.2
      · exact ⟨vs, v, by simp⟩
    rw [← List.append_assoc] at hpath
    obtain ⟨ws, w, hws⟩ : ∃ ws w, rootTokens ++ vs = ws ++ [w] := by
      rcases List.eq_nil_or_concat (rootTokens ++ vs) with hnil | ⟨ws, w, hws⟩
      · simp [rootTokens] at hnil
      · exact ⟨ws, w, by simpa using hws⟩
    have hdirname : dirname href = delimited '/' (rootTokens ++ vs) := by
      rw [hws] at hpath ⊢
      exact hpath.dirname
    have hlen : (rootTokens ++ vs).length ≤ href.length + 1 := by
      have hle : (delimited '/' (rootTokens ++ vs)).length ≤ href.length := by
        have hsub : delimited '/' (rootTokens ++ vs) <+: delimited '/' (rootTokens ++ vs ++ [v]) := by
          rw [delimited_concat]
          exact List.prefix_append _ _
        rcases hpath.eq with heq | heq
        · rw [heq]
          exact hsub.length_le
        · rw [heq, List.length_append]
          exact Nat.le_add_right_of_le hsub.length_le
      have hcount : (rootTokens ++ vs).length ≤ (delimited '/' (rootTokens ++ vs)).length := by
        generalize rootTokens ++ vs = xs
        induction xs with
        | nil => simp
        | cons x xs ih =>
            rw [delimited_cons]
            simp only [List.length_cons, List.length_append]
            omega
      omega
    obtain ⟨i, parent, hfound, hparent, hpre, hmax⟩ := hh.searchUp hs (href.length + 1)
      (fun x hx => hpath.isToken x (List.mem_append_left _ hx)) ⟨vs, rfl⟩ hlen
    rw [hdirname] at h
    rw [h] at hfound
    obtain rfl : p = i := Option.some.inj hfound
    refine ⟨parent, hparent, ⟨?_, ?_⟩, ?_⟩
    · rw [hpath.tokens]
      exact hpre.trans (List.prefix_append _ _)
    · rw [hpath.tokens]
      intro heq
      have hlt := (heq ▸ hpre).length_le
      simp at hlt
    · rintro j f hf ⟨hpref, hne⟩
      rw [hpath.tokens] at hpref hne
      exact hmax j f hf ((List.prefix_concat_iff.mp hpref).resolve_left hne)

end Search

section Steps

variable {a : AddArgs} {s t : Registry} {p : Nat} {parent child : ObixDev}

/-- The nearest device above a href does not depend on how its tokens are spelled. -/
theorem NearestAbove.congr
    {e : ObixDev} {href href' : Text}
    (h : NearestAbove s e href)
    (htokens : tokens '/' href = tokens '/' href') :
    NearestAbove s e href' := by
  have habove : ∀ x, IsAbove x href ↔ IsAbove x href' := fun x => by
    rw [IsAbove, IsAbove, htokens]
  exact ⟨(habove _).mp h.1, fun j f hf hj => h.2 j f hf ((habove _).mpr hj)⟩

/-- Whoever has the href of a new device, below the nearest device above it, would have been found
among the children of that one. -/
theorem Indexed.not_identical
    (hs : Linked s)
    (hx : Indexed s)
    (hlive : s.heap p = some parent)
    (hnear : NearestAbove s parent a.href)
    (hsingle : childWith s parent a.href = none)
    (hdup : ∀ j f, s.heap j = some f → isStrIdentical f.href a.href = true →
      ∃ q e, f.parent = some q ∧ s.heap q = some e ∧ NearestAbove s e a.href)
    {j : Nat} {f : ObixDev}
    (hf : s.heap j = some f) :
    isStrIdentical a.href f.href = false := by
  by_contra hid
  rw [Bool.not_eq_false, isStrIdentical_comm] at hid
  obtain ⟨q, e, hq, he, hnear'⟩ := hdup j f hf hid
  have hle := hnear.2 q e he hnear'.1
  have hge := hnear'.2 p parent hlive hnear.1
  have htokens : tokens '/' e.href = tokens '/' parent.href :=
    hle.eq_of_length (le_antisymm hle.length_le hge.length_le)
  obtain rfl : q = p := hx.eq_of_tokens he hlive htokens
  have hroot : j ≠ deviceRoot := by
    rintro rfl
    obtain ⟨root, hr, hnone, -⟩ := hs.root
    obtain rfl := Option.some.inj (hf.symm.trans hr)
    rw [hnone] at hq
    cases hq
  obtain ⟨q', e', hq', he', hmem⟩ := hs.parent j f hf hroot
  obtain rfl : q' = q := Option.some.inj (hq'.symm.trans hq)
  obtain rfl := Option.some.inj (he'.symm.trans hlive)
  have hmiss := List.find?_eq_none.mp hsingle f (List.mem_filterMap.mpr ⟨j, hmem, hf⟩)
  exact hmiss hid

/-- Whoever has a href already is below the nearest device above it. -/
theorem Hierarchy.twin
    {href : Text} {k : Nat} {g : ObixDev}
    (hs : Linked s)
    (hh : Hierarchy s)
    (hpath : ∃ ts, IsPath href ts ∧ rootTokens <+: ts)
    (hroot : isDeviceRootHref href = false)
    (hg : s.heap k = some g)
    (hid : isStrIdentical g.href href = true) :
    ∃ q e, g.parent = some q ∧ s.heap q = some e ∧ NearestAbove s e href := by
  have hk : k ≠ deviceRoot := by
    rintro rfl
    obtain ⟨root, hr, -, hhref, -⟩ := hs.root
    obtain rfl := Option.some.inj (hg.symm.trans hr)
    rw [isDeviceRootHref, isStrIdentical_comm, ← hhref, hid] at hroot
    cases hroot
  obtain ⟨q, e, hq, he, -⟩ := hs.parent k g hg hk
  obtain ⟨ts, hts, -⟩ := hpath
  obtain ⟨us, hus, -⟩ := hh.path k g hg
  refine ⟨q, e, hq, he, (hh.nearest k g q e hg hq he).congr ?_⟩
  rw [hus.tokens, hts.tokens, (hus.isStrIdentical_iff hts).mp hid]

/-- No registered device has the href of a new device: its parent would be the same. -/
theorem Hierarchy.not_identical
    (hs : Linked s)
    (hh : Hierarchy s)
    (hpath : ∃ ts, IsPath a.href ts ∧ rootTokens <+: ts)
    (hroot : isDeviceRootHref a.href = false)
    (hlive : s.heap p = some parent)
    (hnear : NearestAbove s parent a.href)
    (hsingle : childWith s parent a.href = none)
    {j : Nat} {f : ObixDev}
    (hf : s.heap j = some f) :
    isStrIdentical a.href f.href = false := by
  exact hh.indexed.not_identical hs hlive hnear hsingle
    (fun _ _ hg hid => hh.twin hs hpath hroot hg hid) hf

/-- A device after another one has been mounted is one from before, with its href and its parent,
or the new one. -/
theorem deviceMount_href
    (hs : Linked s)
    (hlive : s.heap p = some parent)
    (hhref : child.href = a.href)
    {j : Nat} {f : ObixDev}
    (hj : (deviceMount a p parent child s).heap j = some f) :
    (∃ f', s.heap j = some f' ∧ f.href = f'.href ∧ f.parent = f'.parent) ∨
      (j = s.next ∧ f.href = a.href ∧ f.parent = some p) := by
  rcases deviceMount_back hs hlive hj with ⟨f', hf', hf⟩ | ⟨hi, rfl⟩
  · exact .inl ⟨f', hf', by rw [hf], by rw [hf]⟩
  · exact .inr ⟨hi, hhref, rfl⟩

/-- A new device whose href is new. -/
theorem Indexed.mount
    (hs : Linked s)
    (hx : Indexed s)
    (hpath : ∃ ts, IsPath a.href ts ∧ rootTokens <+: ts)
    (hlive : s.heap p = some parent)
    (hhref : child.href = a.href)
    (hidentical : ∀ j f, s.heap j = some f → isStrIdentical a.href f.href = false)
    (disk : Disk) :
    Indexed { deviceMount a p parent child s with disk := disk } := by
  have hback := @deviceMount_href a s p parent child hs hlive hhref
  constructor
  case path =>
    intro j f hj
    rcases hback hj with ⟨f', hf', hhref', -⟩ | ⟨-, hhref', -⟩
    · rw [hhref']
      exact hx.path j f' hf'
    · rw [hhref']
      exact hpath
  case unique =>
    intro j k f g hj hk hid
    rcases hback hj with ⟨f', hf', hfhref, -⟩ | ⟨rfl, hfhref, -⟩ <;>
    rcases hback hk with ⟨g', hg', hghref, -⟩ | ⟨rfl, hghref, -⟩
    · exact hx.unique j k f' g' hf' hg' (by rwa [← hfhref, ← hghref])
    · rw [hfhref, hghref, isStrIdentical_comm, hidentical j f' hf'] at hid
      cases hid
    · rw [hfhref, hghref, hidentical k g' hg'] at hid
      cases hid
    · rfl
  case known =>
    intro j f hj hjroot
    refine (@mem_tab_deviceMount a s p parent child hs j).mpr ?_
    rcases hback hj with ⟨f', hf', -⟩ | ⟨rfl, -⟩
    · exact .inl (hx.known j f' hf' hjroot)
    · refine .inr ⟨rfl, fun k hk => ?_⟩
      obtain ⟨g, hg⟩ := Option.ne_none_iff_exists'.mp (hs.tabLive k hk).2
      rw [hhref, Registry.keyOf_of_heap hg]
      exact hidentical k g hg

/-- A registry with no devices but those from before. -/
theorem Indexed.of_back
    (hx : Indexed s)
    (hback : ∀ j f, t.heap j = some f → ∃ f', s.heap j = some f' ∧ f.href = f'.href)
    (hknown : ∀ j f, t.heap j = some f → j ≠ deviceRoot → j ∈ t.tab.items) :
    Indexed t where
  path := by
    intro j f hj
    obtain ⟨f', hf', hhref⟩ := hback j f hj
    rw [hhref]
    exact hx.path j f' hf'
  unique := by
    intro j k f g hj hk hid
    obtain ⟨f', hf', hfhref⟩ := hback j f hj
    obtain ⟨g', hg', hghref⟩ := hback k g hk
    exact hx.unique j k f' g' hf' hg' (by rwa [← hfhref, ← hghref])
  known := hknown

/-- A device whose href is new is taken back. -/
theorem Indexed.withdraw
    (hs : Linked s)
    (hx : Indexed s)
    (hlive : s.heap p = some parent)
    (hroot : isDeviceRootHref child.href = false)
    (hchildren : child.children = [])
    (hidentical : ∀ j f, s.heap j = some f → isStrIdentical child.href f.href = false)
    (disk : Disk) :
    Indexed (withdrawn a p parent child disk s) := by
  have hheap := @heap_withdrawn a s p parent child hs hlive disk
  refine hx.of_back (fun j f hj => ⟨f, hheap ▸ hj, rfl⟩) fun j f hj hne => ?_
  have hj : s.heap j = some f := hheap ▸ hj
  refine (mem_tab_withdrawn hs hlive hroot hchildren).mpr ⟨hx.known j f hj hne, ?_⟩
  rw [Registry.keyOf_of_heap hj]
  exact hidentical j f hj

/-- A device is signed off. -/
theorem Indexed.signOff
    {i : Nat} {dev : ObixDev}
    (hs : Linked s)
    (hx : Indexed s)
    (hdev : s.heap i = some dev)
    (hne : i ≠ deviceRoot) :
    Indexed (signedOff i dev s) := by
  refine hx.of_back ?_ ?_
  · intro j f hj
    obtain ⟨-, f', hf', rfl⟩ := hs.signedOff_back hdev hne hj
    exact ⟨f', hf', rfl⟩
  · intro j f hj hjroot
    obtain ⟨hji, f', hf', rfl⟩ := hs.signedOff_back hdev hne hj
    refine (mem_tab_signedOff hs).mpr ⟨hx.known j f' hf' hjroot, ?_⟩
    rw [Registry.keyOf_of_heap hf']
    by_contra hid
    exact hji (hx.unique i j dev f' hdev hf' (by simpa using hid)).symm

/-- A new device that is above no other device. -/
theorem Hierarchy.mount
    (hs : Linked s)
    (hh : Hierarchy s)
    (hpath : ∃ ts, IsPath a.href ts ∧ rootTokens <+: ts)
    (hroot : isDeviceRootHref a.href = false)
    (hlive : s.heap p = some parent)
    (hnear : NearestAbove s parent a.href)
    (hsingle : childWith s parent a.href = none)
    (hhref : child.href = a.href)
    (habove : ∀ j f, s.heap j = some f → ¬ IsAbove a.href f.href)
    (disk : Disk) :
    Hierarchy { deviceMount a p parent child s with disk := disk } := by
  have hidentical : ∀ j f, s.heap j = some f → isStrIdentical a.href f.href = false :=
    fun j f hf => hh.not_identical hs hpath hroot hlive hnear hsingle hf
  have hback := @deviceMount_href a s p parent child hs hlive hhref
  have hx := hh.indexed.mount hs hpath hlive hhref hidentical disk
  refine ⟨hx.path, hx.unique, hx.known, ?_⟩
  intro j f q e hj hq he
  obtain ⟨e', he', hehref⟩ : ∃ e', s.heap q = some e' ∧ e.href = e'.href := by
    rcases hback he with ⟨e', he', hehref, -⟩ | ⟨rfl, -⟩
    · exact ⟨e', he', hehref⟩
    · -- nobody has the new device as its parent
      exfalso
      rcases hback hj with ⟨f', hf', -, hpar⟩ | ⟨-, -, hpar⟩
      · obtain ⟨g, hg⟩ := hs.parent_live hf' (hpar ▸ hq)
        rw [hs.fresh s.next le_rfl] at hg
        cases hg
      · rw [hpar] at hq
        rw [Option.some.inj hq, hs.fresh s.next le_rfl] at hlive
        cases hlive
  have hold : NearestAbove s e' f.href := by
    rcases hback hj with ⟨f', hf', hfhref, hpar⟩ | ⟨-, hfhref, hpar⟩
    · rw [hfhref]
      exact hh.nearest j f' q e' hf' (hpar ▸ hq) he'
    · obtain rfl : p = q := Option.some.inj (hpar.symm.trans hq)
      obtain rfl := Option.some.inj (hlive.symm.trans he')
      rwa [hfhref]
  refine ⟨by rw [hehref]; exact hold.1, fun k g hk habove' => ?_⟩
  rw [hehref]
  rcases hback hk with ⟨g', hg', hghref, -⟩ | ⟨-, hghref, -⟩
  · rw [hghref] at habove' ⊢
    exact hold.2 k g' hg' habove'
  · -- the new device is above nobody
    rw [hghref] at habove'
    rcases hback hj with ⟨f', hf', hfhref, -⟩ | ⟨-, hfhref, -⟩
    · exact absurd (hfhref ▸ habove') (habove j f' hf')
    · exact absurd (by rw [hfhref]) habove'.2

/-- A registry with no devices but those from before. -/
theorem Hierarchy.of_back
    (hh : Hierarchy s)
    (hx : Indexed t)
    (hback : ∀ j f, t.heap j = some f →
      ∃ f', s.heap j = some f' ∧ f.href = f'.href ∧ f.parent = f'.parent) :
    Hierarchy t := by
  refine ⟨hx.path, hx.unique, hx.known, ?_⟩
  intro j f q e hj hq he
  obtain ⟨f', hf', hfhref, hpar⟩ := hback j f hj
  obtain ⟨e', he', hehref, -⟩ := hback q e he
  obtain ⟨habove, hmax⟩ := hh.nearest j f' q e' hf' (hpar ▸ hq) he'
  rw [NearestAbove, hfhref, hehref]
  refine ⟨habove, fun k g hk hg => ?_⟩
  obtain ⟨g', hg', hghref, -⟩ := hback k g hk
  rw [hghref] at hg ⊢
  exact hmax k g' hg' hg

/-- A registry with the same devices. -/
theorem Hierarchy.of_heap
    (hh : Hierarchy s)
    (hheap : t.heap = s.heap)
    (htab : t.tab = s.tab) :
    Hierarchy t := by
  refine hh.of_back ?_ fun j f hj => ⟨f, hheap ▸ hj, rfl, rfl⟩
  exact hh.indexed.of_back (fun j f hj => ⟨f, hheap ▸ hj, rfl⟩) fun j f hj hne =>
    htab ▸ hh.known j f (hheap ▸ hj) hne

/-- A sign-up that is valid and above no registered device. -/
theorem Hierarchy.deviceAdd
    {e : ErrCode}
    (hs : Linked s)
    (hh : Hierarchy s)
    (hvalid : xmlIsValidHref a.href = true)
    (habove : ∀ j f, s.heap j = some f → ¬ IsAbove a.href f.href)
    (h : deviceAdd a s = some (e, t)) :
    Hierarchy t := by
  rcases deviceAdd_cases h with ⟨-, -, rfl⟩ | ⟨p, u, e', t', hsearch, hout, rfl, -⟩
  · exact hh
  · obtain ⟨hu, hroot, -⟩ := hs.deviceSearchParent hsearch
    obtain ⟨hpath, parent, hlive, hnear⟩ := hh.indexed.searchParent hs hvalid hsearch
    obtain ⟨cache, hcache⟩ := deviceSearchParent_some hsearch
    have hhu : Hierarchy u := by
      subst hcache
      exact hh.of_heap rfl rfl
    have hlive : u.heap p = some parent := by rw [hcache]; exact hlive
    have hnear : NearestAbove u parent a.href := by rw [hcache]; exact hnear
    have habove : ∀ j f, u.heap j = some f → ¬ IsAbove a.href f.href := by rw [hcache]; exact habove
    suffices ht : Hierarchy t' from ht.of_heap rfl rfl
    cases hout with
    | refused => exact hhu
    | added hpass =>
        obtain rfl := Option.some.inj (hlive.symm.trans hpass.live)
        exact hhu.mount hu hpath hroot hlive hnear hpass.single hpass.href.1 habove _
    | @withdrawn parent' child disk e hpass =>
        obtain rfl := Option.some.inj (hlive.symm.trans hpass.live)
        obtain ⟨hhref, hchildren⟩ := hpass.href
        have hheap := @heap_withdrawn a u p parent child hu hlive disk
        have hx : Indexed (withdrawn a p parent child disk u) :=
          hhu.indexed.withdraw hu hlive (hhref ▸ hroot) hchildren (fun j f hj =>
            hhref ▸ hhu.not_identical hu hpath hroot hlive hnear hpass.single hj) disk
        exact hhu.of_back hx fun j f hj => ⟨f, hheap ▸ hj, rfl, rfl⟩

/-- Every sign-off keeps the hierarchy. -/
theorem Hierarchy.deviceDel
    {e : ErrCode} {href requesterId : Text}
    (hs : Linked s)
    (hh : Hierarchy s)
    (hroot : isDeviceRootHref href = false)
    (h : deviceDel Meanwhile.idle href requesterId s = some (e, t)) :
    Hierarchy t := by
  obtain ⟨u, hu, hheap, htab, -, -, hout⟩ := hs.deviceDel_cases hroot h
  have hhu : Hierarchy u := hh.of_heap hheap htab
  rcases hout with ⟨-, rfl⟩ | ⟨i, dev, hne, -, hdev, -, -, rfl⟩
  · exact hhu
  · refine hhu.of_back (hhu.indexed.signOff hu hdev hne) fun j f hj => ?_
    obtain ⟨-, f', hf', rfl⟩ := hu.signedOff_back hdev hne hj
    exact ⟨f', hf', rfl, rfl⟩

end Steps

section Runs

variable {s t : Registry}

/-- At the start the device root is the only device. -/
theorem heap_start
    {resdir : Text} {tabSize cacheSize : Nat} {dom : Xml} {disk : Disk}
    (h : devicesStart resdir tabSize cacheSize dom disk = some s)
    {i : Nat} {dev : ObixDev}
    (hi : s.heap i = some dev) :
    i = deviceRoot ∧ dev.href = deviceRootHref ∧ dev.parent = none := by
  have hs := linked_start h
  have hroot : i = deviceRoot := by
    obtain ⟨dir, -, h⟩ := Option.bind_eq_some_iff.mp h
    split at h
    · cases h
    · obtain ⟨root, -, rfl⟩ := Option.map_eq_some_iff.mp h
      by_contra hne
      simp [hne] at hi
  obtain ⟨root, hr, hparent, hhref, -⟩ := hs.root
  rw [hroot, hr] at hi
  obtain rfl := Option.some.inj hi
  exact ⟨hroot, hhref, hparent⟩

theorem hierarchy_start
    {resdir : Text} {tabSize cacheSize : Nat} {dom : Xml} {disk : Disk}
    (h : devicesStart resdir tabSize cacheSize dom disk = some s) :
    Hierarchy s := by
  constructor
  case path =>
    intro i dev hi
    rw [(heap_start h hi).2.1]
    exact ⟨rootTokens, isPath_deviceRootHref, List.prefix_rfl⟩
  case unique =>
    intro i j dev dev' hi hj _
    rw [(heap_start h hi).1, (heap_start h hj).1]
  case known =>
    intro i dev hi hne
    exact absurd (heap_start h hi).1 hne
  case nearest =>
    intro i dev p e hi hp _
    rw [(heap_start h hi).2.2] at hp
    cases hp

/-- A request that signs up no device above another one, and only contracts with a name. -/
def NotAbove (r : Request) (s : Registry) : Prop :=
  match r with
  | .signUp _ (some input) _ =>
      input.getProp attrName ≠ none ∧
        ∀ href, input.getProp attrHref = some href →
          ∀ j f, s.heap j = some f → ¬ IsAbove href f.href
  | .signUp _ none _ => True
  | .signOff _ _ => True

theorem Reachable.hierarchy
    (hs : Reachable NotAbove s) :
    Hierarchy s := by
  induction hs with
  | start h => exact hierarchy_start h
  | @step s t r e hs hok h ih =>
      have hlinked := hs.linked
      cases r with
      | signUp requesterId input faults =>
          rcases withHref_cases h with rfl | ⟨id, x, href, -, rfl, hhref, hvalid, -, hadd⟩
          · exact ih
          · exact ih.deviceAdd hlinked hvalid (hok.2 href hhref) hadd
      | signOff requesterId input =>
          rcases withHref_cases h with rfl | ⟨id, x, href, -, -, -, -, hroot, hdel⟩
          · exact ih
          · exact ih.deviceDel hlinked hroot hdel

/-- As long as no device is signed up above another one, hrefs are unique, the hash table
has exactly the devices below the device root, and the parent of a device is the nearest
device above it, with the device once among its children. -/
theorem registry_arranged
    (hs : Reachable NotAbove s) :
    (∀ i j dev dev', s.heap i = some dev → s.heap j = some dev' →
      isStrIdentical dev.href dev'.href = true → i = j) ∧
    (s.tab.items.Nodup ∧ ∀ i, i ∈ s.tab.items ↔ i ≠ deviceRoot ∧ s.heap i ≠ none) ∧
    ∀ i dev, s.heap i = some dev → i ≠ deviceRoot →
      ∃ p e, dev.parent = some p ∧ s.heap p = some e ∧ NearestAbove s e dev.href ∧
        e.children.count i = 1 := by
  have hl := hs.linked
  have hh := hs.hierarchy
  refine ⟨hh.unique, ⟨hl.placed.nodup, fun i => ⟨hl.tabLive i, ?_⟩⟩, ?_⟩
  · rintro ⟨hne, hlive⟩
    obtain ⟨dev, hdev⟩ := Option.ne_none_iff_exists'.mp hlive
    exact hh.known i dev hdev hne
  · intro i dev hi hne
    obtain ⟨p, e, hp, he, hmem⟩ := hl.parent i dev hi hne
    exact ⟨p, e, hp, he, hh.nearest i dev p e hi hp he,
      List.count_eq_one_of_mem (hl.nodup p e he) hmem⟩

/-- A device is signed up below a placeholder of the device root. -/
theorem registry_arranged_signedUp :
    ∃ s dev p e, sampleStart.bind (runAll [sampleSignUp "a" "test/a"]) = some s ∧
      s.heap 1 = some dev ∧ dev.parent = some p ∧ s.heap p = some e ∧
      NearestAbove s e dev.href ∧ e.children.count 1 = 1 := by
  have heval : ((sampleStart.bind (runAll [sampleSignUp "a" "test/a"])).bind fun s =>
      s.heap 1).isSome = true := by
    decide +kernel
  obtain ⟨dev, hdev⟩ := Option.isSome_iff_exists.mp heval
  obtain ⟨s, hs, hdev⟩ := Option.bind_eq_some_iff.mp hdev
  obtain ⟨s₀, hs₀, hrun⟩ := Option.bind_eq_some_iff.mp hs
  obtain ⟨s₁, hstep, hrest⟩ := Option.bind_eq_some_iff.mp hrun
  obtain ⟨⟨e, s₁⟩, hret, rfl⟩ := Option.map_eq_some_iff.mp hstep
  obtain rfl : s₁ = s := Option.some.inj hrest
  have hok : NotAbove (sampleSignUp "a" "test/a") s₀ := by
    refine ⟨by decide +kernel, fun href hhref j f hf habove => ?_⟩
    have hhref : href = "/obix/deviceRoot/test/a".toList := by
      rw [← Option.some.inj hhref]
      decide +kernel
    rw [(heap_start hs₀ hf).2.1, hhref] at habove
    exact absurd habove.1 (by decide +kernel)
  obtain ⟨p, f, hp, hf, hnear, hcount⟩ :=
    (registry_arranged (.step (.start hs₀) hok hret)).2.2 1 dev hdev (by decide)
  exact ⟨s₁, dev, p, f, hs, hdev, hp, hf, hnear, hcount⟩

/-- Once a device is signed up above another one, that other one can be signed up twice,
and the hash table does not have its second descriptor. -/
theorem signUp_above_twice :
    ∃ s i j dev dev', Reachable (fun _ _ => True) s ∧ i ≠ j ∧ s.heap i = some dev ∧
      s.heap j = some dev' ∧ isStrIdentical dev.href dev'.href = true ∧ j ∉ s.tab.items := by
  have heval : (sampleStart.bind (runAll [sampleSignUp "a" "test/a", sampleSignUp "t" "test",
      sampleSignUp "a" "test/a"])).map (fun s =>
        ((s.heap 1).map ObixDev.href, (s.heap 3).map ObixDev.href, s.tab.items)) =
      some (some "/obix/deviceRoot/test/a".toList, some "/obix/deviceRoot/test/a".toList, [1, 2]) := by
    decide +kernel
  obtain ⟨s, hs, heq⟩ := Option.map_eq_some_iff.mp heval
  obtain ⟨s₀, hs₀, hrun⟩ := Option.bind_eq_some_iff.mp hs
  simp only [Prod.mk.injEq] at heq
  obtain ⟨h1, h3, htab⟩ := heq
  obtain ⟨dev, hdev, hhref⟩ := Option.map_eq_some_iff.mp h1
  obtain ⟨dev', hdev', hhref'⟩ := Option.map_eq_some_iff.mp h3
  refine ⟨s, 1, 3, dev, dev', reachable_runAll (.start hs₀) hrun, by decide, hdev, hdev', ?_, ?_⟩
  · rw [hhref, hhref']
    simp [isStrIdentical]
  · rw [htab]
    decide

end Runs

end Devices
end Obix
