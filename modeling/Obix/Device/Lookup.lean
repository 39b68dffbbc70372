import Obix.Device.Links
import Obix.Lib.Runs

/-!
# The cache of the device registry is transparent

`device_search` looks into the cache before it searches the hash table.  What the cache holds is
also in the hash table, through all links, unlinks and searches, so that the cache changes
neither the device that is found nor the references (`cache_transparent`).
-/

namespace Obix
namespace Devices

open CString

/-- A change of the directory of devices, or a search. -/
inductive LookupOp
  /-- `__device_link` of a new descriptor. -/
  | link (p : Nat) (child : ObixDev)
  /-- `__device_unlink`. -/
  | unlink (i : Nat)
  | search (href : Text)

namespace Registry

variable (s : Registry)

/-- The href is registered, up to a slash at the end. -/
def registered (href : Text) : Bool :=
  s.tab.items.any fun i => isStrIdentical href (s.keyOf i)

/-- One operation; only hrefs that are not registered are linked and only registered devices
unlinked. -/
def lookup : LookupOp → Option Registry
  | .link p child =>
      if s.registered child.href then none
      else some { s.deviceLink s.next p child with next := s.next + 1 }
  | .unlink i =>
      if i ∈ s.tab.items then (s.heap i).map fun dev => s.deviceUnlink i dev else none
  | .search href => some (s.deviceSearch href).2

/-- `device_search` without the cache. -/
def searchTable (href : Text) : Option Nat :=
  if isGivenType href = false then none
  else if isDeviceRootHref href then some deviceRoot
  else s.tab.search deviceComputeHash s.compareStr href

/-- The hash table is in order, and what is in the cache is in the hash table. -/
structure Mirrored : Prop where
  tabSize : 0 < s.tab.heads.length
  fresh : ∀ i, s.next ≤ i → s.heap i = none
  placed : s.tab.Placed deviceComputeHash s.keyOf
  live : ∀ i ∈ s.tab.items, s.heap i ≠ none
  cached : ∀ href i, some (href, i) ∈ s.cache → i ∈ s.tab.items ∧ s.keyOf i = href

end Registry

section Table

variable {s t : Registry} {href : Text} {i : Nat}

theorem Registry.Mirrored.compareStr
    (h : s.Mirrored)
    (key : Text)
    (i : Nat)
    (hi : i ∈ s.tab.items) :
    s.compareStr key i = isStrIdentical key (s.keyOf i) := by
  obtain ⟨dev, hdev⟩ := Option.ne_none_iff_exists'.mp (h.live i hi)
  rw [Registry.compareStr, Registry.keyOf_of_heap hdev, hdev]
  rfl

/-- A search of the hash table finds the device with the href. -/
theorem Registry.Mirrored.search_tab
    (h : s.Mirrored)
    (hi : i ∈ s.tab.items)
    (hid : isStrIdentical href (s.keyOf i) = true) :
    s.tab.search deviceComputeHash s.compareStr href = some i := by
  cases hsearch : s.tab.search deviceComputeHash s.compareStr href with
  | none =>
      have hnone := HashTable.not_identical_of_search deviceComputeHash_congr h.compareStr
        h.placed hsearch i hi
      rw [hid] at hnone
      cases hnone
  | some j =>
      obtain ⟨hj, hcmp⟩ := HashTable.mem_of_search hsearch
      rw [h.compareStr href j hj] at hcmp
      have hsame : isStrIdentical (s.keyOf j) (s.keyOf i) = true := by
        simp only [isStrIdentical, decide_eq_true_eq] at hid hcmp ⊢
        rw [← hcmp, hid]
      rw [h.placed.eq_of_identical deviceComputeHash_congr hj hi hsame]

/-- The ways `device_search` can go. -/
theorem Registry.Mirrored.deviceSearch
    (h : s.Mirrored)
    (href : Text) :
    (s.deviceSearch href).1 = s.searchTable href ∧
      (∀ j, (s.deviceSearch href).2.refcnt j =
        s.refcnt j + if s.searchTable href = some j then 1 else 0) ∧
      (s.deviceSearch href).2.Mirrored := by
  have hcount : ∀ (r : Registry) (i j : Nat), r.refcnt = s.refcnt →
      (r.get i).refcnt j = s.refcnt j + if some i = some j then 1 else 0 := by
    intro r i j hr
    simp only [Registry.get, hr, Function.update_apply, Option.some.injEq]
    by_cases hij : j = i
    · subst hij
      simp
    · simp [hij, Ne.symm hij]
  unfold Registry.deviceSearch Registry.searchTable
  split
  · exact ⟨rfl, by simp, h⟩
  · split
    · exact ⟨rfl, fun j => hcount s deviceRoot j rfl,
        h.tabSize, h.fresh, h.placed, h.live, h.cached⟩
    · rcases s.cache.search_spec href with ⟨key, item, hfst, hmem, hid, hsub⟩ | ⟨hmiss, -⟩
      · -- what is in the cache is what the hash table has for the href
        obtain ⟨hitem, hkey⟩ := h.cached key item hmem
        have htab := h.search_tab hitem (by rw [isStrIdentical_comm, hkey]; exact hid)
        rcases hsearch : s.cache.search href with ⟨found, cache⟩
        rw [hsearch] at hfst hsub
        simp only at hfst
        subst hfst
        refine ⟨htab.symm, ?_, h.tabSize, h.fresh, h.placed, h.live, ?_⟩
        · rw [htab]
          exact fun j => hcount _ item j rfl
        · intro x j hx
          exact h.cached x j (hsub _ hx)
      · rw [hmiss]
        dsimp only
        cases hsearch : s.tab.search deviceComputeHash s.compareStr href with
        | none => exact ⟨rfl, by simp, h⟩
        | some i =>
            obtain ⟨hitem, -⟩ := HashTable.mem_of_search hsearch
            obtain ⟨dev, hdev⟩ := Option.ne_none_iff_exists'.mp (h.live i hitem)
            refine ⟨rfl, fun j => hcount _ i j rfl, h.tabSize, h.fresh, h.placed, h.live, ?_⟩
            intro x j hx
            have hx : some (x, j) ∈ (s.heap i).elim s.cache fun dev => s.cache.update dev.href i := hx
            rw [hdev] at hx
            rcases Cache.mem_update hx with hx | hx
            · exact h.cached x j hx
            · cases hx
              exact ⟨hitem, Registry.keyOf_of_heap hdev⟩

/-- Only children and parents of descriptors change. -/
theorem Registry.keyOf_modify
    (f : ObixDev → ObixDev)
    (hf : ∀ dev, (f dev).href = dev.href)
    (p j : Nat) :
    (s.modify p f).keyOf j = s.keyOf j := by
  unfold Registry.keyOf Registry.modify
  by_cases hj : j = p
  · subst hj
    cases s.heap j with
    | none => simp
    | some dev => simp [hf]
  · simp [hj]

theorem Registry.heap_modify
    (f : ObixDev → ObixDev)
    (p j : Nat) :
    (s.modify p f).heap j = none ↔ s.heap j = none := by
  unfold Registry.modify
  by_cases hj : j = p
  · subst hj
    simp
  · simp [hj]

theorem Registry.Mirrored.modify
    (h : s.Mirrored)
    (f : ObixDev → ObixDev)
    (hf : ∀ dev, (f dev).href = dev.href)
    (p : Nat) :
    (s.modify p f).Mirrored where
  tabSize := h.tabSize
  fresh := fun i hi => (Registry.heap_modify f p i).mpr (h.fresh i hi)
  placed := h.placed.congr fun i _ => Registry.keyOf_modify f hf p i
  live := fun i hi hnone => h.live i hi ((Registry.heap_modify f p i).mp hnone)
  cached := by
    intro href i hi
    rw [Registry.keyOf_modify f hf]
    exact h.cached href i hi

/-- A descriptor with a new href joins the hash table and the cache. -/
theorem Registry.Mirrored.link
    {p : Nat} {child : ObixDev}
    (h : s.Mirrored)
    (hnew : s.registered child.href = false) :
    Registry.Mirrored { s.deviceLink s.next p child with next := s.next + 1 } := by
  have hnew : ∀ i ∈ s.tab.items, isStrIdentical child.href (s.keyOf i) = false := by
    intro i hi
    simpa using List.any_eq_false.mp hnew i hi
  -- the new descriptor is in the heap, before the children of its parent are changed
  have hbase : Registry.Mirrored { s with
      heap := Function.update s.heap s.next (some { child with parent := some p })
      tab := s.tab.add deviceComputeHash s.compareStr child.href s.next
      cache := s.cache.update child.href s.next
      next := s.next + 1 } := by
    have hne : ∀ i ∈ s.tab.items, i ≠ s.next := by
      rintro i hi rfl
      exact h.live _ hi (h.fresh _ le_rfl)
    have hkey : ∀ i, Registry.keyOf { s with
        heap := Function.update s.heap s.next (some { child with parent := some p })
        tab := s.tab.add deviceComputeHash s.compareStr child.href s.next
        cache := s.cache.update child.href s.next
        next := s.next + 1 } i = if i = s.next then child.href else s.keyOf i := by
      intro i
      by_cases hi : i = s.next
      · subst hi
        simp [Registry.keyOf]
      · simp [Registry.keyOf, hi]
    have hmem : ∀ i, i ∈ (s.tab.add deviceComputeHash s.compareStr child.href s.next).items ↔
        i ∈ s.tab.items ∨ i = s.next := fun i =>
      HashTable.mem_items_add h.compareStr hnew (deviceComputeHash_lt h.tabSize _)
    refine ⟨?_, ?_, ?_, ?_, ?_⟩
    · simpa [HashTable.add] using h.tabSize
    · intro i hi
      have hlt : s.next + 1 ≤ i := hi
      simp only
      rw [Function.update_of_ne (by omega)]
      exact h.fresh i (by omega)
    · have hold := h.placed.congr fun i hi => (hkey i).trans (if_neg (hne i hi))
      refine HashTable.Placed.add ?_ hold ?_ ?_
      · intro k i hi
        rw [hkey, if_neg (hne i hi)]
        exact h.compareStr k i hi
      · intro i hi
        rw [hkey, if_neg (hne i hi)]
        exact hnew i hi
      · rw [hkey, if_pos rfl]
    · intro i hi
      simp only at hi ⊢
      rcases (hmem i).mp hi with hi | rfl
      · rw [Function.update_of_ne (hne i hi)]
        exact h.live i hi
      · simp
    · intro href i hi
      rw [hkey]
      simp only
      rw [hmem]
      rcases Cache.mem_update hi with hi | hi
      · obtain ⟨hitem, hkey⟩ := h.cached href i hi
        exact ⟨.inl hitem, by rw [if_neg (hne i hitem), hkey]⟩
      · cases hi
        exact ⟨.inr rfl, if_pos rfl⟩
  exact hbase.modify (fun parent => { parent with children := parent.children ++ [s.next] })
    (fun _ => rfl) p

theorem Registry.Mirrored.unlink
    (h : s.Mirrored)
    (i : Nat)
    (dev : ObixDev) :
    (s.deviceUnlink i dev).Mirrored := by
  have hbase : Registry.Mirrored { s with
      tab := s.tab.del deviceComputeHash s.compareStr dev.href
      cache := s.cache.invalidate dev.href } := by
    have hmem : ∀ j, j ∈ (s.tab.del deviceComputeHash s.compareStr dev.href).items ↔
        j ∈ s.tab.items ∧ isStrIdentical dev.href (s.keyOf j) = false := fun j =>
      HashTable.mem_items_del deviceComputeHash_congr h.compareStr h.placed
    refine ⟨?_, h.fresh, ?_, ?_, ?_⟩
    · simpa [HashTable.del] using h.tabSize
    · exact h.placed.del deviceComputeHash_congr h.compareStr dev.href
    · intro j hj
      exact h.live j ((hmem j).mp hj).1
    · intro href j hj
      obtain ⟨hj, hbegins⟩ := Cache.mem_invalidate.mp hj
      obtain ⟨hitem, hkey⟩ := h.cached href j hj
      refine ⟨(hmem j).mpr ⟨hitem, ?_⟩, hkey⟩
      -- an identical href begins with that of the device
      by_contra hid
      have hid : trimSlash dev.href = trimSlash href := by
        simpa [isStrIdentical, hkey] using hid
      have hpre := trimSlash_isPrefix href
      rw [← hid, hbegins] at hpre
      cases hpre
  unfold Registry.deviceUnlink
  refine Registry.Mirrored.modify ?_ (fun dev => { dev with parent := none }) (fun _ => rfl) i
  cases dev.parent with
  | none => exact hbase
  | some p =>
      exact hbase.modify (fun parent => { parent with children := parent.children.erase i })
        (fun _ => rfl) p

theorem Registry.Mirrored.lookup
    {op : LookupOp}
    (h : s.Mirrored)
    (hop : s.lookup op = some t) :
    t.Mirrored := by
  cases op with
  | link p child =>
      simp only [Registry.lookup] at hop
      split at hop
      · cases hop
      · rename_i hnew
        cases hop
        exact h.link (by simpa using hnew)
  | unlink i =>
      simp only [Registry.lookup] at hop
      split at hop
      · obtain ⟨dev, -, rfl⟩ := Option.map_eq_some_iff.mp hop
        exact h.unlink i dev
      · cases hop
  | search href =>
      cases hop
      exact (h.deviceSearch href).2.2

end Table

section Transparency

variable {resdir : Text} {tabSize cacheSize : Nat} {dom : Xml} {disk : Disk} {s₀ s : Registry}

theorem mirrored_start
    (h : devicesStart resdir tabSize cacheSize dom disk = some s₀) :
    s₀.Mirrored := by
  have hlinked := linked_start h
  refine ⟨hlinked.tabSize, hlinked.fresh, hlinked.placed, fun i hi => (hlinked.tabLive i hi).2, ?_⟩
  obtain ⟨dir, -, h⟩ := Option.bind_eq_some_iff.mp h
  split at h
  · cases h
  · obtain ⟨root, -, rfl⟩ := Option.map_eq_some_iff.mp h
    intro href i hi
    have hnone := List.eq_of_mem_replicate hi
    cases hnone

/-- `device_search` finds the device that is in the hash table and takes one reference to it, in
every run of links, unlinks and searches. -/
theorem cache_transparent
    (hstart : devicesStart resdir tabSize cacheSize dom disk = some s₀)
    (hs : Runs.Reaches Registry.lookup (fun _ _ => True) s₀ s)
    (href : Text) :
    (s.deviceSearch href).1 = s.searchTable href ∧
      ∀ i, (s.deviceSearch href).2.refcnt i =
        s.refcnt i + if s.searchTable href = some i then 1 else 0 := by
  have h : s.Mirrored :=
    hs.invariant (fun _ _ _ h _ hop => h.lookup hop) (mirrored_start hstart)
  obtain ⟨hfound, hcount, -⟩ := h.deviceSearch href
  exact ⟨hfound, hcount⟩

/-- A device is linked, found, and unlinked. -/
def lookupLamp : List LookupOp :=
  [.link 0
      { href := "/obix/deviceRoot/d/".toList, ownerId := "me".toList, dir := [], file := none,
        metaFile := none, parent := none, children := [] },
    .search "/obix/deviceRoot/d".toList]

theorem cache_transparent_lamp :
    ∃ s₀ s, sampleStart = some s₀ ∧ Runs.exec Registry.lookup s₀ lookupLamp = some s ∧
      s.searchTable "/obix/deviceRoot/d".toList = some 1 ∧
      (s.deviceSearch "/obix/deviceRoot/d".toList).1 = s.searchTable "/obix/deviceRoot/d".toList := by
  have hrun : (sampleStart.bind fun s₀ => Runs.exec Registry.lookup s₀ lookupLamp).map
      (fun s => s.searchTable "/obix/deviceRoot/d".toList) = some (some 1) := by
    decide +kernel
  obtain ⟨s, hs, hfound⟩ := Option.map_eq_some_iff.mp hrun
  obtain ⟨s₀, hstart, hexec⟩ := Option.bind_eq_some_iff.mp hs
  refine ⟨s₀, s, hstart, hexec, hfound, ?_⟩
  exact (cache_transparent hstart (Runs.Reaches.refl.free lookupLamp hexec) _).1

end Transparency

end Devices
end Obix
