import Obix.Device.SignOff

/-!
# Links between descriptors

What holds in every registry that requests lead to, whatever the hrefs and the names of the
contracts are: the hash table, the cache, the parents and the lists of children refer to
descriptors that are in the heap, and the list of children of a device has exactly the
devices whose parent it is (`Linked`).
-/

namespace Obix
namespace Devices

open CString XmlNode
open History (seLookup opDeviceRemove opDeviceDelete obixIdDevice)

section Keys

theorem deviceComputeHash_append_slash
    {t : Text}
    (ht : slashFollowed t = false)
    (n : Nat) :
    deviceComputeHash (t ++ ['/']) n = deviceComputeHash t n := by
  have hroot : slashFollowed deviceRootHref = true := by decide
  unfold deviceComputeHash
  by_cases hpre : deviceRootHref <+: t
  · -- the root itself ends with a slash
    have hlt : deviceRootHref.length < t.length := by
      refine lt_of_le_of_ne hpre.length_le fun hlen => ?_
      rw [hpre.eq_of_length hlen, ht] at hroot
      cases hroot
    have hpre' : deviceRootHref <+: t ++ ['/'] := hpre.trans (List.prefix_append _ _)
    have hdrop : slashFollowed (t.drop deviceRootHref.length) = false := by
      obtain ⟨x, rfl⟩ := hpre
      have hx : x ≠ [] := by
        rintro rfl
        simp at hlt
      simp only [slashFollowed, decide_eq_false_iff_not] at ht ⊢
      rwa [List.getLast?_append_of_ne_nil _ hx] at ht
    rw [if_pos, if_pos, List.drop_append_of_le_length hpre.length_le, hashBkdr_append_slash hdrop]
    · simpa using ⟨hpre, hlt⟩
    · simp only [List.isPrefixOf_iff_prefix, Bool.and_eq_true, decide_eq_true_eq,
        List.length_append, List.length_singleton]
      exact ⟨hpre', by omega⟩
  · rw [if_neg, if_neg, hashBkdr_append_slash ht]
    · simp [hpre]
    · simp only [List.isPrefixOf_iff_prefix, Bool.and_eq_true, decide_eq_true_eq,
        List.length_append, List.length_singleton, not_and]
      intro hpre' hlt
      exact hpre (List.prefix_of_prefix_length_le hpre' (List.prefix_append _ _) (by omega))

theorem deviceComputeHash_congr
    (s t : Text)
    (n : Nat)
    (h : isStrIdentical s t = true) :
    deviceComputeHash s n = deviceComputeHash t n := by
  rcases isStrIdentical_cases h with rfl | ⟨ht, rfl⟩ | ⟨hs, rfl⟩
  · rfl
  · exact deviceComputeHash_append_slash ht n
  · exact (deviceComputeHash_append_slash hs n).symm

theorem deviceComputeHash_lt
    {n : Nat}
    (hn : 0 < n)
    (s : Text) :
    deviceComputeHash s n < n := by
  have hbkdr : ∀ t, hashBkdr t n < n := by
    intro t
    unfold hashBkdr
    split
    · exact hn
    · exact Nat.mod_lt _ hn
  unfold deviceComputeHash
  split
  · exact hbkdr _
  · exact hbkdr _

end Keys

namespace Registry

/-- The href of a device, by its address. -/
def keyOf (s : Registry) (i : Nat) : Text :=
  (s.heap i).elim [] ObixDev.href

theorem keyOf_of_heap
    {s : Registry} {i : Nat} {dev : ObixDev}
    (h : s.heap i = some dev) :
    s.keyOf i = dev.href := by
  simp [keyOf, h]

end Registry

/-- What refers to what in a registry. -/
structure Linked (s : Registry) : Prop where
  root : ∃ root, s.heap deviceRoot = some root ∧ root.parent = none ∧
    root.href = deviceRootHref ∧ root.ownerId = obixIdDevice
  rootNext : deviceRoot < s.next
  fresh : ∀ i, s.next ≤ i → s.heap i = none
  freshDom : ∀ i, s.next ≤ i → s.dom.ownNode i = none
  below : ∀ i dev, s.heap i = some dev → i ≠ deviceRoot → isDeviceRootHref dev.href = false
  tabSize : 0 < s.tab.heads.length
  placed : s.tab.Placed deviceComputeHash s.keyOf
  tabLive : ∀ i ∈ s.tab.items, i ≠ deviceRoot ∧ s.heap i ≠ none
  cacheLive : ∀ href i, some (href, i) ∈ s.cache →
    i ≠ deviceRoot ∧ ∃ dev, s.heap i = some dev ∧ dev.href = href
  parent : ∀ i dev, s.heap i = some dev → i ≠ deviceRoot →
    ∃ p e, dev.parent = some p ∧ s.heap p = some e ∧ i ∈ e.children
  nodup : ∀ p e, s.heap p = some e → e.children.Nodup
  children : ∀ p e, s.heap p = some e → ∀ c ∈ e.children,
    ∃ dev, s.heap c = some dev ∧ dev.parent = some p

theorem Linked.parent_live
    {s : Registry} {i p : Nat} {dev : ObixDev}
    (hs : Linked s)
    (hi : s.heap i = some dev)
    (hp : dev.parent = some p) :
    ∃ e, s.heap p = some e := by
  have hne : i ≠ deviceRoot := by
    rintro rfl
    obtain ⟨root, hr, hnone, -⟩ := hs.root
    obtain rfl := Option.some.inj (hi.symm.trans hr)
    rw [hnone] at hp
    cases hp
  obtain ⟨q, e, hq, he, -⟩ := hs.parent i dev hi hne
  rw [Option.some.inj (hp.symm.trans hq)]
  exact ⟨e, he⟩

section Start

theorem linked_start
    {resdir : Text} {tabSize cacheSize : Nat} {dom : Xml} {disk : Disk} {s : Registry}
    (h : devicesStart resdir tabSize cacheSize dom disk = some s) :
    Linked s := by
  obtain ⟨dir, -, h⟩ := Option.bind_eq_some_iff.mp h
  split at h
  · cases h
  · rename_i hsizes
    push Not at hsizes
    obtain ⟨root, hroot, rfl⟩ := Option.map_eq_some_iff.mp h
    have hinit : root.parent = none ∧ root.href = deviceRootHref ∧
        root.ownerId = obixIdDevice ∧ root.children = [] := by
      rw [deviceInit, if_pos (by decide)] at hroot
      obtain rfl := Option.some.inj hroot
      exact ⟨rfl, rfl, rfl, rfl⟩
    have hheap : ∀ i dev, Function.update (fun _ => none) deviceRoot (some root) i = some dev →
        i = deviceRoot ∧ dev = root := by
      intro i dev hi
      by_cases hroot : i = deviceRoot
      · subst hroot
        exact ⟨rfl, by simpa using hi.symm⟩
      · simp [hroot] at hi
    constructor
    case root => exact ⟨root, by simp, hinit.1, hinit.2.1, hinit.2.2.1⟩
    case rootNext => exact Nat.lt_succ_self _
    case fresh =>
      intro i hi
      have hne : i ≠ deviceRoot := by
        dsimp only at hi
        omega
      simp [hne]
    case freshDom =>
      intro i hi
      have hne : deviceRoot ≠ i := by
        dsimp only at hi
        omega
      have hkeeps : KeepsFresh i (setupPrivate deviceRoot) :=
        fun n _ => ownNode_setupPrivate hne n
      exact hkeeps.modifyAt _ _ (ownNode_plain dom)
    case below =>
      intro i dev hi hne
      exact absurd (hheap i dev hi).1 hne
    case tabSize =>
      simp only [HashTable.init, List.length_replicate]
      omega
    case placed => exact HashTable.placed_init _ _ _
    case tabLive =>
      intro i hi
      simp at hi
    case cacheLive =>
      intro href i hi
      have := List.eq_of_mem_replicate hi
      cases this
    case parent =>
      intro i dev hi hne
      exact absurd (hheap i dev hi).1 hne
    case nodup =>
      intro p e hp
      rw [(hheap p e hp).2, hinit.2.2.2]
      exact List.nodup_nil
    case children =>
      intro p e hp c hc
      rw [(hheap p e hp).2, hinit.2.2.2] at hc
      cases hc

end Start

section Search

variable {s t : Registry} {href : Text} {i : Nat}

/-- The comparison of the hash table is that of the hrefs. -/
theorem Linked.compareStr
    (hs : Linked s)
    (key : Text)
    (i : Nat)
    (hi : i ∈ s.tab.items) :
    s.compareStr key i = isStrIdentical key (s.keyOf i) := by
  obtain ⟨dev, hdev⟩ := Option.ne_none_iff_exists'.mp (hs.tabLive i hi).2
  rw [Registry.compareStr, Registry.keyOf_of_heap hdev, hdev]
  rfl

/-- Another cache, and another count of references. -/
theorem Linked.of_cache
    {cache : Cache Nat} {refcnt : Nat → Int} {sync : Nat → Tsync} {disk : Disk}
    (hs : Linked s)
    (hcache : ∀ href i, some (href, i) ∈ cache →
      i ≠ deviceRoot ∧ ∃ dev, s.heap i = some dev ∧ dev.href = href) :
    Linked { s with cache := cache, refcnt := refcnt, sync := sync, disk := disk } :=
  { hs with cacheLive := hcache }

/-- The device that is found has the href, and it is the device root only if the href is
that of the device root. -/
theorem Linked.deviceSearch
    (hs : Linked s)
    (h : s.deviceSearch href = (some i, t)) :
    Linked t ∧ ∃ dev, s.heap i = some dev ∧ isStrIdentical dev.href href = true ∧
      (i = deviceRoot ↔ isDeviceRootHref href = true) := by
  unfold Registry.deviceSearch at h
  split at h
  · cases h
  · split at h
    · rename_i hroot
      cases h
      obtain ⟨root, hheap, -, hhref, -⟩ := hs.root
      refine ⟨hs.of_cache hs.cacheLive, root, hheap, ?_, by simp [hroot]⟩
      rw [hhref, isStrIdentical_comm]
      exact hroot
    · rename_i hroot
      rcases s.cache.search_spec href with
        ⟨h', item, hfst, hmem, hid, hsub⟩ | ⟨hmiss, -⟩
      · split at h
        · rename_i j cache hsearch
          cases h
          rw [hsearch] at hfst hsub
          obtain rfl : i = item := Option.some.inj hfst
          obtain ⟨hne, dev, hdev, rfl⟩ := hs.cacheLive _ _ hmem
          refine ⟨hs.of_cache fun x j hx => hs.cacheLive x j (hsub _ hx), dev, hdev, hid, ?_⟩
          simp [hne, hroot]
        · rename_i hsearch
          rw [hsearch] at hfst
          cases hfst
      · rw [hmiss] at h
        dsimp only at h
        split at h
        · cases h
        · rename_i j hsearch
          cases h
          obtain ⟨hitem, hcmp⟩ := HashTable.mem_of_search hsearch
          obtain ⟨hne, hlive⟩ := hs.tabLive i hitem
          obtain ⟨dev, hdev⟩ := Option.ne_none_iff_exists'.mp hlive
          rw [hs.compareStr href i hitem, Registry.keyOf_of_heap hdev] at hcmp
          refine ⟨?_, dev, hdev, by rwa [isStrIdentical_comm], by simp [hne, hroot]⟩
          rw [hdev]
          refine hs.of_cache fun x k hx => ?_
          rcases Cache.mem_update hx with hx | hx
          · exact hs.cacheLive x k hx
          · cases hx
            exact ⟨hne, dev, hdev, rfl⟩

theorem Linked.searchUp
    (hs : Linked s)
    {n : Nat}
    (h : Registry.searchUp n href s = (some i, t)) :
    Linked t ∧ ∃ dev, s.heap i = some dev := by
  induction n generalizing href with
  | zero => cases h
  | succ n ih =>
      unfold Registry.searchUp at h
      split at h
      · rename_i j u hsearch
        cases h
        obtain ⟨ht, dev, hdev, -⟩ := hs.deviceSearch hsearch
        exact ⟨ht, dev, hdev⟩
      · rename_i u hsearch
        obtain rfl := deviceSearch_none hsearch
        exact ih h

/-- Only the cache and the references change. -/
theorem deviceSearchParent_some
    (h : s.deviceSearchParent href = (some i, t)) :
    ∃ cache, t = ({ s with cache := cache } : Registry).get i := by
  rcases deviceSearchParent_spec s href with ⟨j, cache, hj⟩ | hj
  · rw [hj] at h
    cases h
    exact ⟨cache, rfl⟩
  · rw [hj] at h
    cases h

theorem Linked.deviceSearchParent
    (hs : Linked s)
    (h : s.deviceSearchParent href = (some i, t)) :
    Linked t ∧ isDeviceRootHref href = false ∧ ∃ dev, s.heap i = some dev := by
  unfold Registry.deviceSearchParent at h
  split at h
  · cases h
  · rename_i hcond
    push Not at hcond
    obtain ⟨ht, hdev⟩ := hs.searchUp h
    exact ⟨ht, by simpa using hcond.2, hdev⟩

end Search

section Add

variable {a : AddArgs} {s t : Registry} {p : Nat} {parent child : ObixDev} {e : ErrCode}

/-- The checks that `device_add` makes before it changes anything. -/
structure Passes (a : AddArgs) (p : Nat) (parent child : ObixDev) (s : Registry) : Prop where
  live : s.heap p = some parent
  name : ∃ name, a.input.getProp attrName = some name ∧
    linkPathname parent.dir none (some name) none = some child.dir
  init : deviceInit a.href child.dir a.requesterId = some child
  allowed : seLookup a.requesterId parent.ownerId opDeviceAdd = true
  region : (s.sync p).writerRequest ≠ none
  single : childWith s parent a.href = none
  mount : s.deviceGetNodeCore p parent (dirname a.href) ≠ none

/-- What `device_add` can do once the parent has been found. -/
inductive AddOutcome (a : AddArgs) (p : Nat) (s : Registry) : ErrCode → Registry → Prop
  | refused (e : ErrCode) : AddOutcome a p s e s
  | added
      {parent child : ObixDev} {disk : Disk}
      (hpass : Passes a p parent child s)
      (hfiles : a.signUp = true →
        deviceSetupFiles child a.node a.faults s.disk = (.success, disk))
      (hload : a.signUp = false → disk = s.disk) :
      AddOutcome a p s .success { deviceMount a p parent child s with disk := disk }
  | withdrawn
      {parent child : ObixDev} {disk : Disk} {e : ErrCode}
      (hpass : Passes a p parent child s)
      (hsignUp : a.signUp = true)
      (hfiles : deviceSetupFiles child a.node a.faults s.disk = (e, disk))
      (he : e ≠ .success) :
      AddOutcome a p s e
        (deviceWithdraw s.next { child with parent := some p } disk (deviceMount a p parent child s))

theorem dir_deviceInit
    {href dir requesterId : Text}
    (h : deviceInit href dir requesterId = some child) :
    child.dir = dir ∧ child.href = href ∧ child.ownerId = requesterId ∧ child.children = [] ∧
      child.parent = none := by
  unfold deviceInit at h
  dsimp only at h
  split at h
  · obtain rfl := Option.some.inj h
    exact ⟨rfl, rfl, rfl, rfl, rfl⟩
  · obtain ⟨m, -, h⟩ := Option.bind_eq_some_iff.mp h
    obtain ⟨f, -, rfl⟩ := Option.map_eq_some_iff.mp h
    exact ⟨rfl, rfl, rfl, rfl, rfl⟩

theorem deviceEnter_cases
    (hpass : Passes a p parent child s) :
    AddOutcome a p s (deviceEnter a p parent child s).1 (deviceEnter a p parent child s).2 := by
  unfold deviceEnter
  split
  · rename_i hsignUp
    split
    · rename_i disk hfiles
      exact .added hpass (fun _ => hfiles) (fun hload => by simp [hsignUp] at hload)
    · rename_i e disk hne hfiles
      exact .withdrawn hpass hsignUp hfiles hne
  · rename_i hload
    exact AddOutcome.added hpass (fun hsignUp => absurd hsignUp hload) (fun _ => rfl)

theorem deviceAddUnder_cases
    {name : Text}
    (hlive : s.heap p = some parent)
    (hname : a.input.getProp attrName = some name) :
    AddOutcome a p s (deviceAddUnder a p parent name s).1 (deviceAddUnder a p parent name s).2 := by
  unfold deviceAddUnder
  split
  · exact .refused _
  · rename_i child hchild
    obtain ⟨dir, hdir, hinit⟩ := Option.bind_eq_some_iff.mp hchild
    have hdir' := (dir_deviceInit hinit).1
    split
    · exact .refused _
    · rename_i hallowed
      split
      · exact .refused _
      · rename_i hregion
        split
        · exact .refused _
        · rename_i hsingle
          split
          · exact .refused _
          · rename_i hmount
            refine deviceEnter_cases ⟨hlive, ⟨name, hname, hdir'.symm ▸ hdir⟩, hdir'.symm ▸ hinit,
              by simpa using hallowed, by simpa using hregion, hsingle, ?_⟩
            simpa using hmount

/-- What `device_add` can do. -/
theorem deviceAdd_cases
    (h : deviceAdd a s = some (e, t)) :
    ((s.deviceSearchParent a.href).1 = none ∧ e = .deviceNoSuchUri ∧ t = s) ∨
    ∃ p u e' t', s.deviceSearchParent a.href = (some p, u) ∧ AddOutcome a p u e' t' ∧
      t = t'.put p ∧ e = if e' = .deviceExists then .success else e' := by
  unfold deviceAdd at h
  rcases deviceSearchParent_spec s a.href with ⟨p, cache, hsearch⟩ | hsearch
  · rw [hsearch] at h
    obtain ⟨parent, hparent, h⟩ := Option.bind_eq_some_iff.mp h
    obtain ⟨name, hname, hret⟩ := Option.map_eq_some_iff.mp h
    cases hret
    exact .inr ⟨p, _, _, _, hsearch, deviceAddUnder_cases hparent hname, rfl, rfl⟩
  · rw [hsearch] at h
    cases h
    exact .inl ⟨by rw [hsearch], rfl, rfl⟩

/-- The heap after a device has been linked to its parent. -/
theorem heap_deviceMount
    (hs : Linked s)
    (hlive : s.heap p = some parent)
    (j : Nat) :
    (deviceMount a p parent child s).heap j =
      if j = p then some { parent with children := parent.children ++ [s.next] }
      else if j = s.next then some { child with parent := some p }
      else s.heap j := by
  have hne : p ≠ s.next := by
    intro hp
    rw [hp, hs.fresh s.next le_rfl] at hlive
    cases hlive
  simp only [deviceMount, Registry.deviceLink, Registry.modify, Function.update_apply, hne,
    if_false, hlive, Option.map_some]

/-- A device after that is one from before, but for its children, or the new one. -/
theorem deviceMount_back
    (hs : Linked s)
    (hlive : s.heap p = some parent)
    {j : Nat} {f : ObixDev}
    (hj : (deviceMount a p parent child s).heap j = some f) :
    (∃ f', s.heap j = some f' ∧ f = { f' with children := f.children }) ∨
      (j = s.next ∧ f = { child with parent := some p }) := by
  rw [heap_deviceMount hs hlive] at hj
  split at hj
  · rename_i hp
    obtain rfl := Option.some.inj hj
    exact .inl ⟨parent, hp ▸ hlive, rfl⟩
  · split at hj
    · rename_i hi
      exact .inr ⟨hi, (Option.some.inj hj).symm⟩
    · exact .inl ⟨f, hj, rfl⟩

/-- The keys of the devices after that. -/
theorem keyOf_deviceMount
    (hs : Linked s)
    (hlive : s.heap p = some parent)
    {j : Nat}
    (hj : j ≠ s.next) :
    (deviceMount a p parent child s).keyOf j = s.keyOf j := by
  rw [Registry.keyOf, heap_deviceMount hs hlive, if_neg hj]
  split
  · rename_i hp
    rw [hp, Registry.keyOf_of_heap hlive]
    rfl
  · rfl

theorem tab_deviceMount (a : AddArgs) (p : Nat) (parent child : ObixDev) (s : Registry) :
    (deviceMount a p parent child s).tab =
      s.tab.add deviceComputeHash s.compareStr child.href s.next :=
  rfl

/-- The hash table after that: the new device is in it unless its href is known. -/
theorem mem_tab_deviceMount
    (hs : Linked s)
    {j : Nat} :
    j ∈ (deviceMount a p parent child s).tab.items ↔
      j ∈ s.tab.items ∨
        (j = s.next ∧ ∀ k ∈ s.tab.items, isStrIdentical child.href (s.keyOf k) = false) := by
  rw [tab_deviceMount]
  by_cases hnew : ∀ k ∈ s.tab.items, isStrIdentical child.href (s.keyOf k) = false
  · rw [HashTable.mem_items_add hs.compareStr hnew (deviceComputeHash_lt hs.tabSize _)]
    simp only [and_iff_left hnew]
  · have hnew' := hnew
    push Not at hnew'
    obtain ⟨k, hk, hid⟩ := hnew'
    rw [HashTable.add_eq_self deviceComputeHash_congr hs.compareStr hs.placed hk (by simpa using hid)]
    simp only [hnew, and_false, or_false]

theorem placed_deviceMount
    (hs : Linked s)
    (hlive : s.heap p = some parent) :
    (deviceMount a p parent child s).tab.Placed deviceComputeHash
      (deviceMount a p parent child s).keyOf := by
  have hkey : ∀ j ∈ s.tab.items, (deviceMount a p parent child s).keyOf j = s.keyOf j := by
    intro j hj
    refine keyOf_deviceMount hs hlive fun hj' => ?_
    exact (hs.tabLive j hj).2 (hj' ▸ hs.fresh _ le_rfl)
  have hold := hs.placed.congr hkey
  rw [tab_deviceMount]
  by_cases hnew : ∀ k ∈ s.tab.items, isStrIdentical child.href (s.keyOf k) = false
  · have hne : s.next ≠ p := by
      intro hp
      rw [← hp, hs.fresh s.next le_rfl] at hlive
      cases hlive
    refine @HashTable.Placed.add Nat deviceComputeHash s.compareStr
      (deviceMount a p parent child s).keyOf s.tab ?_ hold child.href ?_ s.next ?_
    · intro k j hj
      rw [hkey j hj]
      exact hs.compareStr k j hj
    · intro j hj
      rw [hkey j hj]
      exact hnew j hj
    · rw [Registry.keyOf, heap_deviceMount hs hlive, if_neg hne, if_pos rfl]
      rfl
  · push Not at hnew
    obtain ⟨k, hk, hid⟩ := hnew
    rw [HashTable.add_eq_self deviceComputeHash_congr hs.compareStr hs.placed hk (by simpa using hid)]
    exact hold

/-- A new device keeps the links. -/
theorem Linked.mount
    (hs : Linked s)
    (hlive : s.heap p = some parent)
    (hhref : isDeviceRootHref child.href = false)
    (hchildren : child.children = [])
    (disk : Disk) :
    Linked { deviceMount a p parent child s with disk := disk } := by
  have hheap := @heap_deviceMount a s p parent child hs hlive
  have hnext : ∀ j dev, s.heap j = some dev → j ≠ s.next := by
    rintro j dev hj rfl
    rw [hs.fresh s.next le_rfl] at hj
    cases hj
  have hroot : s.next ≠ deviceRoot := by
    have := hs.rootNext
    omega
  -- a device that was there is still there, with its href and its parent
  have hkeep : ∀ j dev, s.heap j = some dev → ∃ dev',
      (deviceMount a p parent child s).heap j = some dev' ∧ dev'.href = dev.href ∧
        dev'.parent = dev.parent ∧ ∀ c ∈ dev.children, c ∈ dev'.children := by
    intro j dev hj
    rw [hheap, if_neg (hnext j dev hj)]
    split
    · rename_i hjp
      obtain rfl := Option.some.inj (hlive.symm.trans (hjp ▸ hj))
      exact ⟨_, rfl, rfl, rfl, fun c hc => List.mem_append_left _ hc⟩
    · exact ⟨dev, hj, rfl, rfl, fun c hc => hc⟩
  have hnew : (deviceMount a p parent child s).heap s.next =
      some { child with parent := some p } := by
    rw [hheap, if_neg (hnext p parent hlive).symm, if_pos rfl]
  constructor
  case root =>
    obtain ⟨root, hr, hparent, hhref, howner⟩ := hs.root
    show ∃ root', (deviceMount a p parent child s).heap deviceRoot = some root' ∧ _
    rw [hheap]
    split
    · rename_i hp
      obtain rfl := Option.some.inj (hlive.symm.trans (hp ▸ hr))
      exact ⟨_, rfl, hparent, hhref, howner⟩
    · rw [if_neg hroot.symm]
      exact ⟨root, hr, hparent, hhref, howner⟩
  case rootNext => exact Nat.lt_succ_of_lt hs.rootNext
  case fresh =>
    intro j hj
    have hj : s.next + 1 ≤ j := hj
    show (deviceMount a p parent child s).heap j = none
    rw [hheap, if_neg, if_neg (by omega)]
    · exact hs.fresh j (by omega)
    · rintro rfl
      rw [hs.fresh j (by omega)] at hlive
      cases hlive
  case freshDom =>
    intro j hj
    have hj : s.next + 1 ≤ j := hj
    have hadopt : ownNode j (adopt s.next a.node) = none := ownNode_adopt (by omega) _
    exact ((keepsFresh_addChild hadopt).modifyAt _).modifyOwn p s.dom (hs.freshDom j (by omega))
  case below =>
    intro j dev hj hne
    have hj : (deviceMount a p parent child s).heap j = some dev := hj
    rw [hheap] at hj
    split at hj
    · rename_i hp
      obtain rfl := Option.some.inj hj
      exact hs.below p parent hlive (hp ▸ hne)
    · split at hj
      · obtain rfl := Option.some.inj hj
        exact hhref
      · exact hs.below j dev hj hne
  case tabSize =>
    show 0 < (s.tab.add deviceComputeHash s.compareStr child.href s.next).heads.length
    simpa [HashTable.add] using hs.tabSize
  case placed => exact @placed_deviceMount a s p parent child hs hlive
  case tabLive =>
    intro j hj
    rcases (@mem_tab_deviceMount a s p parent child hs j).mp hj with hj | ⟨rfl, -⟩
    · obtain ⟨hne, hj⟩ := hs.tabLive j hj
      obtain ⟨dev, hdev⟩ := Option.ne_none_iff_exists'.mp hj
      obtain ⟨dev', hdev', -⟩ := hkeep j dev hdev
      exact ⟨hne, by simp [hdev']⟩
    · exact ⟨hroot, by simp [hnew]⟩
  case cacheLive =>
    intro href j hj
    rcases Cache.mem_update hj with hj | hj
    · obtain ⟨hne, dev, hdev, rfl⟩ := hs.cacheLive href j hj
      obtain ⟨dev', hdev', hhref', -⟩ := hkeep j dev hdev
      exact ⟨hne, dev', hdev', hhref'⟩
    · cases hj
      exact ⟨hroot, _, hnew, rfl⟩
  case parent =>
    intro j dev hj hne
    have hj : (deviceMount a p parent child s).heap j = some dev := hj
    -- whoever had a parent still has it, and is still among its children
    have hold : ∀ d, s.heap j = some d → dev.parent = d.parent →
        ∃ q f, dev.parent = some q ∧
          (deviceMount a p parent child s).heap q = some f ∧ j ∈ f.children := by
      intro d hd hparent
      obtain ⟨q, f, hq, hf, hmem⟩ := hs.parent j d hd hne
      obtain ⟨f', hf', -, -, hsub⟩ := hkeep q f hf
      exact ⟨q, f', hparent.trans hq, hf', hsub j hmem⟩
    rw [hheap] at hj
    split at hj
    · rename_i hp
      obtain rfl := Option.some.inj hj
      exact hold parent (hp ▸ hlive) rfl
    · split at hj
      · rename_i hp hi
        obtain rfl := Option.some.inj hj
        refine ⟨p, _, rfl, by rw [hheap, if_pos rfl], ?_⟩
        simp [hi]
      · exact hold dev hj rfl
  case nodup =>
    intro q f hq
    have hq : (deviceMount a p parent child s).heap q = some f := hq
    rw [hheap] at hq
    split at hq
    · obtain rfl := Option.some.inj hq
      refine List.nodup_append.mpr ⟨hs.nodup p parent hlive, List.nodup_singleton _, ?_⟩
      rintro c hc d hd rfl
      obtain ⟨dev, hdev, -⟩ := hs.children p parent hlive c hc
      exact hnext c dev hdev (List.mem_singleton.mp hd)
    · split at hq
      · obtain rfl := Option.some.inj hq
        simp [hchildren]
      · exact hs.nodup q f hq
  case children =>
    intro q f hq c hc
    have hq : (deviceMount a p parent child s).heap q = some f := hq
    have hold : ∀ g, s.heap q = some g → c ∈ g.children →
        ∃ dev, (deviceMount a p parent child s).heap c = some dev ∧ dev.parent = some q := by
      intro g hg hmem
      obtain ⟨dev, hdev, hparent⟩ := hs.children q g hg c hmem
      obtain ⟨dev', hdev', -, hparent', -⟩ := hkeep c dev hdev
      exact ⟨dev', hdev', hparent'.trans hparent⟩
    rw [hheap] at hq
    split at hq
    · rename_i hp
      obtain rfl := Option.some.inj hq
      rcases List.mem_append.mp hc with hc | hc
      · exact hold parent (hp ▸ hlive) hc
      · rw [List.mem_singleton.mp hc, hp]
        exact ⟨_, hnew, rfl⟩
    · split at hq
      · obtain rfl := Option.some.inj hq
        simp [hchildren] at hc
      · exact hold f hq hc

/-- The registry after `device_add` has taken a device back. -/
def withdrawn (a : AddArgs) (p : Nat) (parent child : ObixDev) (disk : Disk) (s : Registry) :
    Registry :=
  deviceWithdraw s.next { child with parent := some p } disk (deviceMount a p parent child s)

theorem heap_withdrawn
    (hs : Linked s)
    (hlive : s.heap p = some parent)
    (disk : Disk) :
    (withdrawn a p parent child disk s).heap = s.heap := by
  have hheap := @heap_deviceMount a s p parent child hs hlive
  have hne : p ≠ s.next := by
    intro hp
    rw [hp, hs.fresh s.next le_rfl] at hlive
    cases hlive
  have hmem : s.next ∉ parent.children := by
    intro hmem
    obtain ⟨dev, hdev, -⟩ := hs.children p parent hlive _ hmem
    rw [hs.fresh s.next le_rfl] at hdev
    cases hdev
  funext j
  show Function.update (Function.update (Function.update
    (deviceMount a p parent child s).heap p _) s.next _) s.next none j = s.heap j
  by_cases hj : j = s.next
  · rw [hj, Function.update_self, hs.fresh s.next le_rfl]
  · rw [Function.update_of_ne hj, Function.update_of_ne hj]
    by_cases hjp : j = p
    · rw [hjp, Function.update_self]
      show Option.map _ ((deviceMount a p parent child s).heap p) = _
      rw [hheap, if_pos rfl, hlive]
      simp [List.erase_append_right _ hmem]
    · rw [Function.update_of_ne hjp, hheap, if_neg hjp, if_neg hj]

theorem dom_withdrawn
    (hs : Linked s)
    (disk : Disk) :
    (withdrawn a p parent child disk s).dom = s.dom := by
  show removeOwn s.next (deviceMount a p parent child s).dom = s.dom
  exact removeOwn_modifyOwn (hs.freshDom s.next le_rfl) (owner_adopt _ _) p _

theorem tab_withdrawn (a : AddArgs) (p : Nat) (parent child : ObixDev) (disk : Disk)
    (s : Registry) :
    (withdrawn a p parent child disk s).tab =
      (deviceMount a p parent child s).tab.del deviceComputeHash
        (deviceMount a p parent child s).compareStr child.href :=
  rfl

theorem mem_cache_withdrawn
    {disk : Disk} {href : Text} {j : Nat}
    (h : some (href, j) ∈ (withdrawn a p parent child disk s).cache) :
    some (href, j) ∈ s.cache := by
  obtain ⟨hmem, hpre⟩ := Cache.mem_invalidate.mp h
  rcases Cache.mem_update hmem with hmem | hmem
  · exact hmem
  · -- the slot of the device itself is cleared
    cases hmem
    simp [trimSlash_isPrefix] at hpre

/-- The hash table loses whatever has the href of the device that was taken back. -/
theorem mem_tab_withdrawn
    (hs : Linked s)
    (hlive : s.heap p = some parent)
    (hhref : isDeviceRootHref child.href = false)
    (hchildren : child.children = [])
    {disk : Disk} {j : Nat} :
    j ∈ (withdrawn a p parent child disk s).tab.items ↔
      j ∈ s.tab.items ∧ isStrIdentical child.href (s.keyOf j) = false := by
  have hm : Linked (deviceMount a p parent child s) := hs.mount hlive hhref hchildren s.disk
  have hnext : s.next ∉ s.tab.items := fun hmem =>
    (hs.tabLive _ hmem).2 (hs.fresh s.next le_rfl)
  have hne : s.next ≠ p := by
    intro hp
    rw [← hp, hs.fresh s.next le_rfl] at hlive
    cases hlive
  rw [tab_withdrawn, HashTable.mem_items_del deviceComputeHash_congr hm.compareStr hm.placed]
  show _ ∧ isStrIdentical child.href ((deviceMount a p parent child s).keyOf j) = false ↔ _
  rw [mem_tab_deviceMount hs]
  by_cases hj : j = s.next
  · subst hj
    rw [Registry.keyOf, heap_deviceMount hs hlive, if_neg hne, if_pos rfl]
    simp [hnext, isStrIdentical]
  · rw [keyOf_deviceMount hs hlive hj]
    simp [hj]

/-- Taking a device back keeps the links. -/
theorem Linked.withdraw
    (hs : Linked s)
    (hlive : s.heap p = some parent)
    (hhref : isDeviceRootHref child.href = false)
    (hchildren : child.children = [])
    (disk : Disk) :
    Linked (withdrawn a p parent child disk s) := by
  have hm : Linked (deviceMount a p parent child s) := hs.mount hlive hhref hchildren s.disk
  have hheap := @heap_withdrawn a s p parent child hs hlive disk
  have hplaced : (withdrawn a p parent child disk s).tab.Placed deviceComputeHash
      (deviceMount a p parent child s).keyOf := by
    rw [tab_withdrawn]
    exact hm.placed.del deviceComputeHash_congr hm.compareStr child.href
  have hmem := @mem_tab_withdrawn a s p parent child hs hlive hhref hchildren disk
  constructor
  case root => simpa only [hheap] using hs.root
  case rootNext => exact Nat.lt_succ_of_lt hs.rootNext
  case fresh =>
    intro j hj
    rw [hheap]
    exact hs.fresh j (Nat.le_of_succ_le hj)
  case freshDom =>
    intro j hj
    rw [dom_withdrawn hs]
    exact hs.freshDom j (Nat.le_of_succ_le hj)
  case below => simpa only [hheap] using hs.below
  case tabSize =>
    rw [tab_withdrawn]
    simpa [HashTable.del] using hm.tabSize
  case placed =>
    refine hplaced.congr fun j hj => ?_
    have hj := (hmem.mp hj).1
    have hne : j ≠ s.next := by
      rintro rfl
      exact (hs.tabLive _ hj).2 (hs.fresh s.next le_rfl)
    rw [keyOf_deviceMount hs hlive hne, Registry.keyOf, hheap]
    rfl
  case tabLive =>
    intro j hj
    rw [hheap]
    exact hs.tabLive j (hmem.mp hj).1
  case cacheLive =>
    intro href j hj
    rw [hheap]
    exact hs.cacheLive href j (mem_cache_withdrawn hj)
  case parent => simpa only [hheap] using hs.parent
  case nodup => simpa only [hheap] using hs.nodup
  case children => simpa only [hheap] using hs.children

theorem Passes.href
    (hpass : Passes a p parent child s) :
    child.href = a.href ∧ child.children = [] :=
  let h := dir_deviceInit hpass.init
  ⟨h.2.1, h.2.2.2.1⟩

/-- Every call of `device_add` keeps the links. -/
theorem Linked.deviceAdd
    (hs : Linked s)
    (h : deviceAdd a s = some (e, t)) :
    Linked t := by
  rcases deviceAdd_cases h with ⟨-, -, rfl⟩ | ⟨p, u, e', t', hsearch, hout, rfl, -⟩
  · exact hs
  · obtain ⟨hu, hroot, -⟩ := hs.deviceSearchParent hsearch
    have ht : Linked t' := by
      cases hout with
      | refused => exact hu
      | added hpass =>
          obtain ⟨hhref, hchildren⟩ := hpass.href
          exact hu.mount hpass.live (hhref ▸ hroot) hchildren _
      | withdrawn hpass =>
          obtain ⟨hhref, hchildren⟩ := hpass.href
          exact hu.withdraw hpass.live (hhref ▸ hroot) hchildren _
    exact ht.of_cache ht.cacheLive

end Add

section Del

variable {s t : Registry} {i p : Nat} {dev : ObixDev} {href requesterId : Text} {e : ErrCode}

/-- The registry after a device has been signed off. -/
def signedOff (i : Nat) (dev : ObixDev) (s : Registry) : Registry :=
  (deviceRelease i dev.parent (devicePurge i dev s)).free i

/-- What `device_del` can do when nobody interferes; `u` is the registry after the
search. -/
theorem deviceDel_idle_cases
    (h : deviceDel Meanwhile.idle href requesterId s = some (e, t)) :
    ∃ u, u.heap = s.heap ∧ u.tab = s.tab ∧ u.dom = s.dom ∧ u.disk = s.disk ∧ u.next = s.next ∧
      u.cache = (s.deviceSearch href).2.cache ∧
      ((e ≠ .success ∧ t = u) ∨
        ∃ i dev, (s.deviceSearch href).1 = some i ∧ s.heap i = some dev ∧
          Entitled s requesterId dev ∧ dev.children = [] ∧ e = .success ∧
          t = signedOff i dev u) := by
  cases deviceDel_cases h with
  | @refused e cache hcache he =>
      exact ⟨{ s with cache := cache }, rfl, rfl, rfl, rfl, rfl, hcache.symm, .inl ⟨he, rfl⟩⟩
  | @entitled i dev cache e t hcache hfound hdev hentitled hout =>
      have hheap : (deviceHold i dev.parent { s with cache := cache }).heap = s.heap := by
        cases dev.parent <;> rfl
      cases hout with
      | busy =>
          rw [deviceRelease_hold]
          exact ⟨{ s with cache := cache }, rfl, rfl, rfl, rfl, rfl, hcache.symm,
            .inl ⟨by decide, rfl⟩⟩
      | @children sync u dev' hrequest hu hgrant hdev' hne =>
          refine ⟨_, ?_, ?_, ?_, ?_, ?_, ?_, .inl ⟨by decide, rfl⟩⟩ <;>
          · subst hu
            cases dev.parent <;> first | rfl | exact hcache.symm
      | @removed sync u v dev' dev'' hrequest hu hgrant hdev' hchildren hv hdev'' =>
          obtain rfl : v = u := by rcases hv with rfl | rfl <;> rfl
          subst hu
          have hsame : ∀ d, (Meanwhile.idle.shutdown
              (raise i sync (deviceHold i dev.parent { s with cache := cache }))).heap i = some d →
              d = dev := by
            intro d hd
            have hd : (deviceHold i dev.parent { s with cache := cache }).heap i = some d := hd
            rw [hheap, hdev] at hd
            exact (Option.some.inj hd).symm
          obtain rfl := hsame dev' hdev'
          obtain rfl := hsame dev'' hdev''
          refine ⟨_, ?_, ?_, ?_, ?_, ?_, ?_,
            .inr ⟨i, dev'', hfound, hdev, hentitled, hchildren, rfl, rfl⟩⟩ <;>
          · cases dev''.parent <;> first | rfl | exact hcache.symm

/-- The heap after a device has been signed off. -/
theorem heap_signedOff
    (hparent : dev.parent = some p)
    (j : Nat) :
    (signedOff i dev s).heap j =
      if j = i then none
      else if j = p then
        (s.heap p).map fun parent => { parent with children := parent.children.erase i }
      else s.heap j := by
  simp only [signedOff, hparent, deviceRelease, Option.elim_some, devicePurge, Registry.put,
    Registry.deviceUnlink, Registry.free, Registry.modify, Function.update_apply]
  by_cases hj : j = i
  · simp [hj]
  · simp [hj]

theorem tab_signedOff (i : Nat) (dev : ObixDev) (s : Registry) :
    (signedOff i dev s).tab = s.tab.del deviceComputeHash s.compareStr dev.href := by
  cases hparent : dev.parent <;>
    simp only [signedOff, hparent, deviceRelease, devicePurge, Registry.put,
      Registry.deviceUnlink, Registry.free, Registry.modify, Option.elim_some, Option.elim_none]

theorem cache_signedOff (i : Nat) (dev : ObixDev) (s : Registry) :
    (signedOff i dev s).cache = s.cache.invalidate dev.href := by
  cases hparent : dev.parent <;>
    simp only [signedOff, hparent, deviceRelease, devicePurge, Registry.put,
      Registry.deviceUnlink, Registry.free, Registry.modify, Option.elim_some, Option.elim_none]

theorem dom_signedOff (i : Nat) (dev : ObixDev) (s : Registry) :
    (signedOff i dev s).dom = removeOwn i s.dom := by
  cases hparent : dev.parent <;> simp only [signedOff, hparent] <;> rfl

theorem next_signedOff (i : Nat) (dev : ObixDev) (s : Registry) :
    (signedOff i dev s).next = s.next := by
  cases hparent : dev.parent <;>
    simp only [signedOff, hparent, deviceRelease, devicePurge, Registry.put,
      Registry.deviceUnlink, Registry.free, Registry.modify, Option.elim_some, Option.elim_none]

theorem disk_signedOff (i : Nat) (dev : ObixDev) (s : Registry) :
    (signedOff i dev s).disk = deviceRemoveFiles dev s.disk := by
  cases hparent : dev.parent <;> simp only [signedOff, hparent] <;> rfl

theorem mem_tab_signedOff
    (hs : Linked s)
    {j : Nat} :
    j ∈ (signedOff i dev s).tab.items ↔
      j ∈ s.tab.items ∧ isStrIdentical dev.href (s.keyOf j) = false := by
  rw [tab_signedOff]
  exact HashTable.mem_items_del deviceComputeHash_congr hs.compareStr hs.placed

/-- A device that is left is one from before, without the child that was signed off. -/
theorem Linked.signedOff_back
    (hs : Linked s)
    (hdev : s.heap i = some dev)
    (hroot : i ≠ deviceRoot)
    {j : Nat} {d : ObixDev}
    (hj : (signedOff i dev s).heap j = some d) :
    j ≠ i ∧ ∃ d', s.heap j = some d' ∧ d = { d' with children := d'.children.erase i } := by
  obtain ⟨p, f, hparent, hp, -⟩ := hs.parent i dev hdev hroot
  rw [heap_signedOff hparent] at hj
  split at hj
  · cases hj
  · rename_i hji
    refine ⟨hji, ?_⟩
    split at hj
    · rename_i hjp
      rw [hp] at hj
      obtain rfl := Option.some.inj hj
      exact ⟨f, hjp ▸ hp, rfl⟩
    · rename_i hjp
      have hnot : i ∉ d.children := by
        intro hi
        obtain ⟨dev', hdev', hparent'⟩ := hs.children j d hj i hi
        obtain rfl := Option.some.inj (hdev.symm.trans hdev')
        exact hjp (Option.some.inj (hparent'.symm.trans hparent))
      exact ⟨d, hj, by rw [List.erase_of_not_mem hnot]⟩

theorem Linked.signedOff_keeps
    (hs : Linked s)
    (hdev : s.heap i = some dev)
    (hroot : i ≠ deviceRoot)
    {j : Nat} {d : ObixDev}
    (hj : s.heap j = some d)
    (hji : j ≠ i) :
    (signedOff i dev s).heap j = some { d with children := d.children.erase i } := by
  obtain ⟨p, f, hparent, hp, -⟩ := hs.parent i dev hdev hroot
  obtain ⟨d', hd'⟩ : ∃ d', (signedOff i dev s).heap j = some d' := by
    rw [heap_signedOff hparent, if_neg hji]
    split
    · exact ⟨_, by rw [hp]; rfl⟩
    · exact ⟨d, hj⟩
  obtain ⟨-, d'', hd'', heq⟩ := hs.signedOff_back hdev hroot hd'
  obtain rfl := Option.some.inj (hj.symm.trans hd'')
  rw [hd', heq]

/-- Signing off a device without children keeps the links. -/
theorem Linked.signOff
    (hs : Linked s)
    (hdev : s.heap i = some dev)
    (hroot : i ≠ deviceRoot)
    (hchildren : dev.children = []) :
    Linked (signedOff i dev s) := by
  have hback : ∀ j d, (signedOff i dev s).heap j = some d → j ≠ i ∧ ∃ d', s.heap j = some d' ∧
      d.href = d'.href ∧ d.parent = d'.parent ∧ d.children = d'.children.erase i := by
    intro j d hj
    obtain ⟨hji, d', hd', rfl⟩ := hs.signedOff_back hdev hroot hj
    exact ⟨hji, d', hd', rfl, rfl, rfl⟩
  have hkeep := @Linked.signedOff_keeps s i dev hs hdev hroot
  constructor
  case root =>
    obtain ⟨root, hr, hpar, hhref, howner⟩ := hs.root
    exact ⟨_, hkeep hr hroot.symm, hpar, hhref, howner⟩
  case rootNext => exact next_signedOff i dev s ▸ hs.rootNext
  case fresh =>
    intro j hj
    rw [next_signedOff] at hj
    by_contra hne
    obtain ⟨d, hd⟩ := Option.ne_none_iff_exists'.mp hne
    obtain ⟨-, d', hd', -⟩ := hback j d hd
    rw [hs.fresh j hj] at hd'
    cases hd'
  case freshDom =>
    intro j hj
    rw [next_signedOff] at hj
    rw [dom_signedOff]
    exact ownNode_removeOwn i s.dom (hs.freshDom j hj)
  case below =>
    intro j d hj hne
    obtain ⟨-, d', hd', hhref, -⟩ := hback j d hj
    rw [hhref]
    exact hs.below j d' hd' hne
  case tabSize =>
    rw [tab_signedOff]
    simpa [HashTable.del] using hs.tabSize
  case placed =>
    rw [tab_signedOff]
    refine (hs.placed.del deviceComputeHash_congr hs.compareStr dev.href).congr fun j hj => ?_
    rw [← tab_signedOff i, mem_tab_signedOff hs] at hj
    obtain ⟨d, hd⟩ := Option.ne_none_iff_exists'.mp (hs.tabLive j hj.1).2
    have hji : j ≠ i := by
      rintro rfl
      simp [Registry.keyOf_of_heap hdev, isStrIdentical] at hj
    rw [Registry.keyOf_of_heap (hkeep hd hji), Registry.keyOf_of_heap hd]
  case tabLive =>
    intro j hj
    rw [mem_tab_signedOff hs] at hj
    obtain ⟨hne, hlive⟩ := hs.tabLive j hj.1
    obtain ⟨d, hd⟩ := Option.ne_none_iff_exists'.mp hlive
    have hji : j ≠ i := by
      rintro rfl
      simp [Registry.keyOf_of_heap hdev, isStrIdentical] at hj
    exact ⟨hne, by simp [hkeep hd hji]⟩
  case cacheLive =>
    intro href j hj
    rw [cache_signedOff] at hj
    obtain ⟨hj, hpre⟩ := Cache.mem_invalidate.mp hj
    obtain ⟨hne, d, hd, rfl⟩ := hs.cacheLive href j hj
    have hji : j ≠ i := by
      rintro rfl
      obtain rfl := Option.some.inj (hdev.symm.trans hd)
      simp [trimSlash_isPrefix] at hpre
    exact ⟨hne, _, hkeep hd hji, rfl⟩
  case parent =>
    intro j d hj hne
    obtain ⟨hji, d', hd', -, hpar, -⟩ := hback j d hj
    obtain ⟨q, g, hq, hg, hmem⟩ := hs.parent j d' hd' hne
    have hqi : q ≠ i := by
      rintro rfl
      obtain rfl := Option.some.inj (hdev.symm.trans hg)
      rw [hchildren] at hmem
      cases hmem
    exact ⟨q, _, hpar.trans hq, hkeep hg hqi, (List.mem_erase_of_ne hji).mpr hmem⟩
  case nodup =>
    intro q g hq
    obtain ⟨-, g', hg', -, -, hch⟩ := hback q g hq
    rw [hch]
    exact (hs.nodup q g' hg').erase i
  case children =>
    intro q g hq c hc
    obtain ⟨-, g', hg', -, -, hch⟩ := hback q g hq
    rw [hch] at hc
    have hci : c ≠ i := by
      rintro rfl
      exact (hs.nodup q g' hg').not_mem_erase hc
    obtain ⟨d, hd, hpar⟩ := hs.children q g' hg' c (List.mem_of_mem_erase hc)
    exact ⟨_, hkeep hd hci, hpar⟩

/-- What `device_del` can do in a registry whose links are in order; `u` is the registry
after the search. -/
theorem Linked.deviceDel_cases
    (hs : Linked s)
    (hroot : isDeviceRootHref href = false)
    (h : deviceDel Meanwhile.idle href requesterId s = some (e, t)) :
    ∃ u, Linked u ∧ u.heap = s.heap ∧ u.tab = s.tab ∧ u.dom = s.dom ∧ u.disk = s.disk ∧
      ((e ≠ .success ∧ t = u) ∨
        ∃ i dev, i ≠ deviceRoot ∧ (s.deviceSearch href).1 = some i ∧ u.heap i = some dev ∧
          dev.children = [] ∧ e = .success ∧ t = signedOff i dev u) := by
  obtain ⟨u, hheap, htab, hdom, hdisk, hnext, hcache, hout⟩ := deviceDel_idle_cases h
  have hcacheLive : ∀ x j, some (x, j) ∈ (s.deviceSearch href).2.cache →
      j ≠ deviceRoot ∧ ∃ dev, s.heap j = some dev ∧ dev.href = x := by
    cases hfound : s.deviceSearch href with
    | mk found v =>
        cases found with
        | none =>
            rw [deviceSearch_none hfound]
            exact hs.cacheLive
        | some i =>
            obtain ⟨hv, -⟩ := hs.deviceSearch hfound
            obtain ⟨cache, rfl⟩ := deviceSearch_some hfound
            exact hv.cacheLive
  have hu : Linked u := by
    have hv := @Linked.of_cache s (s.deviceSearch href).2.cache u.refcnt u.sync u.disk hs hcacheLive
    rw [← hcache, ← hheap, ← htab, ← hdom, ← hnext] at hv
    exact hv
  refine ⟨u, hu, hheap, htab, hdom, hdisk, ?_⟩
  rcases hout with hrefused | ⟨i, dev, hfound, hdev, -, hchildren, he, ht⟩
  · exact .inl hrefused
  · have hne : i ≠ deviceRoot := by
      obtain ⟨-, -, -, -, hiff⟩ :=
        hs.deviceSearch (Prod.ext hfound rfl : s.deviceSearch href = (some i, _))
      intro hi
      rw [hiff.mp hi] at hroot
      cases hroot
    exact .inr ⟨i, dev, hne, hfound, hheap ▸ hdev, hchildren, he, ht⟩

/-- Every call of `device_del` for a href below the device root keeps the links. -/
theorem Linked.deviceDel
    (hs : Linked s)
    (hroot : isDeviceRootHref href = false)
    (h : deviceDel Meanwhile.idle href requesterId s = some (e, t)) :
    Linked t := by
  obtain ⟨u, hu, -, -, -, -, hout⟩ := hs.deviceDel_cases hroot h
  rcases hout with ⟨-, rfl⟩ | ⟨i, dev, hne, -, hdev, hchildren, -, rfl⟩
  · exact hu
  · exact hu.signOff hdev hne hchildren

end Del

section Requests

variable {s t : Registry} {e : ErrCode}

/-- A request is refused by its handler, or it is a call for a valid href below the device
root. -/
theorem withHref_cases
    {requesterId : Option Text} {input : Option Xml}
    {k : Text → Xml → Text → Option (ErrCode × Registry)}
    (h : withHref requesterId input s k = some (e, t)) :
    t = s ∨ ∃ id x href, requesterId = some id ∧ input = some x ∧ x.getProp attrHref = some href ∧
      xmlIsValidHref href = true ∧ isDeviceRootHref href = false ∧ k id x href = some (e, t) := by
  unfold withHref at h
  split at h
  · cases h
    exact .inl rfl
  · cases h
    exact .inl rfl
  · split at h
    · cases h
      exact .inl rfl
    · rename_i href hhref
      split at h
      · cases h
        exact .inl rfl
      · rename_i hvalid
        split at h
        · cases h
          exact .inl rfl
        · rename_i hroot
          exact .inr ⟨_, _, href, rfl, rfl, hhref, by simpa using hvalid, by simpa using hroot, h⟩

theorem Linked.request
    {r : Request}
    (hs : Linked s)
    (h : r.run s = some (e, t)) :
    Linked t := by
  cases r with
  | signUp requesterId input faults =>
      rcases withHref_cases h with rfl | ⟨id, x, href, -, -, -, -, -, hadd⟩
      · exact hs
      · exact hs.deviceAdd hadd
  | signOff requesterId input =>
      rcases withHref_cases h with rfl | ⟨id, x, href, -, -, -, -, hroot, hdel⟩
      · exact hs
      · exact hs.deviceDel hroot hdel

/-- The links hold in every registry that requests lead to. -/
theorem Reachable.linked
    {ok : Request → Registry → Prop}
    (hs : Reachable ok s) :
    Linked s := by
  induction hs with
  | start h => exact linked_start h
  | step _ _ h ih => exact ih.request h

end Requests

end Devices
end Obix
