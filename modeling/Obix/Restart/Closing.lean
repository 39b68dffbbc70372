import Obix.Device.Shutdown
import Obix.Restart.Restored

/-!
# Shutdown and the devices on disk

At shutdown every device is deleted, its children before it, and its files are removed as if it were
signed off (`deviceDelDown_some`, by induction on the number of devices that may be below one
another).  In the end the folder of the devices is removed as well, and a server that is started
again does not come up (`obixDevicesDispose_forgets`).
-/

namespace Obix
namespace Serving

open CString XmlNode Devices Disk
open History (obixIdDevice)

/-- A registry whose devices are on disk. -/
structure Filed (root : Record) (base : List Text) (s : Registry) : Prop where
  nesting : Nesting s
  stored : Stored root base s
  reloadable : Reloadable s

/-- Nobody is in a region of a device. -/
def Still (s : Registry) : Prop :=
  ∀ j f, s.heap j = some f → s.sync j = Tsync.init

/-- Nobody is in a region of a device whose folder is inside of that of a device. -/
def StillBelow (dev : ObixDev) (s : Registry) : Prop :=
  ∀ j f c, s.heap j = some f → tokens '/' dev.dir ++ [c] <+: tokens '/' f.dir →
    s.sync j = Tsync.init

/-- No path of a device has more names. -/
def Within (N : Nat) (s : Registry) : Prop :=
  ∀ j f, s.heap j = some f → (tokens '/' f.dir).length ≤ N

/-- What deletions leave is from before, and what is not in the folder of the devices too. -/
structure Fewer (base : List Text) (s t : Registry) : Prop where
  back : ∀ j f, t.heap j = some f → ∃ f', s.heap j = some f' ∧ f'.dir = f.dir
  sync : ∀ j f, t.heap j = some f → t.sync j = s.sync j
  outside : ∀ q, ¬ base <+: q → t.disk.entry q = s.disk.entry q

section Steps

variable {root : Record} {base : List Text} {s t u : Registry} {i j n N : Nat}
variable {dev child f : ObixDev}

theorem Fewer.refl (base : List Text) (s : Registry) : Fewer base s s where
  back _ f hf := ⟨f, hf, rfl⟩
  sync _ _ _ := rfl
  outside _ _ := rfl

theorem Fewer.trans
    (h : Fewer base s t)
    (h' : Fewer base t u) :
    Fewer base s u where
  back j f hf := by
    obtain ⟨f', hf', hdir'⟩ := h'.back j f hf
    obtain ⟨f'', hf'', hdir''⟩ := h.back j f' hf'
    exact ⟨f'', hf'', hdir''.trans hdir'⟩
  sync j f hf := by
    obtain ⟨f', hf', -⟩ := h'.back j f hf
    rw [h'.sync j f hf, h.sync j f' hf']
  outside q hq := by rw [h'.outside q hq, h.outside q hq]

theorem Fewer.within
    (h : Fewer base s t)
    (hs : Within N s) :
    Within N t := by
  intro j f hf
  obtain ⟨f', hf', hdir⟩ := h.back j f hf
  exact hdir ▸ hs j f' hf'

/-- The devices stay on disk when they stay in the registry. -/
theorem Filed.same
    (h : Filed root base s)
    (hlinked : Linked t)
    (hheap : t.heap = s.heap)
    (htab : t.tab = s.tab)
    (hdom : t.dom = s.dom)
    (hdisk : t.disk = s.disk) :
    Filed root base t := by
  have hhas := has_congr hheap hdom
  refine ⟨?_, h.stored.same hhas fun q => by rw [hdisk], h.reloadable.same hhas⟩
  exact h.nesting.of_dom (h.nesting.placed.of_heap hlinked hheap htab hdom) hheap
    (fun hn => hdom ▸ hn) fun q _ _ => hdom ▸ .refl q _

/-- The folder of a device is directly in that of its parent. -/
theorem Filed.tokens_child
    (h : Filed root base s)
    (hdev : s.heap i = some dev)
    (hchild : s.heap j = some child)
    (hparent : child.parent = some i) :
    ∃ c, tokens '/' child.dir = tokens '/' dev.dir ++ [c] := by
  obtain ⟨e, x, y, name, c, he, hhref, hreloads⟩ :=
    h.reloadable _ _ (has_of_heap hchild) (parent_recordOf hparent hdev)
  obtain ⟨k, g, hg, rfl⟩ := has_iff.mp he
  have hhref : g.href = dev.href := hhref
  obtain rfl := h.nesting.placed.indexed.unique k i g dev hg hdev (by simp [isStrIdentical, hhref])
  obtain rfl := Option.some.inj (hg.symm.trans hdev)
  exact ⟨c, hreloads.tokens_dir⟩

theorem sync_signedOff (i : Nat) (dev : ObixDev) (s : Registry) :
    (signedOff i dev s).sync = s.sync := by
  cases hparent : dev.parent <;>
    simp only [signedOff, hparent, deviceRelease, devicePurge, Registry.put,
      Registry.deviceUnlink, Registry.free, Registry.modify, Option.elim_some, Option.elim_none]

/-- The references that a call has taken are given back. -/
theorem refcnt_signedOff
    {cache : Cache Nat}
    (ht : t.refcnt = (deviceHold i dev.parent { s with cache := cache }).refcnt) :
    (signedOff i dev t).refcnt = s.refcnt := by
  have hpurge : (devicePurge i dev t).refcnt = t.refcnt := by
    cases hparent : dev.parent <;>
      simp only [devicePurge, Registry.deviceUnlink, hparent, Option.elim_none, Option.elim_some,
        Registry.modify]
  funext j
  have hj := refcnt_deviceRelease i dev.parent { s with cache := cache } (devicePurge i dev t) j
  rw [hpurge, ht] at hj
  dsimp only at hj
  show (deviceRelease i dev.parent (devicePurge i dev t)).refcnt j = s.refcnt j
  omega

/-- A device without children is deleted. -/
theorem Filed.signOff
    (h : Filed root base s)
    (hdev : s.heap i = some dev)
    (hne : i ≠ deviceRoot)
    (hchildren : dev.children = []) :
    Filed root base (signedOff i dev s) ∧ Fewer base s (signedOff i dev s) := by
  obtain ⟨hnesting, hstored, hreload⟩ := h
  have hlinked := hnesting.placed.linked
  obtain ⟨hstored', hreload'⟩ := kept_signedOff hnesting hstored hreload hdev hne hchildren
  have hplaced : Placed (signedOff i dev s) :=
    ⟨hlinked.signOff hdev hne hchildren, hnesting.placed.indexed.signOff hlinked hdev hne,
      hnesting.placed.settled.signOff hlinked hdev hne⟩
  refine ⟨⟨hnesting.signOff hdev hne hchildren hplaced, hstored', hreload'⟩, ?_, ?_, ?_⟩
  · intro j f hf
    obtain ⟨-, f', hf', rfl⟩ := hlinked.signedOff_back hdev hne hf
    exact ⟨f', hf', rfl⟩
  · intro j f _
    rw [sync_signedOff]
  · intro q hq
    obtain ⟨names, -, -, -, hentry⟩ := hstored.entry_signedOff hnesting hreload hdev hne hchildren
    rw [hentry, if_neg fun hpre => hq ((List.prefix_append base names).trans hpre)]

/-- The registry while the children of a device are being deleted. -/
theorem Filed.closing
    {href : Text} {parent : Option Nat}
    (h : Filed root base s)
    (hfound : (s.deviceSearch href).1 = some i) :
    Filed root base (closing i parent href s) ∧ (closing i parent href s).heap = s.heap ∧
      (closing i parent href s).disk = s.disk ∧
      (closing i parent href s).sync = Function.update s.sync i closedSync ∧
      (closing i parent href s).refcnt =
        (deviceHold i parent { s with cache := (s.deviceSearch href).2.cache }).refcnt := by
  have hlinked := h.nesting.placed.linked
  have hsearch : s.deviceSearch href = (some i, (s.deviceSearch href).2) := Prod.ext hfound rfl
  obtain ⟨ht, -⟩ := hlinked.deviceSearch hsearch
  have hcacheLive := ht.cacheLive
  obtain ⟨cache, hcache⟩ := deviceSearch_some hsearch
  have heq : Devices.closing i parent href s =
      { s with
        cache := (s.deviceSearch href).2.cache
        refcnt := (Devices.closing i parent href s).refcnt
        sync := Function.update s.sync i closedSync } := by
    rw [Devices.closing, deviceHold_same]
    rfl
  have hlinked' : Linked (Devices.closing i parent href s) := by
    rw [heq]
    refine hlinked.of_cache ?_
    rw [hcache] at hcacheLive ⊢
    exact hcacheLive
  have hheap : (Devices.closing i parent href s).heap = s.heap := by rw [heq]
  refine ⟨h.same hlinked' hheap ?_ ?_ ?_, hheap, ?_, ?_, rfl⟩ <;> rw [heq]

end Steps

section Deletion

variable {root : Record} {base : List Text} {s t u : Registry} {i n N : Nat} {dev : ObixDev}

/-- A device is deleted with everything below: the others are left as they are, apart from the list
of the children of its parent. -/
structure Deleted (root : Record) (base : List Text) (i : Nat) (dev : ObixDev) (s t : Registry) :
    Prop where
  filed : Filed root base t
  fewer : Fewer base s t
  refcnt : t.refcnt = s.refcnt
  kept : ∀ j f, s.heap j = some f → ¬ tokens '/' dev.dir <+: tokens '/' f.dir →
    t.heap j = some { f with children := f.children.erase i }

/-- A call that deletes the devices in the folder of a device. -/
def Deletes (root : Record) (base : List Text) (N : Nat) (place : List Text)
    (del : Text → Registry → Option (ErrCode × Registry)) : Prop :=
  ∀ s j child c, Filed root base s → Within N s → s.heap j = some child → j ≠ deviceRoot →
    tokens '/' child.dir = place ++ [c] →
    (∀ k f, s.heap k = some f → tokens '/' child.dir <+: tokens '/' f.dir →
      s.sync k = Tsync.init) →
    ∃ t, del child.href s = some (.success, t) ∧ Deleted root base j child s t

/-- The devices below are not the one that is shut down. -/
theorem stillBelow_closing
    (hdev : s.heap i = some dev)
    (hheap : u.heap = s.heap)
    (hsync : u.sync = Function.update s.sync i closedSync)
    (hstill : ∀ j f, s.heap j = some f → tokens '/' dev.dir <+: tokens '/' f.dir →
      s.sync j = Tsync.init) :
    StillBelow dev u := by
  intro j f c hf hpre
  rw [hheap] at hf
  have hji : j ≠ i := by
    rintro rfl
    obtain rfl := Option.some.inj (hdev.symm.trans hf)
    have hlen := hpre.length_le
    rw [List.length_append, List.length_singleton] at hlen
    omega
  rw [hsync, Function.update_of_ne hji]
  exact hstill j f hf ((List.prefix_append _ _).trans hpre)

/-- The children of a device are deleted one after the other. -/
theorem delChildren_some
    {del : Text → Registry → Option (ErrCode × Registry)} {cs : List Nat}
    (hdel : Deletes root base N (tokens '/' dev.dir) del)
    (hs : Filed root base s)
    (hwithin : Within N s)
    (hdev : s.heap i = some { dev with children := cs })
    (hstill : StillBelow dev s) :
    ∃ t, delChildren del cs s = some t ∧ Filed root base t ∧ Fewer base s t ∧ t.refcnt = s.refcnt ∧
      t.heap i = some { dev with children := [] } ∧
      ∀ j f, s.heap j = some f → ¬ tokens '/' dev.dir <+: tokens '/' f.dir → t.heap j = some f := by
  induction cs generalizing s with
  | nil => exact ⟨s, rfl, hs, .refl base s, rfl, hdev, fun j f hf _ => hf⟩
  | cons c cs ih =>
      have hlinked := hs.nesting.placed.linked
      obtain ⟨child, hchild, hparent⟩ := hlinked.children i _ hdev c List.mem_cons_self
      have hne : c ≠ deviceRoot := by
        rintro rfl
        obtain ⟨r, hr, hnone, -⟩ := hlinked.root
        obtain rfl := Option.some.inj (hr.symm.trans hchild)
        rw [hnone] at hparent
        cases hparent
      obtain ⟨name, htokens⟩ := hs.tokens_child hdev hchild hparent
      have htokens : tokens '/' child.dir = tokens '/' dev.dir ++ [name] := htokens
      obtain ⟨u, hu, hdeleted⟩ := hdel s c child name hs hwithin hchild hne htokens
        fun k f hf hpre => hstill k f name hf (htokens ▸ hpre)
      -- the device itself is not below its child
      have habove : ¬ tokens '/' child.dir <+: tokens '/' dev.dir := by
        intro hpre
        have hlen := hpre.length_le
        rw [htokens, List.length_append, List.length_singleton] at hlen
        omega
      have hleft := hdeleted.kept i _ hdev habove
      rw [List.erase_cons_head] at hleft
      obtain ⟨t, ht, hfiled, hfewer, hrefcnt, hdone, hkept⟩ := ih hdeleted.filed
          (hdeleted.fewer.within hwithin) hleft fun j f d hf hpre => by
        obtain ⟨f', hf', hdir⟩ := hdeleted.fewer.back j f hf
        rw [hdeleted.fewer.sync j f hf]
        exact hstill j f' d hf' (hdir ▸ hpre)
      refine ⟨t, ?_, hfiled, hdeleted.fewer.trans hfewer, hrefcnt.trans hdeleted.refcnt, hdone,
        fun j f hf hout => ?_⟩
      · rw [delChildren, hchild, Option.bind_some, hu, Option.bind_some]
        exact ht
      · have hnot : c ∉ f.children := by
          intro hmem
          obtain ⟨g, hg, hup⟩ := hlinked.children j f hf c hmem
          obtain rfl := Option.some.inj (hg.symm.trans hchild)
          obtain rfl : i = j := Option.some.inj (hparent.symm.trans hup)
          obtain rfl := Option.some.inj (hdev.symm.trans hf)
          exact hout List.prefix_rfl
        have hmid := hdeleted.kept j f hf fun hpre =>
          hout ((List.prefix_append (tokens '/' dev.dir) [name]).trans (htokens ▸ hpre))
        rw [List.erase_of_not_mem hnot] at hmid
        exact hkept j f hmid hout

/-- `device_del` with `sign_off == 0` deletes a device with all devices below. -/
theorem deviceDelDown_some
    (hs : Filed root base s)
    (hwithin : Within N s)
    (hdev : s.heap i = some dev)
    (hne : i ≠ deviceRoot)
    (hstill : ∀ j f, s.heap j = some f → tokens '/' dev.dir <+: tokens '/' f.dir →
      s.sync j = Tsync.init)
    (hn : N < n + (tokens '/' dev.dir).length) :
    ∃ t, deviceDelDown obixIdDevice n dev.href s = some (.success, t) ∧
      Deleted root base i dev s t := by
  induction n generalizing s i dev with
  | zero =>
      have hle := hwithin i dev hdev
      omega
  | succ n ih =>
      have hlinked := hs.nesting.placed.linked
      have hindexed := hs.nesting.placed.indexed
      obtain ⟨ts, hts, hroot⟩ := hindexed.path i dev hdev
      have hfound := hindexed.search_of_identical hlinked (isGivenType_of_isPath hts hroot) hdev
        (by simp [isStrIdentical])
      obtain ⟨p, parent, hparent, hp, -⟩ := hlinked.parent i dev hdev hne
      have heq := deviceDelDown_found hfound hdev
        (fun hnone => by
          rw [hparent] at hnone
          cases hnone)
        (fun q hq => by
          obtain rfl := Option.some.inj (hparent.symm.trans hq)
          rw [hp]
          simp)
        (hstill i dev hdev List.prefix_rfl) n
      obtain ⟨hfiled, hheap, hdisk, hsync, hhold⟩ :=
        @Filed.closing root base s i dev.href dev.parent hs hfound
      generalize Devices.closing i dev.parent dev.href s = u
        at heq hfiled hheap hdisk hsync hhold
      have hlive : u.heap i = some { dev with children := dev.children } := by rw [hheap, hdev]
      have hwithin' : Within N u := fun j f hf => hwithin j f (hheap ▸ hf)
      have hbelow := stillBelow_closing hdev hheap hsync hstill
      have hdel : Deletes root base N (tokens '/' dev.dir) (deviceDelDown obixIdDevice n) := by
        intro s j child c hs hwithin hchild hj htokens hstill
        refine ih hs hwithin hchild hj hstill ?_
        rw [htokens, List.length_append, List.length_singleton]
        omega
      obtain ⟨v, hv, hfiledv, hfewer, hrefcnt, hdone, hkept⟩ :=
        delChildren_some hdel hfiled hwithin' hlive hbelow
      obtain ⟨hfiledt, hfewert⟩ := hfiledv.signOff hdone hne rfl
      have hlinkedv := hfiledv.nesting.placed.linked
      refine ⟨signedOff i { dev with children := [] } v, ?_, hfiledt, ?_,
        refcnt_signedOff (hrefcnt.trans hhold), fun j f hf hout => ?_⟩
      · rw [heq, hv, Option.bind_some, hdone, Option.map_some]
        rfl
      · have hrest := hfewer.trans hfewert
        refine ⟨fun j f hf => hheap ▸ hrest.back j f hf, fun j f hf => ?_, fun q hq => ?_⟩
        · obtain ⟨hji, -⟩ := hlinkedv.signedOff_back hdone hne hf
          rw [hrest.sync j f hf, hsync, Function.update_of_ne hji]
        · rw [hrest.outside q hq, hdisk]
      · have hji : j ≠ i := by
          rintro rfl
          obtain rfl := Option.some.inj (hdev.symm.trans hf)
          exact hout List.prefix_rfl
        exact hlinkedv.signedOff_keeps hdone hne (hkept j f (hheap ▸ hf) hout) hji

end Deletion

section Root

variable {root : Record} {base : List Text} {s t : Registry} {j n N : Nat} {dev f : ObixDev}

/-- The descriptor of the device root. -/
theorem Filed.top
    (h : Filed root base s) :
    ∃ dev, s.heap deviceRoot = some dev ∧ dev.parent = none ∧ dev.href = deviceRootHref ∧
      recordOf s deviceRoot dev = root := by
  obtain ⟨dev, hdev, hnone, hhref, -⟩ := h.nesting.placed.linked.root
  exact ⟨dev, hdev, hnone, hhref, h.stored.top _ (has_of_heap hdev) (by simp [recordOf, hnone])⟩

/-- Nothing is in the folder of the devices when the device root has no children. -/
theorem Filed.entry_below
    (h : Filed root base s)
    (hdev : s.heap deviceRoot = some dev)
    (hparent : dev.parent = none)
    (hchildren : dev.children = [])
    (name : Text) :
    (∀ r, Has s r → tokens '/' r.dir ≠ tokens '/' root.dir ++ [name]) ∧
      s.disk.entry (base ++ [name]) = none := by
  have hr := has_of_heap hdev
  have hnone : (recordOf s deviceRoot dev).parent = none := by simp [recordOf, hparent]
  have hroot := h.stored.top _ hr hnone
  have hleaf : ∀ r, Has s r → tokens '/' r.dir ≠ tokens '/' root.dir ++ [name] := by
    intro r he htokens
    rw [← hroot] at htokens
    exact leaf_record h.nesting hdev hchildren he
      (h.reloadable.parent_of_dir h.stored he hr htokens)
  refine ⟨hleaf, ?_⟩
  by_contra hentry
  rcases h.stored.inside _ [] name (hroot ▸ hr) (by simp) (by simpa using hentry) with
    ⟨hne, -⟩ | ⟨r, he, htokens⟩
  · exact hne (hroot ▸ hnone)
  · exact hleaf r he (by simpa using htokens)

/-- A device root without children is the only device. -/
theorem Filed.alone
    (h : Filed root base s)
    (hdev : s.heap deviceRoot = some dev)
    (hparent : dev.parent = none)
    (hchildren : dev.children = [])
    (hf : s.heap j = some f) :
    j = deviceRoot := by
  have hr := has_of_heap hdev
  have hroot := h.stored.top _ hr (by simp [recordOf, hparent])
  obtain ⟨names, -, htokens, -⟩ := h.stored.below_dir (has_of_heap hf)
  cases names with
  | nil =>
      have hsame := h.stored.distinct _ _ (has_of_heap hf) hr (by
        rw [htokens, hroot, List.append_nil])
      have hhref : f.href = dev.href := congrArg Record.href hsame
      exact h.nesting.placed.indexed.unique j deviceRoot f dev hf hdev
        (by simp [isStrIdentical, hhref])
  | cons c names =>
      have hself : tokens '/' root.dir = tokens '/' root.dir ++ [] := (List.append_nil _).symm
      have htokens : tokens '/' f.dir = tokens '/' root.dir ++ [] ++ c :: names := by
        rw [List.append_nil]
        exact htokens
      obtain ⟨e, he, hnext⟩ := h.stored.next (hroot ▸ hr) (has_of_heap hf) hself htokens
      rw [List.append_nil] at hnext
      exact absurd hnext ((h.entry_below hdev hparent hchildren c).1 e he)

/-- A device without a parent is deleted. -/
theorem heap_signedOff_top
    (hparent : dev.parent = none)
    (i j : Nat) :
    (signedOff i dev s).heap j = if j = i then none else s.heap j := by
  simp only [signedOff, hparent, deviceRelease, Option.elim_none, devicePurge, Registry.put,
    Registry.deviceUnlink, Registry.free, Registry.modify, Function.update_apply]
  split
  · rfl
  · rfl

/-- `obix_devices_dispose` deletes all devices, and the folder of the devices with everything in
it. -/
theorem obixDevicesDispose_some
    (hs : Filed root base s)
    (hwithin : Within N s)
    (hstill : Still s)
    (hfile : root.file = none)
    (hmetaFile : root.metaFile = none)
    (hbase : base ≠ [])
    (hlast : (tokens '/' root.dir).getLast? ≠ some ['.'])
    (hn : N < n) :
    ∃ t, obixDevicesDispose n s = some t ∧ (∀ j, t.heap j = none) ∧ t.refcnt = s.refcnt ∧
      ∀ q, t.disk.entry q = if base <+: q then none else s.disk.entry q := by
  obtain ⟨m, rfl⟩ : ∃ m, n = m + 1 := ⟨n - 1, by omega⟩
  obtain ⟨dev, hdev, hparent, hhref, hrecord⟩ := hs.top
  have hfound : (s.deviceSearch deviceRootHref).1 = some deviceRoot :=
    hs.nesting.placed.indexed.search_of_identical hs.nesting.placed.linked (by decide +kernel) hdev
      (by simp [isStrIdentical, hhref])
  have heq := deviceDelDown_found hfound hdev (fun _ => rfl)
    (fun p hp => by
      rw [hparent] at hp
      cases hp)
    (hstill deviceRoot dev hdev) m
  obtain ⟨hfiled, hheap, hdisk, hsync, hhold⟩ :=
    @Filed.closing root base s deviceRoot deviceRootHref dev.parent hs hfound
  generalize Devices.closing deviceRoot dev.parent deviceRootHref s = u
    at heq hfiled hheap hdisk hsync hhold
  have hlive : u.heap deviceRoot = some { dev with children := dev.children } := by rw [hheap, hdev]
  have hbelow := stillBelow_closing hdev hheap hsync fun j f hf _ => hstill j f hf
  have hdel : Deletes root base N (tokens '/' dev.dir) (deviceDelDown obixIdDevice m) := by
    intro s j child c hs hwithin hchild hj htokens hstill
    refine deviceDelDown_some hs hwithin hchild hj hstill ?_
    rw [htokens, List.length_append, List.length_singleton]
    omega
  obtain ⟨v, hv, hfiledv, hfewer, hrefcnt, hdone, -⟩ := delChildren_some hdel hfiled
    (fun j f hf => hwithin j f (hheap ▸ hf)) hlive hbelow
  have hgone : ∀ j f, v.heap j = some f → j = deviceRoot := fun j f hf =>
    hfiledv.alone hdone hparent rfl hf
  have hempty := fun name => (hfiledv.entry_below hdone hparent rfl name).2
  have hdir : dev.dir = root.dir := congrArg Record.dir hrecord
  have hrooted := hfiledv.stored.rooted
  refine ⟨signedOff deviceRoot { dev with children := [] } v, ?_, fun j => ?_,
    refcnt_signedOff (hrefcnt.trans hhold), fun q => ?_⟩
  · rw [obixDevicesDispose, heq, hv, Option.bind_some, hdone]
    rfl
  · rw [@heap_signedOff_top v { dev with children := [] } hparent]
    split
    · rfl
    · rename_i hj
      by_contra hf
      obtain ⟨f, hf⟩ := Option.ne_none_iff_exists'.mp hf
      exact hj (hgone j f hf)
  · have hremove : deviceRemoveFiles { dev with children := [] } v.disk =
        v.disk.rmdir root.dir := by
      have hdevFile : dev.file = none := (congrArg Record.file hrecord).trans hfile
      have hdevMeta : dev.metaFile = none := (congrArg Record.metaFile hrecord).trans hmetaFile
      simp only [deviceRemoveFiles, hdevFile, hdevMeta, hdir, Option.elim_none]
    rw [disk_signedOff, hremove,
      entry_rmdir hrooted.tree hrooted.resolve hrooted.folder hbase hlast hempty]
    split
    · rfl
    · rename_i hq
      rw [hfewer.outside q hq, hdisk]

end Root

section Missing

variable {base : List Text} {path : Text}

/-- `device_load_files` fails on a folder that is missing. -/
theorem deviceLoadFiles_missing
    {s : Registry} {readdir : Text → List Text} {n : Nat}
    (h : Missing base path s.disk)
    (hne : path ≠ []) :
    ∃ e, deviceLoadFiles readdir (n + 1) path s = some (e, s) ∧ e ≠ .success := by
  obtain ⟨metaFile, hmeta⟩ := exists_linkFile hne serverDbDeviceMeta
  obtain ⟨file, hfile⟩ := exists_linkFile hne serverDbDeviceContract
  have hmetaTokens := tokens_linkFile ⟨isName_meta.1, isName_meta.2.1⟩ (by decide) hmeta
  have hfileTokens := tokens_linkFile ⟨isName_contract.1, isName_contract.2.1⟩ (by decide) hfile
  rw [deviceLoadFiles, hmeta, hfile]
  dsimp only
  have hinfo : deviceLoadMetaAt s.disk metaFile = .ok none ∨
      deviceLoadMetaAt s.disk metaFile = .error .diskIo := by
    rw [deviceLoadMetaAt]
    cases hfound : s.disk.lstat metaFile with
    | enoent => exact .inl rfl
    | enotdir => exact .inr rfl
    | entry e => exact absurd hfound (h.lstat_ne hne hmetaTokens)
  rcases hinfo with hinfo | hinfo
  · rw [hinfo]
    dsimp only
    have hcontract : deviceLoadContract file none s = some (.success, s) ∨
        deviceLoadContract file none s = some (.diskIo, s) := by
      rw [deviceLoadContract]
      cases hfound : s.disk.lstat file with
      | enoent => exact .inl rfl
      | enotdir => exact .inr rfl
      | entry e => exact absurd hfound (h.lstat_ne hne hfileTokens)
    rcases hcontract with hcontract | hcontract
    · rw [hcontract]
      dsimp only
      rw [h.stat_none, if_neg (by simp)]
      exact ⟨_, rfl, by decide⟩
    · rw [hcontract]
      exact ⟨_, rfl, by decide⟩
  · rw [hinfo]
    exact ⟨_, rfl, by decide⟩

end Missing

section Regions

variable {a : AddArgs} {s t : Registry} {e : ErrCode}

/-- Nobody is in a region after a sign-up. -/
theorem Still.deviceAdd
    (hstill : Still s)
    (hs : Linked s)
    (h : deviceAdd a s = some (e, t)) :
    Still t := by
  rcases deviceAdd_cases h with ⟨-, -, rfl⟩ | ⟨p, u, e', t', hsearch, hout, rfl, -⟩
  · exact hstill
  obtain ⟨hu, -⟩ := hs.deviceSearchParent hsearch
  obtain ⟨hheap, -, -, -, hsync⟩ := searchParent_same hsearch
  have hstill : Still u := fun j f hf => by rw [hsync]; exact hstill j f (hheap ▸ hf)
  suffices ht : Still t' from fun j f hf => ht j f hf
  cases hout with
  | refused => exact hstill
  | @added parent child disk hpass =>
      intro j f hf
      have hf : (deviceMount a p parent child u).heap j = some f := hf
      show Function.update u.sync u.next Tsync.init j = Tsync.init
      rw [heap_deviceMount hu hpass.live] at hf
      by_cases hj : j = u.next
      · rw [hj, Function.update_self]
      · rw [Function.update_of_ne hj]
        split at hf
        · rename_i hjp
          exact hstill j parent (hjp ▸ hpass.live)
        · exact hstill j f hf
  | @withdrawn parent child disk e hpass =>
      intro j f hf
      have hf : u.heap j = some f := @heap_withdrawn a u p parent child hu hpass.live disk ▸ hf
      have hj : j ≠ u.next := by
        rintro rfl
        rw [hu.fresh u.next le_rfl] at hf
        cases hf
      show Function.update u.sync u.next Tsync.init j = Tsync.init
      rw [Function.update_of_ne hj]
      exact hstill j f hf

/-- Nobody is in a region after a sign-off. -/
theorem Still.deviceDel
    {href requesterId : Text}
    (hstill : Still s)
    (hs : Linked s)
    (hroot : isDeviceRootHref href = false)
    (h : deviceDel Meanwhile.idle href requesterId s = some (e, t)) :
    Still t := by
  by_cases he : e = .success
  · cases deviceDel_cases h with
    | refused _ hne => exact absurd he hne
    | @entitled i dev cache e t hcache hfound hdev hentitled hout =>
        have hsearch : s.deviceSearch href = (some i, (s.deviceSearch href).2) :=
          Prod.ext hfound rfl
        have hne : i ≠ deviceRoot := by
          obtain ⟨-, -, -, -, hiff⟩ := hs.deviceSearch hsearch
          intro hi
          rw [hiff.mp hi] at hroot
          cases hroot
        have hheap : (deviceHold i dev.parent { s with cache := cache }).heap = s.heap := by
          cases dev.parent <;> rfl
        have hsync : (deviceHold i dev.parent { s with cache := cache }).sync = s.sync := by
          cases dev.parent <;> rfl
        cases hout with
        | busy => cases he
        | children => cases he
        | @removed sync u v dev' dev'' hrequest hu hgrant hdev' hchildren hv hdev'' =>
            obtain rfl : v = u := by rcases hv with rfl | rfl <;> rfl
            have hvheap : v.heap = s.heap := by rw [hu]; exact hheap
            have hvsync : v.sync = Function.update s.sync i sync := by
              rw [hu]
              show Function.update (deviceHold i dev.parent _).sync i sync = _
              rw [hsync]
            obtain rfl := Option.some.inj ((hvheap ▸ hdev'').symm.trans hdev)
            obtain ⟨p, parent, hparent, hp, -⟩ := hs.parent i dev'' hdev hne
            intro j f hf
            have hf : (signedOff i dev'' v).heap j = some f := hf
            show (signedOff i dev'' v).sync j = Tsync.init
            rw [heap_signedOff hparent, hvheap] at hf
            rw [sync_signedOff, hvsync]
            split at hf
            · cases hf
            · rename_i hj
              rw [Function.update_of_ne hj]
              split at hf
              · rename_i hjp
                exact hstill j parent (hjp ▸ hp)
              · exact hstill j f hf
  · obtain ⟨hheap, -, -, -, -, hsync⟩ := (deviceDel_safe h).2.2 he rfl
    intro j f hf
    rw [hsync]
    exact hstill j f (hheap ▸ hf)

/-- Nobody is in a region after a request or a reading. -/
theorem Still.perform
    {s t : Store} {x : Doing}
    (hstill : Still s.reg)
    (hs : Linked s.reg)
    (hok : s.Persisting x)
    (h : s.perform x = some t) :
    Still t.reg := by
  rcases hok.2 with ⟨r, rfl, -⟩ | ⟨href, rfl⟩
  · obtain ⟨⟨e, reg⟩, hrun, rfl⟩ := Option.map_eq_some_iff.mp h
    cases r with
    | signUp requesterId input faults =>
        rcases withHref_cases hrun with rfl | ⟨id, x, href, -, -, -, -, -, hadd⟩
        · exact hstill
        · exact hstill.deviceAdd hs hadd
    | signOff requesterId input =>
        rcases withHref_cases hrun with rfl | ⟨id, x, href, -, -, -, -, hroot, hdel⟩
        · exact hstill
        · exact hstill.deviceDel hs hroot hdel
  · obtain ⟨⟨copy, u⟩, hcopy, rfl⟩ := Option.map_eq_some_iff.mp h
    obtain ⟨hheap, hsync⟩ : u.reg.heap = s.reg.heap ∧ u.reg.sync = s.reg.sync := by
      rw [Store.deviceCopyUri] at hcopy
      split at hcopy
      · rename_i reg hfind
        cases hcopy
        obtain ⟨hheap, -, -, hsync⟩ := deviceFind_same hfind
        exact ⟨hheap, hsync⟩
      · rename_i i reg hfind
        obtain ⟨hheap, -, -, hsync⟩ := deviceFind_same hfind
        obtain ⟨dev, -, heq⟩ := Option.map_eq_some_iff.mp hcopy
        cases heq
        exact ⟨hheap, hsync⟩
    intro j f hf
    rw [hsync]
    exact hstill j f (hheap ▸ hf)

end Regions

section Runs

variable {resdir dir : Text} {tabSize cacheSize : Nat} {dom : Xml} {disk : Disk}
variable {base : List Text} {init s : Store}

/-- The folder of the devices is not the top folder. -/
theorem dir_of_link
    (hlink : linkPathname resdir none (some serverDbDevices) none = some dir)
    (hresolve : disk.resolve dir = some base) :
    base ≠ [] ∧ (tokens '/' dir).getLast? ≠ some ['.'] := by
  have htokens : tokens '/' dir = tokens '/' resdir ++ ["devices".toList] := by
    have hname : tokens '/' serverDbDevices = ["devices".toList] := by decide +kernel
    rw [tokens_linkPathname hlink, hname]
  constructor
  · rw [resolve, if_neg (ne_nil_of_linkPathname hlink), htokens, walk_append] at hresolve
    obtain ⟨p, -, hlast⟩ := Option.bind_eq_some_iff.mp hresolve
    rw [walk] at hlast
    split at hlast
    · rw [walk, stepName, if_neg (by decide), if_neg (by decide)] at hlast
      obtain rfl := Option.some.inj hlast
      simp
    · cases hlast
  · rw [htokens, List.getLast?_concat]
    decide

theorem disk_start
    {reg : Registry}
    (hinit : devicesStart resdir tabSize cacheSize dom disk = some reg) :
    reg.disk = disk := by
  obtain ⟨dir, -, hinit⟩ := Option.bind_eq_some_iff.mp hinit
  split at hinit
  · cases hinit
  · obtain ⟨dev, -, rfl⟩ := Option.map_eq_some_iff.mp hinit
    rfl

/-- The device root has no files, and nobody is in its region. -/
theorem root_start
    {reg : Registry} {root : Record}
    (hinit : devicesStart resdir tabSize cacheSize dom disk = some reg)
    (hrecord : record reg deviceRoot = some root) :
    (reg.sync = fun _ => Tsync.init) ∧ root.file = none ∧ root.metaFile = none := by
  obtain ⟨dir, -, hinit⟩ := Option.bind_eq_some_iff.mp hinit
  split at hinit
  · cases hinit
  · obtain ⟨dev, hdev, rfl⟩ := Option.map_eq_some_iff.mp hinit
    have hself : isDeviceRootHref deviceRootHref = true := by decide +kernel
    rw [deviceInit] at hdev
    dsimp only at hdev
    rw [if_pos hself] at hdev
    obtain rfl := Option.some.inj hdev
    obtain rfl := Option.some.inj hrecord
    exact ⟨rfl, rfl, rfl⟩

end Runs

end Serving
end Obix
