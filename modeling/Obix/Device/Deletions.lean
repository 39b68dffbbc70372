import Obix.Device.Lookup
import Obix.Lib.Occupancy

/-!
# Searches and deletions of devices at the same time

`device_search` and `device_del` from any number of threads.  A step is one operation on the
cache, the hash table, a reference count or a shutdown flag.  A search that found its device in
the hash table puts it into the cache in a step of its own, and by then `device_del` may have
cleared the cache of it: the slot then refers to a freed descriptor.  As long as that does not
happen, a device is in no slot and found by nobody once `device_del` has returned
(`deleted_not_found`).

The recursive calls of `device_del` for the children at the end of the server are calls of
their own, and the accesses to the regions of a device are left out.
-/

namespace Obix
namespace Devices

open CString
open History (seLookup opDeviceRemove opDeviceDelete)

namespace Registry

variable (s : Registry)

/-- `__device_purge` up to `hash_del`. -/
def hashDel (i : Nat) (dev : ObixDev) : Registry :=
  { s with
    dom := s.dom.removeOwn i
    disk := deviceRemoveFiles dev s.disk
    tab := s.tab.del deviceComputeHash s.compareStr dev.href }

/-- `__device_unlink` from `cache_invalidate` on. -/
def cacheInvalidate (i : Nat) (dev : ObixDev) : Registry :=
  let s : Registry := { s with cache := s.cache.invalidate dev.href }
  let s := dev.parent.elim s fun p =>
    s.modify p fun parent => { parent with children := parent.children.erase i }
  s.modify i fun dev => { dev with parent := none }

/-- The steps of `device_del` are those of the call as a whole. -/
theorem cacheInvalidate_hashDel
    (i : Nat)
    (dev : ObixDev) :
    (s.hashDel i dev).cacheInvalidate i dev = devicePurge i dev s := by
  cases hparent : dev.parent <;>
    simp only [cacheInvalidate, hashDel, devicePurge, deviceUnlink, hparent, Option.elim_none,
      Option.elim_some, modify]

end Registry

/-- What a device is searched for. -/
inductive Purpose
  | use
  | delete (a : DelArgs)
  deriving DecidableEq, Repr

/-- A call. -/
inductive DeviceCall
  | search (href : Text)
  | del (a : DelArgs)
  deriving DecidableEq, Repr

/-- Where a call is. -/
inductive DevicePc
  | idle
  | cacheSearch (k : Purpose) (href : Text)
  | hashSearch (k : Purpose) (href : Text)
  /-- At `cache_update` of `device_search`. -/
  | cacheUpdate (k : Purpose) (i : Nat)
  /-- `device_search` has returned a descriptor. -/
  | found (k : Purpose) (i : Nat)
  /-- At `tsync_shutdown_entry` of `device_del`. -/
  | permitted (a : DelArgs) (i : Nat) (parent : Option Nat)
  /-- Waiting for exclusive access, then at the test for children. -/
  | closing (a : DelArgs) (i : Nat) (parent : Option Nat)
  | unlinking (i : Nat) (parent : Option Nat)
  | invalidating (i : Nat) (parent : Option Nat)
  /-- Giving references back, and then disposing of a device. -/
  | leaving (refs : List Nat) (dead : Option Nat)
  deriving DecidableEq, Repr

/-- The registry and the calls; devices are `purged` from `cache_invalidate` on and `deleted`
when `device_del` has returned. -/
structure DeviceCalls (ι : Type) where
  reg : Registry
  pc : ι → DevicePc
  purged : List Nat
  deleted : List Nat

namespace DeviceCalls

variable {ι : Type} [DecidableEq ι]

/-- No call is being made. -/
def init (reg : Registry) : DeviceCalls ι :=
  { reg := reg, pc := fun _ => .idle, purged := [], deleted := [] }

variable (s : DeviceCalls ι)

def goto (t : ι) (p : DevicePc) (reg : Registry) : DeviceCalls ι :=
  { s with reg := reg, pc := Function.update s.pc t p }

/-- `device_search` up to `cache_search`. -/
def stepCacheSearch (t : ι) (k : Purpose) (href : Text) : DeviceCalls ι :=
  if isGivenType href = false then s.goto t (.leaving [] none) s.reg
  else if isDeviceRootHref href then s.goto t (.found k deviceRoot) (s.reg.get deviceRoot)
  else
    match s.reg.cache.search href with
    | (some i, cache) => s.goto t (.found k i) (({ s.reg with cache := cache }).get i)
    | (none, _) => s.goto t (.hashSearch k href) s.reg

def stepHashSearch (t : ι) (k : Purpose) (href : Text) : DeviceCalls ι :=
  match s.reg.tab.search deviceComputeHash s.reg.compareStr href with
  | none => s.goto t (.leaving [] none) s.reg
  | some i => s.goto t (.cacheUpdate k i) (s.reg.get i)

/-- The permissions that `device_del` asks for. -/
def stepPermissions (t : ι) (a : DelArgs) (i : Nat) : Option (DeviceCalls ι) :=
  (s.reg.heap i).bind fun dev =>
    if seLookup a.requesterId dev.ownerId opDeviceDelete = false then
      some (s.goto t (.leaving [i] none) s.reg)
    else
      match dev.parent with
      | none =>
          if i = deviceRoot then some (s.goto t (.permitted a i none) s.reg)
          else some (s.goto t (.leaving [i] none) s.reg)
      | some p =>
          (s.reg.heap p).map fun parent =>
            if seLookup a.requesterId parent.ownerId opDeviceRemove = false then
              s.goto t (.leaving [p, i] none) (s.reg.get p)
            else s.goto t (.permitted a i (some p)) (s.reg.get p)

/-- `tsync_shutdown_entry` of `device_del` up to its waiting loop. -/
def stepShutdown (t : ι) (a : DelArgs) (i : Nat) (parent : Option Nat) : DeviceCalls ι :=
  match (s.reg.sync i).shutdownRequest with
  | none => s.goto t (.leaving (parent.toList ++ [i]) none) s.reg
  | some sync =>
      s.goto t (.closing a i parent) { s.reg with sync := Function.update s.reg.sync i sync }

/-- The test for children. -/
def stepChildren (t : ι) (a : DelArgs) (i : Nat) (parent : Option Nat) : Option (DeviceCalls ι) :=
  if (s.reg.sync i).shutdownGrant.isNone then none
  else
    (s.reg.heap i).map fun dev =>
      if dev.children ≠ [] ∧ a.signOff = true then
        s.goto t (.leaving (parent.toList ++ [i]) none)
          { s.reg with sync := Function.update s.reg.sync i (s.reg.sync i).shutdownRevoke }
      else s.goto t (.unlinking i parent) s.reg

/-- The next step of a call. -/
def advance (t : ι) : Option (DeviceCalls ι) :=
  match s.pc t with
  | .idle => none
  | .cacheSearch k href => some (s.stepCacheSearch t k href)
  | .hashSearch k href => some (s.stepHashSearch t k href)
  | .cacheUpdate k i =>
      (s.reg.heap i).map fun dev =>
        s.goto t (.found k i) { s.reg with cache := s.reg.cache.update dev.href i }
  | .found .use i => some (s.goto t .idle (s.reg.put i))
  | .found (.delete a) i => s.stepPermissions t a i
  | .permitted a i parent => some (s.stepShutdown t a i parent)
  | .closing a i parent => s.stepChildren t a i parent
  | .unlinking i parent =>
      (s.reg.heap i).map fun dev => s.goto t (.invalidating i parent) (s.reg.hashDel i dev)
  | .invalidating i parent =>
      (s.reg.heap i).map fun dev =>
        { s.goto t (.leaving (parent.toList ++ [i]) (some i)) (s.reg.cacheInvalidate i dev) with
          purged := i :: s.purged }
  | .leaving (j :: refs) dead => some (s.goto t (.leaving refs dead) (s.reg.put j))
  | .leaving [] none => some (s.goto t .idle s.reg)
  | .leaving [] (some i) =>
      -- `refcnt_sync`
      if 0 < s.reg.refcnt i then none
      else some { s.goto t .idle (s.reg.free i) with deleted := i :: s.deleted }

/-- A call begins, or goes on. -/
def step (x : ι × Option DeviceCall) : Option (DeviceCalls ι) :=
  match x.2 with
  | none => s.advance x.1
  | some call =>
      if s.pc x.1 = .idle then
        match call with
        | .search href => some (s.goto x.1 (.cacheSearch .use href) s.reg)
        | .del a => some (s.goto x.1 (.cacheSearch (.delete a) a.href) s.reg)
      else none

/-- The device root stays, and no device is put into the cache after `cache_invalidate` has
been called for it. -/
def timely (x : ι × Option DeviceCall) : Bool :=
  match x.2, s.pc x.1 with
  | some (.del a), _ => !isDeviceRootHref a.href
  | none, .cacheUpdate _ i => !s.purged.contains i
  | _, _ => true

/-- Devices whose deletion has returned are neither returned by a search nor in the cache. -/
structure NoneDeleted : Prop where
  found : ∀ t k i, s.pc t = .found k i → i ∉ s.deleted
  cached : ∀ href i, some (href, i) ∈ s.reg.cache → i ∉ s.deleted

end DeviceCalls

namespace DevicePc

/-- The references that a call has. -/
def refs : DevicePc → List Nat
  | cacheUpdate _ i => [i]
  | found _ i => [i]
  | permitted _ i parent => parent.toList ++ [i]
  | closing _ i parent => parent.toList ++ [i]
  | unlinking i parent => parent.toList ++ [i]
  | invalidating i parent => parent.toList ++ [i]
  | leaving refs _ => refs
  | _ => []

/-- The descriptor that a call uses. -/
def device : DevicePc → Option Nat
  | cacheUpdate _ i => some i
  | found _ i => some i
  | permitted _ i _ => some i
  | closing _ i _ => some i
  | unlinking i _ => some i
  | invalidating i _ => some i
  | _ => none

/-- The device that a call has shut down. -/
def shuts : DevicePc → Option Nat
  | closing _ i _ => some i
  | unlinking i _ => some i
  | invalidating i _ => some i
  | leaving _ dead => dead
  | _ => none

/-- A device that is shut down and not yet purged. -/
def pending : DevicePc → Option Nat
  | closing _ i _ => some i
  | unlinking i _ => some i
  | invalidating i _ => some i
  | _ => none

/-- What is deleted or put into the cache is not the device root. -/
def Away : DevicePc → Prop
  | cacheSearch (.delete _) href => isDeviceRootHref href = false
  | cacheUpdate _ i => i ≠ deviceRoot
  | found (.delete _) i => i ≠ deviceRoot
  | permitted _ i _ => i ≠ deviceRoot
  | closing _ i _ => i ≠ deviceRoot
  | unlinking i _ => i ≠ deviceRoot
  | invalidating i _ => i ≠ deviceRoot
  | leaving _ dead => dead ≠ some deviceRoot
  | _ => True

variable {p : DevicePc} {i : Nat}

theorem mem_refs_of_device
    (h : p.device = some i) :
    i ∈ p.refs := by
  cases p <;> simp_all [device, refs]

theorem shuts_of_pending
    (h : p.pending = some i) :
    p.shuts = some i := by
  cases p <;> simp_all [pending, shuts]

end DevicePc

section Counting

variable {ι : Type} [Fintype ι]

theorem count_le_sum
    (pc : ι → DevicePc)
    (t : ι)
    (i : Nat) :
    ((pc t).refs.count i : Int) ≤ ∑ u, ((pc u).refs.count i : Int) :=
  Finset.single_le_sum (f := fun u => ((pc u).refs.count i : Int))
    (fun _ _ => Int.natCast_nonneg _) (Finset.mem_univ t)

variable [DecidableEq ι]

/-- The references of all calls after one of them has moved. -/
theorem sum_refs_update
    (pc : ι → DevicePc)
    (t : ι)
    (p : DevicePc)
    (i : Nat) :
    ∑ u, ((Function.update pc t p u).refs.count i : Int) + (pc t).refs.count i =
      ∑ u, ((pc u).refs.count i : Int) + p.refs.count i := by
  have hcomp : (fun u => ((Function.update pc t p u).refs.count i : Int)) =
      Function.update (fun u => ((pc u).refs.count i : Int)) t (p.refs.count i : Int) := by
    funext u
    by_cases hu : u = t
    · subst hu
      simp
    · simp [hu]
  rw [hcomp, Finset.sum_update_of_mem (Finset.mem_univ t),
    Finset.sum_eq_add_sum_sdiff_singleton_of_mem (Finset.mem_univ t)
      (fun u => ((pc u).refs.count i : Int))]
  ring

end Counting

/-- The tables of the registry and the devices that have been deleted. -/
structure Swept (reg : Registry) (purged deleted : List Nat) : Prop where
  tabSize : 0 < reg.tab.heads.length
  placed : reg.tab.Placed deviceComputeHash reg.keyOf
  tabLive : ∀ i ∈ reg.tab.items, i ≠ deviceRoot ∧ reg.heap i ≠ none ∧ i ∉ purged
  cacheLive : ∀ href i, some (href, i) ∈ reg.cache →
    i ≠ deviceRoot ∧ (∃ dev, reg.heap i = some dev ∧ dev.href = href) ∧ i ∉ purged
  rootKept : deviceRoot ∉ purged
  rootLive : reg.heap deviceRoot ≠ none
  deletedPurged : ∀ i ∈ deleted, i ∈ purged
  deletedFreed : ∀ i ∈ deleted, reg.heap i = none
  purgedShut : ∀ i ∈ purged, (reg.sync i).beingShutdown = true

theorem Swept.compareStr
    {reg : Registry} {purged deleted : List Nat}
    (h : Swept reg purged deleted)
    (key : Text)
    (i : Nat)
    (hi : i ∈ reg.tab.items) :
    reg.compareStr key i = isStrIdentical key (reg.keyOf i) := by
  obtain ⟨dev, hdev⟩ := Option.ne_none_iff_exists'.mp (h.tabLive i hi).2.1
  rw [Registry.compareStr, Registry.keyOf_of_heap hdev, hdev]
  rfl

/-- The invariant of the runs. -/
structure DeviceCalls.Guarded {ι : Type} [Fintype ι] (s : DeviceCalls ι) : Prop where
  swept : Swept s.reg s.purged s.deleted
  refs : ∀ i, ∑ t, ((s.pc t).refs.count i : Int) ≤ s.reg.refcnt i
  live : ∀ t i, (s.pc t).device = some i → s.reg.heap i ≠ none
  away : ∀ t, (s.pc t).Away
  shut : ∀ t i, (s.pc t).shuts = some i → (s.reg.sync i).beingShutdown = true
  alone : ∀ t u i, (s.pc t).shuts = some i → (s.pc u).shuts = some i → t = u
  pending : ∀ t i, (s.pc t).pending = some i → i ∉ s.purged
  done : ∀ t i, (s.pc t).shuts = some i → (s.pc t).pending = none → i ∈ s.purged
  unlinked : ∀ t i parent, s.pc t = .invalidating i parent → i ∉ s.reg.tab.items

theorem DeviceCalls.Guarded.noneDeleted
    {ι : Type} [Fintype ι] {s : DeviceCalls ι}
    (h : s.Guarded) :
    s.NoneDeleted := by
  refine ⟨?_, ?_⟩
  · intro t k i hpc hi
    exact h.live t i (by rw [hpc]; rfl) (h.swept.deletedFreed i hi)
  · intro href i hslot hi
    exact (h.swept.cacheLive href i hslot).2.2 (h.swept.deletedPurged i hi)

section Steps

variable {ι : Type} [Fintype ι] [DecidableEq ι] {s s' : DeviceCalls ι} {t : ι} {p : DevicePc}

/-- One call moves; the others stay where they are. -/
theorem DeviceCalls.Guarded.move
    (h : s.Guarded)
    (hpc : s'.pc = Function.update s.pc t p)
    (hswept : Swept s'.reg s'.purged s'.deleted)
    (hrefs : ∀ i, s.reg.refcnt i + p.refs.count i ≤ s'.reg.refcnt i + (s.pc t).refs.count i)
    (hothers : ∀ u, u ≠ t → ∀ i,
      ((s.pc u).device = some i → s'.reg.heap i ≠ none) ∧
      ((s.pc u).shuts = some i → (s'.reg.sync i).beingShutdown = true) ∧
      ((s.pc u).pending = some i → i ∉ s'.purged))
    (hmono : ∀ i ∈ s.purged, i ∈ s'.purged)
    (htab : ∀ i ∈ s'.reg.tab.items, i ∈ s.reg.tab.items)
    (hlive : ∀ i, p.device = some i → s'.reg.heap i ≠ none)
    (haway : p.Away)
    (hshut : ∀ i, p.shuts = some i →
      (s'.reg.sync i).beingShutdown = true ∧ ∀ u, u ≠ t → (s.pc u).shuts ≠ some i)
    (hpending : ∀ i, p.pending = some i → i ∉ s'.purged)
    (hdone : ∀ i, p.shuts = some i → p.pending = none → i ∈ s'.purged)
    (hunlinked : ∀ i parent, p = .invalidating i parent → i ∉ s'.reg.tab.items) :
    s'.Guarded := by
  have hself : s'.pc t = p := by rw [hpc, Function.update_self]
  have hother : ∀ u, u ≠ t → s'.pc u = s.pc u := by
    intro u hu
    rw [hpc, Function.update_of_ne hu]
  refine ⟨hswept, ?_, ?_, ?_, ?_, ?_, ?_, ?_, ?_⟩
  · intro i
    have hsum := sum_refs_update s.pc t p i
    have hold := h.refs i
    have hnew := hrefs i
    rw [hpc]
    omega
  · intro u i hu
    by_cases hut : u = t
    · subst hut
      exact hlive i (hself ▸ hu)
    · exact (hothers u hut i).1 (hother u hut ▸ hu)
  · intro u
    by_cases hut : u = t
    · subst hut
      exact hself.symm ▸ haway
    · exact (hother u hut).symm ▸ h.away u
  · intro u i hu
    by_cases hut : u = t
    · subst hut
      exact (hshut i (hself ▸ hu)).1
    · exact (hothers u hut i).2.1 (hother u hut ▸ hu)
  · intro u v i hu hv
    by_cases hut : u = t
    · subst hut
      by_contra hne
      have hvt : v ≠ u := Ne.symm hne
      exact (hshut i (hself ▸ hu)).2 v hvt (hother v hvt ▸ hv)
    · by_cases hvt : v = t
      · subst hvt
        exact absurd (hother u hut ▸ hu) ((hshut i (hself ▸ hv)).2 u hut)
      · exact h.alone u v i (hother u hut ▸ hu) (hother v hvt ▸ hv)
  · intro u i hu
    by_cases hut : u = t
    · subst hut
      exact hpending i (hself ▸ hu)
    · exact (hothers u hut i).2.2 (hother u hut ▸ hu)
  · intro u i hu hnone
    by_cases hut : u = t
    · subst hut
      exact hdone i (hself ▸ hu) (hself ▸ hnone)
    · exact hmono i (h.done u i (hother u hut ▸ hu) (hother u hut ▸ hnone))
  · intro u i parent hu
    by_cases hut : u = t
    · subst hut
      exact hunlinked i parent (hself ▸ hu)
    · exact fun hi => h.unlinked u i parent (hother u hut ▸ hu) (htab i hi)

/-- A step that changes only the cache and the references. -/
theorem DeviceCalls.Guarded.walk
    {cache : Cache Nat} {refcnt : Nat → Int}
    (h : s.Guarded)
    (hcache : ∀ href i, some (href, i) ∈ cache →
      i ≠ deviceRoot ∧ (∃ dev, s.reg.heap i = some dev ∧ dev.href = href) ∧ i ∉ s.purged)
    (hrefs : ∀ i, s.reg.refcnt i + p.refs.count i ≤ refcnt i + (s.pc t).refs.count i)
    (hlive : ∀ i, p.device = some i → s.reg.heap i ≠ none)
    (haway : p.Away)
    (hshut : ∀ i, p.shuts = some i → (s.pc t).shuts = some i ∧ p.pending = (s.pc t).pending)
    (hunlinked : ∀ i parent, p ≠ .invalidating i parent) :
    (s.goto t p { s.reg with cache := cache, refcnt := refcnt }).Guarded := by
  refine h.move rfl { h.swept with cacheLive := hcache } hrefs ?_ (fun _ hi => hi) (fun _ hi => hi)
    hlive haway ?_ ?_ ?_ ?_
  · intro u _ i
    exact ⟨h.live u i, h.shut u i, h.pending u i⟩
  · intro i hi
    obtain ⟨hold, -⟩ := hshut i hi
    exact ⟨h.shut t i hold, fun u hu hui => hu (h.alone u t i hui hold)⟩
  · intro i hi
    obtain ⟨-, hsame⟩ := hshut i (DevicePc.shuts_of_pending hi)
    exact h.pending t i (hsame ▸ hi)
  · intro i hi hnone
    obtain ⟨hold, hsame⟩ := hshut i hi
    exact h.done t i hold (hsame ▸ hnone)
  · exact fun i parent hp => absurd hp (hunlinked i parent)

theorem refcnt_get (r : Registry) (i j : Nat) :
    (r.get i).refcnt j = r.refcnt j + ([i].count j : Int) := by
  by_cases hij : j = i
  · simp [Registry.get, hij]
  · simp [Registry.get, hij, Ne.symm hij]

theorem refcnt_put (r : Registry) (i j : Nat) :
    (r.put i).refcnt j = r.refcnt j - ([i].count j : Int) := by
  by_cases hij : j = i
  · simp [Registry.put, hij]
  · simp [Registry.put, hij, Ne.symm hij]

/-- A call that has no device ends. -/
theorem DeviceCalls.Guarded.ends
    (h : s.Guarded)
    (hp : p.refs = [] ∧ p.device = none ∧ p.shuts = none ∧ p.pending = none ∧ p.Away) :
    (s.goto t p s.reg).Guarded := by
  obtain ⟨hrefs, hdevice, hshuts, hpending, haway⟩ := hp
  refine h.walk h.swept.cacheLive ?_ (by simp [hdevice]) haway (by simp [hshuts]) ?_
  · intro i
    rw [hrefs]
    simp
  · rintro i parent rfl
    cases hdevice

/-- A call takes a reference to the device it has found. -/
theorem DeviceCalls.Guarded.takes
    {cache : Cache Nat} {i : Nat}
    (h : s.Guarded)
    (hcache : ∀ x, some x ∈ cache → some x ∈ s.reg.cache)
    (hlive : s.reg.heap i ≠ none)
    (hp : p.refs = [i] ∧ p.device = some i ∧ p.shuts = none ∧ p.pending = none ∧ p.Away) :
    (s.goto t p (({ s.reg with cache := cache }).get i)).Guarded := by
  obtain ⟨hrefs, hdevice, hshuts, hpending, haway⟩ := hp
  refine h.walk (fun x j hx => h.swept.cacheLive x j (hcache _ hx)) ?_ ?_ haway (by simp [hshuts]) ?_
  · intro j
    have hget := refcnt_get { s.reg with cache := cache } i j
    simp only [Registry.get] at hget
    rw [hrefs, hget]
    omega
  · rw [hdevice]
    rintro j ⟨⟩
    exact hlive
  · rintro j parent rfl
    cases hpending

theorem DeviceCalls.Guarded.stepCacheSearch
    {k : Purpose} {href : Text}
    (h : s.Guarded)
    (hpc : s.pc t = .cacheSearch k href) :
    (s.stepCacheSearch t k href).Guarded := by
  have haway : isDeviceRootHref href = true → k = .use := by
    intro hroot
    cases k with
    | use => rfl
    | delete a =>
        have haway := h.away t
        rw [hpc] at haway
        rw [DevicePc.Away, hroot] at haway
        cases haway
  unfold DeviceCalls.stepCacheSearch
  split
  · exact h.ends ⟨rfl, rfl, rfl, rfl, by simp [DevicePc.Away]⟩
  · split
    · rename_i hroot
      rw [haway hroot]
      exact h.takes (fun _ hx => hx) h.swept.rootLive ⟨rfl, rfl, rfl, rfl, trivial⟩
    · rcases s.reg.cache.search_spec href with ⟨key, i, hfst, hmem, -, hsub⟩ | ⟨hmiss, -⟩
      · rcases hsearch : s.reg.cache.search href with ⟨found, cache⟩
        rw [hsearch] at hfst hsub
        simp only at hfst
        subst hfst
        obtain ⟨hroot, ⟨dev, hdev, -⟩, -⟩ := h.swept.cacheLive key i hmem
        refine h.takes hsub (by simp [hdev]) ⟨rfl, rfl, rfl, rfl, ?_⟩
        cases k with
        | use => trivial
        | delete a => exact hroot
      · rw [hmiss]
        exact h.ends ⟨rfl, rfl, rfl, rfl, trivial⟩

theorem DeviceCalls.Guarded.stepHashSearch
    {k : Purpose} {href : Text}
    (h : s.Guarded) :
    (s.stepHashSearch t k href).Guarded := by
  unfold DeviceCalls.stepHashSearch
  split
  · exact h.ends ⟨rfl, rfl, rfl, rfl, by simp [DevicePc.Away]⟩
  · rename_i i hsearch
    obtain ⟨hitem, -⟩ := HashTable.mem_of_search hsearch
    obtain ⟨hroot, hlive, -⟩ := h.swept.tabLive i hitem
    exact h.takes (fun _ hx => hx) hlive ⟨rfl, rfl, rfl, rfl, hroot⟩

theorem DeviceCalls.Guarded.cacheUpdate
    {k : Purpose} {i : Nat} {dev : ObixDev}
    (h : s.Guarded)
    (hpc : s.pc t = .cacheUpdate k i)
    (hdev : s.reg.heap i = some dev)
    (hkept : i ∉ s.purged) :
    (s.goto t (.found k i) { s.reg with cache := s.reg.cache.update dev.href i }).Guarded := by
  have hroot : i ≠ deviceRoot := by
    have haway := h.away t
    rw [hpc] at haway
    exact haway
  refine h.walk ?_ ?_ ?_ ?_ (by simp [DevicePc.shuts]) (by simp)
  · intro href j hj
    rcases Cache.mem_update hj with hj | hj
    · exact h.swept.cacheLive href j hj
    · cases hj
      exact ⟨hroot, ⟨dev, hdev, rfl⟩, hkept⟩
  · intro j
    rw [hpc]
    simp [DevicePc.refs]
  · rintro j ⟨⟩
    simp [hdev]
  · cases k with
    | use => trivial
    | delete a => exact hroot

/-- A call gives a reference back. -/
theorem DeviceCalls.Guarded.puts
    {i : Nat} {refs : List Nat}
    (h : s.Guarded)
    (hrefs : (s.pc t).refs = i :: refs)
    (hp : p.refs = refs ∧ p.device = none ∧ p.shuts = (s.pc t).shuts ∧
      p.pending = (s.pc t).pending ∧ p.Away) :
    (s.goto t p (s.reg.put i)).Guarded := by
  obtain ⟨hkeeps, hdevice, hshuts, hpending, haway⟩ := hp
  refine h.walk h.swept.cacheLive ?_ (by simp [hdevice]) haway ?_ ?_
  · intro j
    have hput := refcnt_put s.reg i j
    have hcons : (i :: refs).count j = [i].count j + refs.count j := by
      rw [← List.count_append]
      rfl
    simp only [Registry.put] at hput
    rw [hkeeps, hrefs, hput, hcons]
    push_cast
    omega
  · exact fun j hj => ⟨hshuts ▸ hj, hpending⟩
  · rintro j parent rfl
    cases hdevice

/-- A deletion that is refused goes on to give its references back. -/
theorem DeviceCalls.Guarded.refuses
    {refs : List Nat}
    (h : s.Guarded)
    (hrefs : (s.pc t).refs = refs) :
    (s.goto t (.leaving refs none) s.reg).Guarded := by
  refine h.walk h.swept.cacheLive ?_ (by simp [DevicePc.device]) (by simp [DevicePc.Away])
    (by simp [DevicePc.shuts]) (by simp)
  intro j
  rw [hrefs, DevicePc.refs]

theorem DeviceCalls.Guarded.stepPermissions
    {a : DelArgs} {i : Nat}
    (h : s.Guarded)
    (hpc : s.pc t = .found (.delete a) i)
    (hstep : s.stepPermissions t a i = some s') :
    s'.Guarded := by
  have hroot : i ≠ deviceRoot := by
    have haway := h.away t
    rw [hpc] at haway
    exact haway
  have hlive := h.live t i (by rw [hpc]; rfl)
  have hrefs : (s.pc t).refs = [i] := by rw [hpc]; rfl
  -- a reference to the parent comes before that to the device
  have hparent : ∀ (q : DevicePc) (j : Nat), q.refs = [j, i] →
      q.device = none ∨ q.device = some i → q.shuts = none → q.pending = none → q.Away →
      (s.goto t q (s.reg.get j)).Guarded := by
    intro q j hq hdevice hshuts hpending haway
    refine h.walk h.swept.cacheLive ?_ ?_ haway (by simp [hshuts]) ?_
    · intro k
      have hget := refcnt_get s.reg j k
      have hcons : [j, i].count k = [j].count k + [i].count k := by
        rw [← List.count_append]
        rfl
      simp only [Registry.get] at hget
      rw [hrefs, hq, hget, hcons]
      push_cast
      omega
    · intro k hk
      rcases hdevice with hnone | hsome
      · rw [hnone] at hk
        cases hk
      · rw [hsome] at hk
        cases hk
        exact hlive
    · rintro k parent rfl
      cases hpending
  obtain ⟨dev, -, hstep⟩ := Option.bind_eq_some_iff.mp hstep
  split at hstep
  · cases hstep
    exact h.refuses hrefs
  · split at hstep
    · cases hstep
      exact h.refuses hrefs
    · rename_i j _
      obtain ⟨parent, -, rfl⟩ := Option.map_eq_some_iff.mp hstep
      split
      · exact hparent _ j rfl (.inl rfl) rfl rfl (by simp [DevicePc.Away])
      · exact hparent _ j rfl (.inr rfl) rfl rfl hroot

/-- Only the shutdown flag of a device changes. -/
theorem Swept.of_sync
    {reg : Registry} {purged deleted : List Nat} {i : Nat} {sync : Tsync}
    (h : Swept reg purged deleted)
    (hsync : i ∈ purged → sync.beingShutdown = true) :
    Swept { reg with sync := Function.update reg.sync i sync } purged deleted := by
  refine { h with purgedShut := ?_ }
  intro j hj
  by_cases hji : j = i
  · subst hji
    simpa using hsync hj
  · simpa [hji] using h.purgedShut j hj

theorem DeviceCalls.Guarded.stepShutdown
    {a : DelArgs} {i : Nat} {parent : Option Nat}
    (h : s.Guarded)
    (hpc : s.pc t = .permitted a i parent) :
    (s.stepShutdown t a i parent).Guarded := by
  have hrefs : (s.pc t).refs = parent.toList ++ [i] := by rw [hpc]; rfl
  unfold DeviceCalls.stepShutdown
  split
  · exact h.refuses hrefs
  · rename_i sync hrequest
    have hopen : (s.reg.sync i).beingShutdown = false ∧ sync.beingShutdown = true := by
      unfold Tsync.shutdownRequest at hrequest
      split at hrequest
      · cases hrequest
      · rename_i hopen
        cases hrequest
        exact ⟨by simpa using hopen, rfl⟩
    have hnew : i ∉ s.purged := by
      intro hi
      rw [h.swept.purgedShut i hi] at hopen
      cases hopen.1
    refine h.move rfl (h.swept.of_sync fun _ => hopen.2) ?_ ?_ (fun _ hi => hi) (fun _ hi => hi)
      ?_ ?_ ?_ ?_ (by simp [DevicePc.pending]) (by simp)
    · intro j
      rw [hrefs, DevicePc.refs]
      rfl
    · intro u _ j
      refine ⟨h.live u j, ?_, h.pending u j⟩
      intro hu
      by_cases hji : j = i
      · subst hji
        simpa [DeviceCalls.goto] using hopen.2
      · simpa [DeviceCalls.goto, hji] using h.shut u j hu
    · rintro j ⟨⟩
      exact h.live t i (by rw [hpc]; rfl)
    · have haway := h.away t
      rw [hpc] at haway
      exact haway
    · rintro j ⟨⟩
      refine ⟨by simpa [DeviceCalls.goto] using hopen.2, ?_⟩
      intro u _ hu
      rw [h.shut u i hu] at hopen
      cases hopen.1
    · rintro j ⟨⟩
      exact hnew

theorem DeviceCalls.Guarded.stepChildren
    {a : DelArgs} {i : Nat} {parent : Option Nat}
    (h : s.Guarded)
    (hpc : s.pc t = .closing a i parent)
    (hstep : s.stepChildren t a i parent = some s') :
    s'.Guarded := by
  have hrefs : (s.pc t).refs = parent.toList ++ [i] := by rw [hpc]; rfl
  have hshuts : (s.pc t).shuts = some i := by rw [hpc]; rfl
  unfold DeviceCalls.stepChildren at hstep
  split at hstep
  · cases hstep
  · obtain ⟨dev, -, rfl⟩ := Option.map_eq_some_iff.mp hstep
    split
    · -- nobody else has shut the device down, and it is not purged
      have hnew := h.pending t i (by rw [hpc]; rfl)
      refine h.move rfl (h.swept.of_sync fun hi => absurd hi hnew) ?_ ?_ (fun _ hi => hi)
        (fun _ hi => hi) (by simp [DevicePc.device]) (by simp [DevicePc.Away])
        (by simp [DevicePc.shuts]) (by simp [DevicePc.pending]) (by simp [DevicePc.shuts]) (by simp)
      · intro j
        rw [hrefs, DevicePc.refs]
        rfl
      · intro u hut j
        refine ⟨h.live u j, ?_, h.pending u j⟩
        intro hu
        have hji : j ≠ i := by
          rintro rfl
          exact hut (h.alone u t j hu hshuts)
        simpa [DeviceCalls.goto, hji] using h.shut u j hu
    · refine h.walk h.swept.cacheLive ?_ ?_ ?_ ?_ (by simp)
      · intro j
        rw [hrefs, DevicePc.refs]
      · rintro j ⟨⟩
        exact h.live t i (by rw [hpc]; rfl)
      · have haway := h.away t
        rw [hpc] at haway
        exact haway
      · rintro j ⟨⟩
        exact ⟨hshuts, by rw [hpc]; rfl⟩

theorem DeviceCalls.Guarded.unlink
    {i : Nat} {parent : Option Nat} {dev : ObixDev}
    (h : s.Guarded)
    (hpc : s.pc t = .unlinking i parent)
    (hdev : s.reg.heap i = some dev) :
    (s.goto t (.invalidating i parent) (s.reg.hashDel i dev)).Guarded := by
  have hmem : ∀ j, j ∈ (s.reg.hashDel i dev).tab.items ↔
      j ∈ s.reg.tab.items ∧ isStrIdentical dev.href (s.reg.keyOf j) = false := fun j =>
    HashTable.mem_items_del deviceComputeHash_congr h.swept.compareStr h.swept.placed
  have hshuts : (s.pc t).shuts = some i := by rw [hpc]; rfl
  refine h.move rfl ?_ ?_ ?_ (fun _ hi => hi) ?_ ?_ ?_ ?_ ?_ (by simp [DevicePc.pending]) ?_
  · refine { h.swept with
      tabSize := by simpa [DeviceCalls.goto, Registry.hashDel, HashTable.del] using h.swept.tabSize
      placed := h.swept.placed.del deviceComputeHash_congr h.swept.compareStr dev.href
      tabLive := fun j hj => h.swept.tabLive j ((hmem j).mp hj).1 }
  · intro j
    rw [hpc]
    rfl
  · intro u _ j
    exact ⟨h.live u j, h.shut u j, h.pending u j⟩
  · exact fun j hj => ((hmem j).mp hj).1
  · rintro j ⟨⟩
    simp [DeviceCalls.goto, Registry.hashDel, hdev]
  · have haway := h.away t
    rw [hpc] at haway
    exact haway
  · rintro j ⟨⟩
    exact ⟨h.shut t i hshuts, fun u hu hui => hu (h.alone u t i hui hshuts)⟩
  · rintro j ⟨⟩
    exact h.pending t i (by rw [hpc]; rfl)
  · rintro j _ ⟨⟩ hj
    have hother := ((hmem i).mp hj).2
    rw [Registry.keyOf_of_heap hdev] at hother
    simp [isStrIdentical] at hother

theorem Registry.cacheInvalidate_spec (r : Registry) (i : Nat) (dev : ObixDev) :
    (r.cacheInvalidate i dev).tab = r.tab ∧ (r.cacheInvalidate i dev).refcnt = r.refcnt ∧
      (r.cacheInvalidate i dev).sync = r.sync ∧
      (r.cacheInvalidate i dev).cache = r.cache.invalidate dev.href ∧
      (∀ j, (r.cacheInvalidate i dev).heap j = none ↔ r.heap j = none) ∧
      ∀ j, (r.cacheInvalidate i dev).keyOf j = r.keyOf j := by
  unfold Registry.cacheInvalidate
  cases dev.parent with
  | none =>
      refine ⟨rfl, rfl, rfl, rfl, fun j => Registry.heap_modify _ i j, fun j => ?_⟩
      exact Registry.keyOf_modify (fun dev => { dev with parent := none }) (fun _ => rfl) i j
  | some p =>
      refine ⟨rfl, rfl, rfl, rfl, fun j => ?_, fun j => ?_⟩
      · exact (Registry.heap_modify _ i j).trans (Registry.heap_modify _ p j)
      · exact (Registry.keyOf_modify (fun dev => { dev with parent := none }) (fun _ => rfl) i j).trans
          (Registry.keyOf_modify
            (fun parent => { parent with children := parent.children.erase i }) (fun _ => rfl) p j)

/-- The slots that `cache_invalidate` leaves are those of other devices. -/
theorem Swept.invalidate
    {reg : Registry} {purged deleted : List Nat} {i : Nat} {dev : ObixDev}
    (h : Swept reg purged deleted)
    (hdev : reg.heap i = some dev)
    (hroot : i ≠ deviceRoot)
    (htab : i ∉ reg.tab.items)
    (hshut : (reg.sync i).beingShutdown = true) :
    Swept (reg.cacheInvalidate i dev) (i :: purged) deleted := by
  obtain ⟨htab', -, hsync, hcache, hheap, hkey⟩ := reg.cacheInvalidate_spec i dev
  refine ⟨?_, ?_, ?_, ?_, ?_, ?_, ?_, ?_, ?_⟩
  · rw [htab']
    exact h.tabSize
  · rw [htab']
    exact h.placed.congr fun j _ => hkey j
  · intro j hj
    rw [htab'] at hj
    obtain ⟨hne, hlive, hnew⟩ := h.tabLive j hj
    refine ⟨hne, fun hnone => hlive ((hheap j).mp hnone), ?_⟩
    simp only [List.mem_cons, not_or]
    exact ⟨fun hji => htab (hji ▸ hj), hnew⟩
  · intro href j hj
    rw [hcache] at hj
    obtain ⟨hj, hbegins⟩ := Cache.mem_invalidate.mp hj
    obtain ⟨hne, ⟨dev', hdev', hhref⟩, hnew⟩ := h.cacheLive href j hj
    have hji : j ≠ i := by
      rintro rfl
      obtain rfl := Option.some.inj (hdev.symm.trans hdev')
      have hpre := trimSlash_isPrefix dev.href
      rw [hhref] at hpre hbegins
      rw [hbegins] at hpre
      cases hpre
    refine ⟨hne, ?_, by simp [hji, hnew]⟩
    obtain ⟨dev'', hdev''⟩ : ∃ dev'', (reg.cacheInvalidate i dev).heap j = some dev'' := by
      refine Option.ne_none_iff_exists'.mp fun hnone => ?_
      rw [(hheap j).mp hnone] at hdev'
      cases hdev'
    refine ⟨dev'', hdev'', ?_⟩
    have hsame := hkey j
    rw [Registry.keyOf_of_heap hdev'', Registry.keyOf_of_heap hdev'] at hsame
    rw [hsame, hhref]
  · simp [Ne.symm hroot, h.rootKept]
  · exact fun hnone => h.rootLive ((hheap _).mp hnone)
  · exact fun j hj => List.mem_cons_of_mem i (h.deletedPurged j hj)
  · exact fun j hj => (hheap j).mpr (h.deletedFreed j hj)
  · intro j hj
    rw [hsync]
    rcases List.mem_cons.mp hj with rfl | hj
    · exact hshut
    · exact h.purgedShut j hj

theorem DeviceCalls.Guarded.invalidate
    {i : Nat} {parent : Option Nat} {dev : ObixDev}
    (h : s.Guarded)
    (hpc : s.pc t = .invalidating i parent)
    (hdev : s.reg.heap i = some dev) :
    DeviceCalls.Guarded
      { s.goto t (.leaving (parent.toList ++ [i]) (some i)) (s.reg.cacheInvalidate i dev) with
        purged := i :: s.purged } := by
  obtain ⟨htab, hrefcnt, hsync, -, hheap, -⟩ := s.reg.cacheInvalidate_spec i dev
  have hshuts : (s.pc t).shuts = some i := by rw [hpc]; rfl
  have hroot : i ≠ deviceRoot := by
    have haway := h.away t
    rw [hpc] at haway
    exact haway
  refine h.move rfl ?_ ?_ ?_ (fun _ hj => List.mem_cons_of_mem i hj) ?_ (by simp [DevicePc.device])
    (by simpa [DevicePc.Away] using hroot) ?_ (by simp [DevicePc.pending])
    (by simp [DevicePc.shuts]) (by simp)
  · exact h.swept.invalidate hdev hroot (h.unlinked t i parent hpc) (h.shut t i hshuts)
  · intro j
    simp only [DeviceCalls.goto]
    rw [hpc, hrefcnt]
    rfl
  · intro u hut j
    refine ⟨?_, ?_, ?_⟩
    · exact fun hu hnone => h.live u j hu ((hheap j).mp hnone)
    · intro hu
      simp only [DeviceCalls.goto]
      rw [hsync]
      exact h.shut u j hu
    · intro hu
      simp only [List.mem_cons, not_or]
      refine ⟨?_, h.pending u j hu⟩
      rintro rfl
      exact hut (h.alone u t j (DevicePc.shuts_of_pending hu) hshuts)
  · intro j hj
    simp only [DeviceCalls.goto] at hj
    rwa [htab] at hj
  · rintro j ⟨⟩
    simp only [DeviceCalls.goto]
    rw [hsync]
    exact ⟨h.shut t i hshuts, fun u hu hui => hu (h.alone u t i hui hshuts)⟩

/-- A device to which there are no references is freed. -/
theorem DeviceCalls.Guarded.dispose
    {i : Nat}
    (h : s.Guarded)
    (hpc : s.pc t = .leaving [] (some i))
    (hcount : ¬ 0 < s.reg.refcnt i) :
    DeviceCalls.Guarded
      { s.goto t .idle (s.reg.free i) with deleted := i :: s.deleted } := by
  have hpurged : i ∈ s.purged := h.done t i (by rw [hpc]; rfl) (by rw [hpc]; rfl)
  have hother : ∀ u, (s.pc u).device ≠ some i := by
    intro u hu
    have hpos := List.count_pos_iff.mpr (DevicePc.mem_refs_of_device hu)
    have hle := count_le_sum s.pc u i
    have hsum := h.refs i
    omega
  have hheap : ∀ j, j ≠ i → (s.reg.free i).heap j = s.reg.heap j := by
    intro j hj
    simp [Registry.free, hj]
  refine h.move rfl ?_ (by intro j; rw [hpc]; rfl) ?_ (fun _ hj => hj) (fun _ hj => hj)
    (by simp [DevicePc.device]) trivial (by simp [DevicePc.shuts]) (by simp [DevicePc.pending])
    (by simp [DevicePc.shuts]) (by simp)
  · refine { h.swept with
      placed := ?_, tabLive := ?_, cacheLive := ?_, rootLive := ?_, deletedPurged := ?_
      deletedFreed := ?_ }
    · refine h.swept.placed.congr fun j hj => ?_
      have hji : j ≠ i := fun hji => (h.swept.tabLive j hj).2.2 (hji ▸ hpurged)
      simp only [DeviceCalls.goto, Registry.keyOf, hheap j hji]
    · intro j hj
      obtain ⟨hroot, hlive, hnew⟩ := h.swept.tabLive j hj
      have hji : j ≠ i := fun hji => hnew (hji ▸ hpurged)
      exact ⟨hroot, by simpa [DeviceCalls.goto, hheap j hji] using hlive, hnew⟩
    · intro href j hj
      obtain ⟨hroot, hdev, hnew⟩ := h.swept.cacheLive href j hj
      have hji : j ≠ i := fun hji => hnew (hji ▸ hpurged)
      exact ⟨hroot, by simpa [DeviceCalls.goto, hheap j hji] using hdev, hnew⟩
    · have hroot : deviceRoot ≠ i := fun hroot => h.swept.rootKept (hroot ▸ hpurged)
      simpa [DeviceCalls.goto, hheap _ hroot] using h.swept.rootLive
    · intro j hj
      rcases List.mem_cons.mp hj with rfl | hj
      · exact hpurged
      · exact h.swept.deletedPurged j hj
    · intro j hj
      by_cases hji : j = i
      · simp [DeviceCalls.goto, Registry.free, hji]
      · have hj := (List.mem_cons.mp hj).resolve_left hji
        simpa [DeviceCalls.goto, hheap j hji] using h.swept.deletedFreed j hj
  · intro u _ j
    refine ⟨?_, h.shut u j, h.pending u j⟩
    intro hu
    have hji : j ≠ i := by
      rintro rfl
      exact hother u hu
    simpa [DeviceCalls.goto, hheap j hji] using h.live u j hu

theorem DeviceCalls.Guarded.advance
    (h : s.Guarded)
    (hok : s.timely (t, none) = true)
    (hstep : s.advance t = some s') :
    s'.Guarded := by
  cases hpc : s.pc t with
  | idle => simp [DeviceCalls.advance, hpc] at hstep
  | cacheSearch k href =>
      simp only [DeviceCalls.advance, hpc, Option.some.injEq] at hstep
      exact hstep ▸ h.stepCacheSearch hpc
  | hashSearch k href =>
      simp only [DeviceCalls.advance, hpc, Option.some.injEq] at hstep
      exact hstep ▸ h.stepHashSearch
  | cacheUpdate k i =>
      simp only [DeviceCalls.advance, hpc] at hstep
      obtain ⟨dev, hdev, rfl⟩ := Option.map_eq_some_iff.mp hstep
      exact h.cacheUpdate hpc hdev (by simpa [DeviceCalls.timely, hpc] using hok)
  | found k i =>
      cases k with
      | use =>
          simp only [DeviceCalls.advance, hpc, Option.some.injEq] at hstep
          subst hstep
          refine h.puts (by rw [hpc]; rfl) ?_
          rw [hpc]
          exact ⟨rfl, rfl, rfl, rfl, trivial⟩
      | delete a =>
          simp only [DeviceCalls.advance, hpc] at hstep
          exact h.stepPermissions hpc hstep
  | permitted a i parent =>
      simp only [DeviceCalls.advance, hpc, Option.some.injEq] at hstep
      exact hstep ▸ h.stepShutdown hpc
  | closing a i parent =>
      simp only [DeviceCalls.advance, hpc] at hstep
      exact h.stepChildren hpc hstep
  | unlinking i parent =>
      simp only [DeviceCalls.advance, hpc] at hstep
      obtain ⟨dev, hdev, rfl⟩ := Option.map_eq_some_iff.mp hstep
      exact h.unlink hpc hdev
  | invalidating i parent =>
      simp only [DeviceCalls.advance, hpc] at hstep
      obtain ⟨dev, hdev, rfl⟩ := Option.map_eq_some_iff.mp hstep
      exact h.invalidate hpc hdev
  | leaving refs dead =>
      cases refs with
      | cons j refs =>
          simp only [DeviceCalls.advance, hpc, Option.some.injEq] at hstep
          subst hstep
          refine h.puts (by rw [hpc]; rfl) ?_
          have haway := h.away t
          rw [hpc] at haway ⊢
          exact ⟨rfl, rfl, rfl, rfl, haway⟩
      | nil =>
          cases dead with
          | none =>
              simp only [DeviceCalls.advance, hpc, Option.some.injEq] at hstep
              exact hstep ▸ h.ends ⟨rfl, rfl, rfl, rfl, trivial⟩
          | some i =>
              simp only [DeviceCalls.advance, hpc] at hstep
              split at hstep
              · cases hstep
              · rename_i hcount
                cases hstep
                exact h.dispose hpc hcount

theorem DeviceCalls.Guarded.step
    {x : ι × Option DeviceCall}
    (h : s.Guarded)
    (hok : s.timely x = true)
    (hstep : s.step x = some s') :
    s'.Guarded := by
  obtain ⟨t, call⟩ := x
  cases call with
  | none => exact h.advance hok hstep
  | some call =>
      simp only [DeviceCalls.step] at hstep
      split at hstep
      · cases call with
        | search href =>
            cases hstep
            exact h.ends ⟨rfl, rfl, rfl, rfl, trivial⟩
        | del a =>
            cases hstep
            exact h.ends ⟨rfl, rfl, rfl, rfl, by simpa [DeviceCalls.timely, DevicePc.Away] using hok⟩
      · cases hstep

end Steps

section Start

variable {ok : Request → Registry → Prop} {s t : Registry} {e : ErrCode}

/-- Only the references of `device_del` are given back. -/
theorem refcnt_release_hold
    {i : Nat} {parent : Option Nat} {u : Registry}
    (hu : u.refcnt = (deviceHold i parent s).refcnt) :
    (deviceRelease i parent u).refcnt = s.refcnt := by
  funext j
  have hj := refcnt_deviceRelease i parent s u j
  rw [hu] at hj
  omega

theorem refcnt_deviceDel
    {href requesterId : Text}
    (h : deviceDel Meanwhile.idle href requesterId s = some (e, t)) :
    t.refcnt = s.refcnt := by
  cases deviceDel_cases h with
  | refused => rfl
  | @entitled i dev cache _ _ _ _ _ _ hout =>
      cases hout with
      | busy => rw [deviceRelease_hold]
      | children _ hu =>
          subst hu
          exact refcnt_release_hold (s := { s with cache := cache }) rfl
      | @removed sync u v dev' dev'' _ hu _ _ _ hv _ =>
          obtain rfl : v = u := by rcases hv with rfl | rfl <;> rfl
          subst hu
          refine refcnt_release_hold (s := { s with cache := cache }) ?_
          cases hparent : dev''.parent <;>
            simp only [devicePurge, Registry.deviceUnlink, hparent, Option.elim_none,
              Option.elim_some, Registry.modify] <;> rfl

theorem refcnt_deviceAdd
    {a : AddArgs}
    (hs : Linked s)
    (h : deviceAdd a s = some (e, t))
    (hzero : ∀ j, s.refcnt j = 0)
    (j : Nat) :
    t.refcnt j = 0 := by
  rcases deviceAdd_cases h with ⟨-, -, rfl⟩ | ⟨p, u, e', t', hsearch, hout, rfl, -⟩
  · exact hzero j
  · obtain ⟨cache, rfl⟩ := deviceSearchParent_some hsearch
    obtain ⟨hu, -⟩ := hs.deviceSearchParent hsearch
    -- the descriptor of the parent is not the one that is made
    have hnew : ∀ parent child, Passes a p parent child (({ s with cache := cache }).get p) →
        p ≠ s.next := by
      rintro parent child hpass rfl
      have hlive := (hu.fresh s.next le_rfl).symm.trans hpass.live
      cases hlive
    have hcount : ∀ r : Registry, p ≠ s.next →
        r.refcnt = Function.update (({ s with cache := cache }).get p).refcnt s.next 0 →
        (r.put p).refcnt j = 0 := by
      intro r hne hr
      by_cases hjp : j = p
      · subst hjp
        simp [Registry.put, hr, hne, Registry.get, hzero]
      · by_cases hjn : j = s.next
        · subst hjn
          simp [Registry.put, hr, hjp]
        · simp [Registry.put, hr, hjp, hjn, Registry.get, hzero]
    cases hout with
    | refused =>
        rw [put_get]
        exact hzero j
    | added hpass => exact hcount _ (hnew _ _ hpass) rfl
    | withdrawn hpass => exact hcount _ (hnew _ _ hpass) rfl

/-- No request keeps a reference. -/
theorem Reachable.refcnt
    (hs : Reachable ok s)
    (j : Nat) :
    s.refcnt j = 0 := by
  induction hs generalizing j with
  | start h =>
      obtain ⟨dir, -, h⟩ := Option.bind_eq_some_iff.mp h
      split at h
      · cases h
      · obtain ⟨root, -, rfl⟩ := Option.map_eq_some_iff.mp h
        rfl
  | @step s t r e hs _ h ih =>
      cases r with
      | signUp requesterId input faults =>
          rcases withHref_cases h with rfl | ⟨id, x, href, -, -, -, -, -, hadd⟩
          · exact ih j
          · exact refcnt_deviceAdd hs.linked hadd ih j
      | signOff requesterId input =>
          rcases withHref_cases h with rfl | ⟨id, x, href, -, -, -, -, -, hdel⟩
          · exact ih j
          · rw [refcnt_deviceDel hdel]
            exact ih j

theorem DeviceCalls.guarded_init
    {ι : Type} [Fintype ι]
    (hs : Reachable ok s) :
    (DeviceCalls.init s : DeviceCalls ι).Guarded := by
  have hlinked := hs.linked
  obtain ⟨root, hroot, -⟩ := hlinked.root
  refine ⟨⟨hlinked.tabSize, hlinked.placed, ?_, ?_, ?_, ?_, ?_, ?_, ?_⟩,
    ?_, ?_, ?_, ?_, ?_, ?_, ?_, ?_⟩
  · intro i hi
    obtain ⟨hne, hlive⟩ := hlinked.tabLive i hi
    exact ⟨hne, hlive, by simp [DeviceCalls.init]⟩
  · intro href i hi
    obtain ⟨hne, hdev⟩ := hlinked.cacheLive href i hi
    exact ⟨hne, hdev, by simp [DeviceCalls.init]⟩
  · simp [DeviceCalls.init]
  · simp [DeviceCalls.init, hroot]
  · simp [DeviceCalls.init]
  · simp [DeviceCalls.init]
  · simp [DeviceCalls.init]
  · intro i
    simp [DeviceCalls.init, DevicePc.refs, hs.refcnt i]
  all_goals simp [DeviceCalls.init, DevicePc.device, DevicePc.Away, DevicePc.shuts, DevicePc.pending]

end Start

section Runs

variable {ι : Type} [Fintype ι] [DecidableEq ι] {ok : Request → Registry → Prop} {reg : Registry}

/-- A device whose deletion has returned is not found by any search and is in no slot of the
cache, in every run in which the device root is not deleted and no device is put into the cache
after `cache_invalidate` has been called for it. -/
theorem deleted_not_found
    (hreg : Reachable ok reg)
    (s : DeviceCalls ι)
    (hs : Runs.Reaches DeviceCalls.step (fun s x => s.timely x = true) (.init reg) s) :
    s.NoneDeleted :=
  (hs.invariant (fun _ _ _ h hok hstep => h.step hok hstep)
    (DeviceCalls.guarded_init hreg)).noneDeleted

end Runs

section Sample

/-- Sign off a lamp. -/
def delLamp : DelArgs :=
  { href := "/obix/deviceRoot/d".toList, requesterId := "me".toList, signOff := true }

/-- A registry with devices, and calls. -/
def lampCalls (signUps : List Request) (xs : List (Fin 2 × Option DeviceCall)) :
    Option (Registry × DeviceCalls (Fin 2)) :=
  (sampleStart.bind (runAll signUps)).bind fun reg =>
    (Runs.exec DeviceCalls.step (.init reg) xs).map fun s => (reg, s)

theorem reachable_lampCalls
    {signUps : List Request} {xs : List (Fin 2 × Option DeviceCall)} {reg : Registry}
    {s : DeviceCalls (Fin 2)}
    (h : lampCalls signUps xs = some (reg, s)) :
    Reachable (fun _ _ => True) reg ∧ Runs.exec DeviceCalls.step (.init reg) xs = some s := by
  obtain ⟨reg, hreg, h⟩ := Option.bind_eq_some_iff.mp h
  obtain ⟨s, hexec, heq⟩ := Option.map_eq_some_iff.mp h
  cases heq
  obtain ⟨s₀, hstart, hreg⟩ := Option.bind_eq_some_iff.mp hreg
  exact ⟨reachable_runAll (.start hstart) hreg, hexec⟩

/-- The lamp is deleted. -/
def deleteLamp : List (Fin 2 × Option DeviceCall) :=
  (0, some (.del delLamp)) :: List.replicate 9 (0, none)

theorem deleted_not_found_lamp :
    ∃ reg s, lampCalls [sampleSignUp "d" "d/"] deleteLamp = some (reg, s) ∧ s.deleted = [1] ∧
      s.NoneDeleted := by
  have heval : (lampCalls [sampleSignUp "d" "d/"] deleteLamp).map (fun x =>
      (Runs.meets DeviceCalls.step DeviceCalls.timely (.init x.1) deleteLamp, x.2.deleted)) =
      some (true, [1]) := by
    decide +kernel
  obtain ⟨⟨reg, s⟩, hcalls, hresult⟩ := Option.map_eq_some_iff.mp heval
  obtain ⟨hmeets, hdeleted⟩ := Prod.mk.inj hresult
  obtain ⟨hreg, hexec⟩ := reachable_lampCalls hcalls
  exact ⟨reg, s, hcalls, hdeleted,
    deleted_not_found hreg s (Runs.Reaches.refl.exec deleteLamp hmeets hexec)⟩

/-- A search finds the lamp in the hash table, and puts it into the cache after `device_del` has
called `cache_invalidate`. -/
def deleteLampLate : List (Fin 2 × Option DeviceCall) :=
  [(0, some (.search "/obix/deviceRoot/d".toList)), (0, none), (0, none)] ++
    (1, some (.del delLamp)) :: List.replicate 10 (1, none) ++ [(0, none), (0, none), (1, none)]

theorem deleted_still_found :
    ¬ ∀ (reg : Registry) (s : DeviceCalls (Fin 2)), Reachable (fun _ _ => True) reg →
      Runs.Reaches DeviceCalls.step (fun _ _ => True) (.init reg) s → s.NoneDeleted := by
  intro hall
  have heval : (lampCalls [sampleSignUp "d" "d/", sampleSignUp "e" "e/", sampleSignUp "f" "f/"]
      deleteLampLate).map (fun x => (x.2.reg.cache.head?, x.2.deleted)) =
      some (some (some ("/obix/deviceRoot/d/".toList, 1)), [1]) := by
    decide +kernel
  obtain ⟨⟨reg, s⟩, hcalls, hresult⟩ := Option.map_eq_some_iff.mp heval
  obtain ⟨hslot, hdeleted⟩ := Prod.mk.inj hresult
  obtain ⟨hreg, hexec⟩ := reachable_lampCalls hcalls
  have hnone := hall reg s hreg (Runs.Reaches.refl.free deleteLampLate hexec)
  refine hnone.cached "/obix/deviceRoot/d/".toList 1 (List.mem_of_mem_head? hslot) ?_
  simp only at hdeleted
  simp [hdeleted]

end Sample

end Devices
end Obix
