import Obix.Device.Registry

/-!
# Sign-off

`device_del` with `sign_off == 1`, among other threads.  While the call waits, the other
threads may turn the registry `u₀` into any registry `u`.  A call that fails leaves
behind what they did and nothing of its own (`OnlyOthers`).
-/

namespace Obix
namespace Devices

open CString
open History (seLookup opDeviceRemove opDeviceDelete obixIdDevice obixIdWatch obixIdHistory)

/-- The identities of the server itself. -/
def IsServerId (id : Text) : Prop :=
  id = obixIdDevice ∨ id = obixIdWatch ∨ id = obixIdHistory

theorem seLookup_delete_iff {subject object : Text} :
    seLookup subject object opDeviceDelete = true ↔ subject = object ∨ IsServerId subject := by
  have hdelete : opDeviceDelete &&& opDeviceDelete > 0 := by decide
  unfold seLookup IsServerId
  split
  · rename_i hid
    exact ⟨fun _ => .inr hid, fun _ => rfl⟩
  · rename_i hid
    rw [if_neg (by decide)]
    simp only [hdelete, true_or, if_true, decide_eq_true_eq, hid, or_false]

/-- The call changed nothing from `s` to `t`: up to its wait, which the other threads found
the registry `u₀` in and left the registry `u`, and behind it. -/
structure OnlyOthers (s u₀ u t : Registry) : Prop where
  heap : u₀.heap = s.heap ∧ t.heap = u.heap
  tab : u₀.tab = s.tab ∧ t.tab = u.tab
  dom : u₀.dom = s.dom ∧ t.dom = u.dom
  disk : u₀.disk = s.disk ∧ t.disk = u.disk
  /-- The references taken are given back. -/
  refcnt : ∀ j, t.refcnt j - s.refcnt j = u.refcnt j - u₀.refcnt j
  /-- A shutdown flag that is raised was not raised before and is lowered again. -/
  sync : ∀ j, (u₀.sync j = s.sync j ∧ t.sync j = u.sync j) ∨
    ((s.sync j).shutdownRequest = some (u₀.sync j) ∧ t.sync j = (u.sync j).shutdownRevoke)

/-- Whether a requester may remove a device. -/
structure Entitled (s : Registry) (requesterId : Text) (dev : ObixDev) : Prop where
  owner : requesterId = dev.ownerId ∨ IsServerId requesterId
  remove : ∀ p, dev.parent = some p → ∃ parent, s.heap p = some parent ∧
    seLookup requesterId parent.ownerId opDeviceRemove = true

section Cases

/-- The references that `device_del` takes. -/
def deviceHold (i : Nat) (parent : Option Nat) (s : Registry) : Registry :=
  parent.elim (s.get i) (s.get i).get

/-- A registry whose device is marked as being shut down. -/
def raise (i : Nat) (sync : Tsync) (s : Registry) : Registry :=
  { s with sync := Function.update s.sync i sync }

variable {s t : Registry} {other : Meanwhile} {href requesterId : Text} {e : ErrCode}

theorem deviceRelease_hold (i : Nat) (parent : Option Nat) (s : Registry) :
    deviceRelease i parent (deviceHold i parent s) = s := by
  cases parent with
  | none => exact put_get s i
  | some p => simp only [deviceRelease, deviceHold, Option.elim_some, put_get]

theorem deviceDelPurge_some
    {a : DelArgs} {i : Nat} {parent : Option Nat}
    (h : deviceDelPurge other a i parent s = some (e, t)) :
    ∃ v dev, (v = s ∨ v = other.parent s) ∧ v.heap i = some dev ∧ e = .success ∧
      t = (deviceRelease i parent (devicePurge i dev v)).free i := by
  obtain ⟨v, hv, h⟩ : ∃ v, (v = s ∨ v = other.parent s) ∧
      (if a.signOff ∧ parent.any (fun p => (v.sync p).writerRequest.isNone) then none
      else (v.heap i).map fun dev =>
        (ErrCode.success, (deviceRelease i parent (devicePurge i dev v)).free i)) =
      some (e, t) := by
    refine ⟨_, ?_, h⟩
    split
    · exact .inr rfl
    · exact .inl rfl
  split at h
  · cases h
  · obtain ⟨dev, hdev, hret⟩ := Option.map_eq_some_iff.mp h
    cases hret
    exact ⟨v, dev, hv, hdev, rfl, rfl⟩

/-- What a call from `tsync_shutdown_entry` on can do. -/
inductive ShutdownOutcome
    (other : Meanwhile) (i : Nat) (parent : Option Nat) (s : Registry) :
    ErrCode → Registry → Prop
  | busy
      (h : (s.sync i).shutdownRequest = none) :
      ShutdownOutcome other i parent s .deviceNoSuchUri (deviceRelease i parent s)
  | children
      {sync : Tsync} {u : Registry} {dev : ObixDev}
      (h : (s.sync i).shutdownRequest = some sync)
      (hu : u = other.shutdown (raise i sync s))
      (hgrant : (u.sync i).shutdownGrant ≠ none)
      (hdev : u.heap i = some dev)
      (hne : dev.children ≠ []) :
      ShutdownOutcome other i parent s .deviceChildren
        (deviceRelease i parent (raise i (u.sync i).shutdownRevoke u))
  | removed
      {sync : Tsync} {u v : Registry} {dev dev' : ObixDev}
      (h : (s.sync i).shutdownRequest = some sync)
      (hu : u = other.shutdown (raise i sync s))
      (hgrant : (u.sync i).shutdownGrant ≠ none)
      (hdev : u.heap i = some dev)
      (hchildren : dev.children = [])
      (hv : v = u ∨ v = other.parent u)
      (hdev' : v.heap i = some dev') :
      ShutdownOutcome other i parent s .success
        ((deviceRelease i parent (devicePurge i dev' v)).free i)

theorem deviceDelShutdown_cases
    {i : Nat} {parent : Option Nat}
    (h : deviceDelShutdown (fun _ s => some s) other
      { href := href, requesterId := requesterId, signOff := true } i parent s = some (e, t)) :
    ShutdownOutcome other i parent s e t := by
  unfold deviceDelShutdown at h
  split at h
  · rename_i hbusy
    cases h
    exact .busy hbusy
  · rename_i sync hsync
    dsimp only at h
    split at h
    · cases h
    · rename_i hgrant
      have hgrant := mt Option.isNone_iff_eq_none.mpr hgrant
      obtain ⟨dev, hdev, h⟩ := Option.bind_eq_some_iff.mp h
      split at h
      · rename_i hchildren
        obtain ⟨v, dev', hv, hdev', rfl, rfl⟩ := deviceDelPurge_some h
        exact .removed hsync rfl hgrant hdev hchildren hv hdev'
      · rename_i hne
        simp only [if_true] at h
        cases h
        exact .children hsync rfl hgrant hdev hne

/-- What a call can do: it is refused with a look at the registry, or the device is found
and its requester is entitled to remove it. -/
inductive DelOutcome
    (other : Meanwhile) (href requesterId : Text) (s : Registry) :
    ErrCode → Registry → Prop
  | refused
      {e : ErrCode} {cache : Cache Nat}
      (hcache : (s.deviceSearch href).2.cache = cache)
      (he : e ≠ .success) :
      DelOutcome other href requesterId s e { s with cache := cache }
  | entitled
      {i : Nat} {dev : ObixDev} {cache : Cache Nat} {e : ErrCode} {t : Registry}
      (hcache : (s.deviceSearch href).2.cache = cache)
      (hfound : (s.deviceSearch href).1 = some i)
      (hdev : s.heap i = some dev)
      (hentitled : Entitled s requesterId dev)
      (h : ShutdownOutcome other i dev.parent
        (deviceHold i dev.parent { s with cache := cache }) e t) :
      DelOutcome other href requesterId s e t

theorem deviceDel_cases
    (h : deviceDel other href requesterId s = some (e, t)) :
    DelOutcome other href requesterId s e t := by
  unfold deviceDel deviceDelWith at h
  split at h
  · rename_i u hsearch
    have hsame := deviceSearch_none hsearch
    cases h
    have hrefused : DelOutcome other href requesterId s .deviceNoSuchUri
        { s with cache := s.cache } := .refused (by rw [hsearch, hsame]) (by decide)
    rwa [hsame]
  · rename_i i u hsearch
    obtain ⟨cache, rfl⟩ := deviceSearch_some hsearch
    obtain ⟨dev, hdev, h⟩ := Option.bind_eq_some_iff.mp h
    dsimp only at h
    have hfound : (s.deviceSearch href).1 = some i := by rw [hsearch]
    have hcache : (s.deviceSearch href).2.cache = cache := by
      rw [hsearch]
      rfl
    split at h
    · cases h
      rw [put_get]
      exact .refused hcache (by decide)
    · rename_i hdelete
      have howner := seLookup_delete_iff.mp (by simpa using hdelete)
      split at h
      · rename_i hparent
        split at h
        · rename_i hroot
          have hentitled : Entitled s requesterId dev :=
            ⟨howner, fun p hp => by simp [hparent] at hp⟩
          refine .entitled hcache hfound hdev hentitled ?_
          rw [hparent]
          exact deviceDelShutdown_cases h
        · cases h
          rw [put_get]
          exact .refused hcache (by decide)
      · rename_i p hparent
        obtain ⟨parent, hp, h⟩ := Option.bind_eq_some_iff.mp h
        split at h
        · cases h
          have hrelease := deviceRelease_hold i (some p) { s with cache := cache }
          rw [show deviceRelease i (some p) ((({ s with cache := cache } : Registry).get i).get p) =
            { s with cache := cache } from hrelease]
          exact .refused hcache (by decide)
        · rename_i hremove
          have hentitled : Entitled s requesterId dev := by
            refine ⟨howner, fun q hq => ?_⟩
            obtain rfl := Option.some.inj (hparent.symm.trans hq)
            exact ⟨parent, hp, by simpa using hremove⟩
          refine .entitled hcache hfound hdev hentitled ?_
          rw [hparent]
          exact deviceDelShutdown_cases h

/-- A call without references and without a raised flag of its own. -/
theorem onlyOthers_refused (s : Registry) (cache : Cache Nat) :
    OnlyOthers s { s with cache := cache } { s with cache := cache } { s with cache := cache } where
  heap := ⟨rfl, rfl⟩
  tab := ⟨rfl, rfl⟩
  dom := ⟨rfl, rfl⟩
  disk := ⟨rfl, rfl⟩
  refcnt := fun _ => rfl
  sync := fun _ => .inl ⟨rfl, rfl⟩

theorem refcnt_deviceRelease (i : Nat) (parent : Option Nat) (s u : Registry) (j : Nat) :
    (deviceRelease i parent u).refcnt j - s.refcnt j =
      u.refcnt j - (deviceHold i parent s).refcnt j := by
  cases parent with
  | none =>
      simp only [deviceRelease, deviceHold, Option.elim_none, Registry.put, Registry.get,
        Function.update_apply]
      split <;> rename_i hj
      · subst hj
        omega
      · rfl
  | some p =>
      simp only [deviceRelease, deviceHold, Option.elim_some, Registry.put, Registry.get,
        Function.update_apply]
      split <;> split <;> simp_all <;> omega

/-- A call that raises the flag and then finds children. -/
theorem onlyOthers_children
    {i : Nat} {parent : Option Nat} {cache : Cache Nat} {sync : Tsync}
    (h : (s.sync i).shutdownRequest = some sync)
    (u : Registry) :
    OnlyOthers s (raise i sync (deviceHold i parent { s with cache := cache })) u
      (deviceRelease i parent (raise i (u.sync i).shutdownRevoke u)) where
  heap := by cases parent <;> exact ⟨rfl, rfl⟩
  tab := by cases parent <;> exact ⟨rfl, rfl⟩
  dom := by cases parent <;> exact ⟨rfl, rfl⟩
  disk := by cases parent <;> exact ⟨rfl, rfl⟩
  refcnt := fun j => refcnt_deviceRelease i parent { s with cache := cache } _ j
  sync := by
    intro j
    have hhold : (deviceHold i parent { s with cache := cache }).sync = s.sync := by
      cases parent <;> rfl
    have hrelease : (deviceRelease i parent (raise i (u.sync i).shutdownRevoke u)).sync =
        Function.update u.sync i (u.sync i).shutdownRevoke := by
      cases parent <;> rfl
    rw [hrelease, raise, hhold]
    by_cases hj : j = i
    · subst hj
      simp [h]
    · simp [hj]

end Cases

variable {s t : Registry} {other : Meanwhile} {href requesterId : Text} {e : ErrCode}

/-- Nothing changes but the cache if the other threads do nothing meanwhile. -/
theorem OnlyOthers.idle
    {u : Registry}
    (h : OnlyOthers s u u t) :
    t.heap = s.heap ∧ t.tab = s.tab ∧ t.dom = s.dom ∧ t.disk = s.disk ∧
      t.refcnt = s.refcnt ∧ t.sync = s.sync := by
  refine ⟨h.heap.2.trans h.heap.1, h.tab.2.trans h.tab.1, h.dom.2.trans h.dom.1,
    h.disk.2.trans h.disk.1, ?_, ?_⟩
  · funext j
    have hj := h.refcnt j
    omega
  · funext j
    rcases h.sync j with ⟨hu, ht⟩ | ⟨hrequest, ht⟩
    · rw [ht, hu]
    · unfold Tsync.shutdownRequest at hrequest
      split at hrequest
      · cases hrequest
      · rename_i hflag
        rw [ht, ← Option.some.inj hrequest, Tsync.shutdownRevoke]
        generalize s.sync j = sync at hflag ⊢
        cases sync
        simp_all

/-- The call that removes a device, with the registry `u₀` it waits in and the registry `u`
in which it has exclusive access. -/
theorem deviceDel_success
    (h : deviceDel other href requesterId s = some (.success, t)) :
    ∃ i dev, (s.deviceSearch href).1 = some i ∧ s.heap i = some dev ∧
      Entitled s requesterId dev ∧
      ∃ u₀ u dev', u₀.heap = s.heap ∧ (s.sync i).shutdownRequest = some (u₀.sync i) ∧
        u = other.shutdown u₀ ∧ (u.sync i).shutdownGrant ≠ none ∧
        u.heap i = some dev' ∧ dev'.children = [] := by
  have hout := deviceDel_cases h
  generalize he : ErrCode.success = e at hout
  cases hout with
  | refused hcache hne => exact absurd he.symm hne
  | @entitled i dev cache e t hcache hfound hdev hentitled hout =>
      have hheap : (deviceHold i dev.parent { s with cache := cache }).heap = s.heap := by
        cases dev.parent <;> rfl
      have hsync : (deviceHold i dev.parent { s with cache := cache }).sync = s.sync := by
        cases dev.parent <;> rfl
      cases hout with
      | busy => cases he
      | children => cases he
      | @removed sync u v dev' dev'' hrequest hu hgrant hdev' hchildren hv hdev'' =>
          rw [hsync] at hrequest
          refine ⟨i, dev, hfound, hdev, hentitled,
            raise i sync (deviceHold i dev.parent { s with cache := cache }), u, dev', hheap,
            ?_, hu, hgrant, hdev', hchildren⟩
          simp [raise, hrequest]

theorem deviceDel_error
    (h : deviceDel other href requesterId s = some (e, t))
    (he : e ≠ .success) :
    ∃ u₀ u, (u = u₀ ∨ u = other.shutdown u₀) ∧ OnlyOthers s u₀ u t := by
  cases deviceDel_cases h with
  | @refused e cache => exact ⟨_, _, .inl rfl, onlyOthers_refused s cache⟩
  | @entitled i dev cache e t hcache hfound hdev hentitled hout =>
      cases hout with
      | busy hbusy =>
          rw [deviceRelease_hold]
          exact ⟨_, _, .inl rfl, onlyOthers_refused s cache⟩
      | @children sync u dev' hrequest hu hgrant hdev' hne =>
          have hsync : (deviceHold i dev.parent { s with cache := cache }).sync = s.sync := by
            cases dev.parent <;> rfl
          rw [hsync] at hrequest
          exact ⟨_, u, .inr hu, onlyOthers_children hrequest u⟩
      | removed => exact absurd rfl he

/-- A device is signed off only on behalf of its owner or the server, with the permission
to remove it from its parent, and without children when exclusive access is gained.  A call
that fails leaves only what the other threads did meanwhile, and everything as it was if
they did nothing. -/
theorem deviceDel_safe
    (h : deviceDel other href requesterId s = some (e, t)) :
    (e = .success → ∃ i dev, (s.deviceSearch href).1 = some i ∧ s.heap i = some dev ∧
      Entitled s requesterId dev ∧
      ∃ u₀ u dev', u₀.heap = s.heap ∧ (s.sync i).shutdownRequest = some (u₀.sync i) ∧
        u = other.shutdown u₀ ∧ (u.sync i).shutdownGrant ≠ none ∧
        u.heap i = some dev' ∧ dev'.children = []) ∧
    (e ≠ .success → ∃ u₀ u, (u = u₀ ∨ u = other.shutdown u₀) ∧ OnlyOthers s u₀ u t) ∧
    (e ≠ .success → other = Meanwhile.idle →
      t.heap = s.heap ∧ t.tab = s.tab ∧ t.dom = s.dom ∧ t.disk = s.disk ∧
        t.refcnt = s.refcnt ∧ t.sync = s.sync) := by
  refine ⟨?_, deviceDel_error h, ?_⟩
  · rintro rfl
    exact deviceDel_success h
  · intro he hidle
    obtain ⟨u₀, u, hu, honly⟩ := deviceDel_error h he
    have hsame : u = u₀ := by
      rcases hu with hu | hu
      · exact hu
      · rw [hu, hidle]
        rfl
    exact (hsame ▸ honly).idle

/-- The owner of a device signs it off. -/
theorem deviceDel_safe_signedOff :
    ∃ s t, sampleStart.bind (runAll [sampleSignUp "a" "test/a"]) = some s ∧
      deviceDel Meanwhile.idle "/obix/deviceRoot/test/a".toList "me".toList s =
        some (.success, t) ∧
      ∃ i dev, (s.deviceSearch "/obix/deviceRoot/test/a".toList).1 = some i ∧
        s.heap i = some dev ∧ Entitled s "me".toList dev := by
  have heval : ((sampleStart.bind (runAll [sampleSignUp "a" "test/a"])).bind fun s =>
      deviceDel Meanwhile.idle "/obix/deviceRoot/test/a".toList "me".toList s).map Prod.fst =
        some .success := by
    decide +kernel
  obtain ⟨⟨e, t⟩, hret, he⟩ := Option.map_eq_some_iff.mp heval
  obtain ⟨s, hs, hdel⟩ := Option.bind_eq_some_iff.mp hret
  obtain rfl : e = .success := he
  obtain ⟨i, dev, hfound, hdev, hentitled, -⟩ := (deviceDel_safe hdel).1 rfl
  exact ⟨s, t, hs, hdel, i, dev, hfound, hdev, hentitled⟩

end Devices
end Obix
