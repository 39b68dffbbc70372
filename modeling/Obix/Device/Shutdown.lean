import Obix.Device.SignOff

/-!
# Deleting the devices at shutdown

`device_del` with `sign_off == 0`, which deletes the children of a device before the device, and
`obix_devices_dispose`, which begins with the device root.  No other thread is there any more.  How
many devices may be below one another is a parameter, and there is no result when they are more.
-/

namespace Obix
namespace Devices

open CString
open History (seLookup obixIdDevice)

/-- The loop over the children in `device_del`; what their deletions return is only logged. -/
def delChildren (del : Text → Registry → Option (ErrCode × Registry)) :
    List Nat → Registry → Option Registry
  | [], s => some s
  | c :: cs, s =>
      (s.heap c).bind fun child =>
        (del child.href s).bind fun r => delChildren del cs r.2

/-- `device_del` with `sign_off == 0`. -/
def deviceDelDown (requesterId : Text) : Nat → Text → Registry → Option (ErrCode × Registry)
  | 0, _, _ => none
  | n + 1, href, s =>
      deviceDelWith
        (fun i s => (s.heap i).bind fun dev =>
          delChildren (deviceDelDown requesterId n) dev.children s)
        Meanwhile.idle { href := href, requesterId := requesterId, signOff := false } s

/-- `obix_devices_dispose`: what is left when all devices have been deleted. -/
def obixDevicesDispose (n : Nat) (s : Registry) : Option Registry :=
  (deviceDelDown obixIdDevice n deviceRootHref s).map Prod.snd

section Found

variable {s : Registry} {i : Nat} {dev : ObixDev} {href : Text}

/-- Nobody is in a region, and nobody gets in any more. -/
def closedSync : Tsync :=
  { Tsync.init with beingShutdown := true }

/-- The registry while the children of a device are being deleted. -/
def closing (i : Nat) (parent : Option Nat) (href : Text) (s : Registry) : Registry :=
  raise i closedSync (deviceHold i parent { s with cache := (s.deviceSearch href).2.cache })

/-- The server may delete every device. -/
theorem seLookup_obixIdDevice (object : Text) (op : Nat) :
    seLookup obixIdDevice object op = true := by
  rw [seLookup, if_pos (.inl rfl)]

theorem deviceHold_same (i : Nat) (parent : Option Nat) (s : Registry) :
    deviceHold i parent s = { s with refcnt := (deviceHold i parent s).refcnt } := by
  cases parent <;> rfl

/-- A device that nobody is using is shut down at once. -/
theorem deviceDelShutdown_idle
    {down : Nat → Registry → Option Registry} {a : DelArgs} {parent : Option Nat}
    (hoff : a.signOff = false)
    (hdev : s.heap i = some dev)
    (hsync : s.sync i = Tsync.init)
    (hnone : ∀ u : Registry, u.heap i = some dev → dev.children = [] → down i u = some u) :
    deviceDelShutdown down Meanwhile.idle a i parent s =
      (down i (raise i closedSync s)).bind fun v => (v.heap i).map fun dev' =>
        (.success, (deviceRelease i parent (devicePurge i dev' v)).free i) := by
  have hpurge : ∀ v : Registry, deviceDelPurge Meanwhile.idle a i parent v =
      (v.heap i).map fun dev' =>
        (.success, (deviceRelease i parent (devicePurge i dev' v)).free i) := by
    intro v
    simp only [deviceDelPurge, hoff, Bool.false_eq_true, and_false, false_and, if_false]
  have hrequest : (s.sync i).shutdownRequest = some closedSync := by
    rw [hsync]
    rfl
  have hheap : (raise i closedSync s).heap i = some dev := hdev
  have hgrant : ((raise i closedSync s).sync i).shutdownGrant.isNone = false := by
    show (Function.update s.sync i closedSync i).shutdownGrant.isNone = false
    rw [Function.update_self]
    rfl
  rw [deviceDelShutdown, hrequest]
  show (if ((raise i closedSync s).sync i).shutdownGrant.isNone = true then none
    else ((raise i closedSync s).heap i).bind _) = _
  rw [hgrant, if_neg Bool.false_ne_true, hheap, Option.bind_some]
  by_cases hchildren : dev.children = []
  · rw [if_pos hchildren, hnone _ hheap hchildren]
    exact hpurge _
  · rw [if_neg hchildren, hoff, if_neg Bool.false_ne_true]
    exact congrArg _ (funext hpurge)

/-- A device is deleted with its children when nobody is using it. -/
theorem deviceDelDown_found
    (hfound : (s.deviceSearch href).1 = some i)
    (hdev : s.heap i = some dev)
    (htop : dev.parent = none → i = deviceRoot)
    (hup : ∀ p, dev.parent = some p → s.heap p ≠ none)
    (hsync : s.sync i = Tsync.init)
    (n : Nat) :
    deviceDelDown obixIdDevice (n + 1) href s =
      (delChildren (deviceDelDown obixIdDevice n) dev.children (closing i dev.parent href s)).bind
        fun v => (v.heap i).map fun dev' =>
          (.success, (deviceRelease i dev.parent (devicePurge i dev' v)).free i) := by
  have hsearch : s.deviceSearch href = (some i, (s.deviceSearch href).2) := Prod.ext hfound rfl
  obtain ⟨cache, hcache⟩ := deviceSearch_some hsearch
  have hshut : ∀ t : Registry, t.heap = s.heap → t.sync = s.sync →
      deviceDelShutdown (fun i s => (s.heap i).bind fun dev =>
          delChildren (deviceDelDown obixIdDevice n) dev.children s)
        Meanwhile.idle { href := href, requesterId := obixIdDevice, signOff := false } i
        dev.parent t =
      (delChildren (deviceDelDown obixIdDevice n) dev.children (raise i closedSync t)).bind
        fun v => (v.heap i).map fun dev' =>
          (.success, (deviceRelease i dev.parent (devicePurge i dev' v)).free i) := by
    intro t hheap hsame
    have hdev : t.heap i = some dev := by rw [hheap, hdev]
    rw [deviceDelShutdown_idle rfl hdev (by rw [hsame, hsync]), show (raise i closedSync t).heap i =
      some dev from hdev, Option.bind_some]
    intro u hu hchildren
    rw [hu, Option.bind_some, hchildren, delChildren]
  have hheld : closing i dev.parent href s =
      raise i closedSync (deviceHold i dev.parent { s with cache := cache }) := by
    rw [closing, hcache]
    rfl
  rw [deviceDelDown, deviceDelWith, hsearch]
  dsimp only
  rw [hcache, hheld]
  show (s.heap i).bind _ = _
  rw [hdev, Option.bind_some, seLookup_obixIdDevice, if_neg (by decide)]
  cases hparent : dev.parent with
  | none =>
      have hshut := hshut (({ s with cache := cache } : Registry).get i) rfl rfl
      rw [hparent] at hshut
      rw [if_pos (htop hparent)]
      exact hshut
  | some p =>
      obtain ⟨parent, hp⟩ := Option.ne_none_iff_exists'.mp (hup p hparent)
      have hshut := hshut ((({ s with cache := cache } : Registry).get i).get p) rfl rfl
      rw [hparent] at hshut
      show (s.heap p).bind _ = _
      rw [hp, Option.bind_some, seLookup_obixIdDevice, if_neg (by decide)]
      exact hshut

end Found

end Devices
end Obix
