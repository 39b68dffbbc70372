import Obix.Device.MetaFile
import Obix.History.Facility
import Obix.Lib.Disk
import Obix.Utils.Cache
import Obix.Utils.Hash
import Obix.Utils.Tsync
import Obix.Xml.Dump
import Obix.Xml.Owned

/-!
# The device registry

`device_search`, `device_add` and `device_del` of `device.c` with the handlers that call
them.  Descriptors live in a heap and are named by their addresses.  The registry also
holds the hash table, the cache, the global DOM tree and the file system.

A call is one transition; the places where `device_del` waits for other threads are
parameters of it.  A result `none` means that the call does not return in a defined way:
a freed or uninitialised pointer is used, or a wait does not end.  Watches, reference
nodes and modification times are left out.
-/

namespace Obix
namespace Devices

open CString XmlNode
open History (seLookup opDeviceRemove opDeviceDelete obixIdDevice)

def opDeviceAdd : Nat := 0x1

/-- `SERVER_DB_DEVICES`. -/
def serverDbDevices : Text := "/devices/".toList

/-- `SERVER_DB_DEVICE_META`. -/
def serverDbDeviceMeta : Text := "meta".toList

/-- `SERVER_DB_DEVICE_CONTRACT`. -/
def serverDbDeviceContract : Text := "device".toList

/-- `XML_FILENAME_SUFFIX`. -/
def xmlFilenameSuffix : Text := ".xml".toList

/-- `obix_dev_t`. -/
structure ObixDev where
  href : Text
  ownerId : Text
  dir : Text
  file : Option Text
  metaFile : Option Text
  parent : Option Nat
  children : List Nat
  deriving DecidableEq, Repr

/-- `obix_devices_t` together with the descriptors, the DOM tree and the disk. -/
structure Registry where
  heap : Nat → Option ObixDev
  refcnt : Nat → Int
  sync : Nat → Tsync
  tab : HashTable Nat
  cache : Cache Nat
  dom : XmlNode Nat
  disk : Disk
  /-- The address of the next descriptor. -/
  next : Nat

/-- The address of the descriptor of the device root. -/
def deviceRoot : Nat := 0

/-- `device_compute_hash`. -/
def deviceComputeHash (href : Text) (tabSize : Nat) : Nat :=
  if deviceRootHref.isPrefixOf href && deviceRootHref.length < href.length then
    hashBkdr (href.drop deviceRootHref.length) tabSize
  else hashBkdr href tabSize

/-- The paths that `device_init` assembles for the files of a folder. -/
def linkFile (dir name : Text) : Option Text :=
  linkPathname dir none (some name) (some xmlFilenameSuffix)

/-- `device_init`; the device root has no files. -/
def deviceInit (href dir requesterId : Text) : Option ObixDev :=
  let dev : ObixDev :=
    { href := href, ownerId := requesterId, dir := dir, file := none, metaFile := none,
      parent := none, children := [] }
  if isDeviceRootHref href then some dev
  else
    (linkFile dir serverDbDeviceMeta).bind fun metaFile =>
      (linkFile dir serverDbDeviceContract).map fun file =>
        { dev with file := some file, metaFile := some metaFile }

section Files

/-- What goes wrong with the disk during a call besides what its entries explain. -/
structure Faults where
  mkdir : Option Errno
  creatFile : Option Errno
  creatMeta : Option Errno
  writeMeta : Bool
  writeFile : Bool
  deriving DecidableEq, Repr

/-- Nothing goes wrong. -/
def Faults.none : Faults :=
  { mkdir := .none, creatFile := .none, creatMeta := .none, writeMeta := false,
    writeFile := false }

/-- The result of `__device_create_files` for a value of `errno`. -/
def createError : Errno → ErrCode
  | .edquot => .noMem
  | .enomem => .noMem
  | .enospc => .noMem
  | .eexist => .diskIo
  | .other => .diskIo

variable (dev : ObixDev)

/-- `__device_remove_files`. -/
def deviceRemoveFiles (disk : Disk) : Disk :=
  let disk := dev.metaFile.elim disk disk.unlink
  let disk := dev.file.elim disk disk.unlink
  disk.rmdir dev.dir

/-- `__device_create_files`; a device other than the root has both paths. -/
def deviceCreateFiles (faults : Faults) (disk : Disk) : ErrCode × Disk :=
  let file := dev.file.getD []
  match disk.mkdir faults.mkdir dev.dir with
  | (some e, disk) => (createError e, disk)
  | (none, disk) =>
      match disk.creat faults.creatFile file with
      | (some e, disk) => (createError e, disk.rmdir dev.dir)
      | (none, disk) =>
          match disk.creat faults.creatMeta (dev.metaFile.getD []) with
          | (some e, disk) => (createError e, (disk.unlink file).rmdir dev.dir)
          | (none, disk) => (.success, disk)

/-- `__device_create_files`, `__device_write_meta` and `__device_write_file` as they are
called for a new device, whose node has no child devices yet. -/
def deviceSetupFiles (node : Xml) (faults : Faults) (disk : Disk) : ErrCode × Disk :=
  match deviceCreateFiles dev faults disk with
  | (.success, disk) =>
      match disk.write faults.writeMeta (dev.metaFile.getD [])
          (deviceWriteMeta dev.ownerId dev.href) with
      | (false, disk) => (.diskIo, disk)
      | (true, disk) =>
          match disk.write faults.writeFile (dev.file.getD []) (xmlHeader ++ xmlDumpNode node) with
          | (false, disk) => (.diskIo, disk)
          | (true, disk) => (.success, disk)
  | (e, disk) => (e, disk)

end Files

namespace Registry

variable (s : Registry)

/-- `device_get`. -/
def get (i : Nat) : Registry :=
  { s with refcnt := Function.update s.refcnt i (s.refcnt i + 1) }

/-- `device_put`. -/
def put (i : Nat) : Registry :=
  { s with refcnt := Function.update s.refcnt i (s.refcnt i - 1) }

/-- `device_compare_str`. -/
def compareStr (key : Text) (i : Nat) : Bool :=
  (s.heap i).any fun dev => isStrIdentical key dev.href

/-- `device_search`. -/
def deviceSearch (href : Text) : Option Nat × Registry :=
  if isGivenType href = false then (none, s)
  else if isDeviceRootHref href then (some deviceRoot, s.get deviceRoot)
  else
    match s.cache.search href with
    | (some i, cache) => (some i, ({ s with cache := cache }).get i)
    | (none, _) =>
        match s.tab.search deviceComputeHash s.compareStr href with
        | none => (none, s)
        | some i =>
            (some i,
              ({ s with
                cache := (s.heap i).elim s.cache fun dev => s.cache.update dev.href i }).get i)

/-- The loop of `device_search_parent`.  `dirname` makes a path shorter until it is a
slash or a dot, so that as many rounds as the href has characters show whether the loop
ends. -/
def searchUp : Nat → Text → Registry → Option Nat × Registry
  | 0, _, s => (none, s)
  | n + 1, href, s =>
      match s.deviceSearch href with
      | (some i, s) => (some i, s)
      | (none, s) => searchUp n (dirname href) s

/-- `device_search_parent`. -/
def deviceSearchParent (href : Text) : Option Nat × Registry :=
  if isGivenType href = false ∨ isDeviceRootHref href = true then (none, s)
  else searchUp (href.length + 1) (dirname href) s

/-- The way from the node of a device down to the node of a href. -/
def nodePath (dev : ObixDev) (href : Text) : Path :=
  if isStrIdentical dev.href href then [] else tokens '/' (href.drop dev.href.length)

/-- `__device_get_node_core`. -/
def deviceGetNodeCore (i : Nat) (dev : ObixDev) (href : Text) : Option (XmlNode Nat) :=
  (s.dom.ownNode i).bind fun node =>
    if isStrIdentical dev.href href then some node
    else xmldbGetNodeCore node (href.drop dev.href.length)

/-- Change a descriptor that is in the heap. -/
def modify (i : Nat) (f : ObixDev → ObixDev) : Registry :=
  { s with heap := Function.update s.heap i ((s.heap i).map f) }

/-- `__device_link`. -/
def deviceLink (i p : Nat) (child : ObixDev) : Registry :=
  let s : Registry :=
    { s with
      heap := Function.update s.heap i (some { child with parent := some p })
      tab := s.tab.add deviceComputeHash s.compareStr child.href i
      cache := s.cache.update child.href i }
  s.modify p fun parent => { parent with children := parent.children ++ [i] }

/-- `__device_unlink`. -/
def deviceUnlink (i : Nat) (dev : ObixDev) : Registry :=
  let s : Registry :=
    { s with
      tab := s.tab.del deviceComputeHash s.compareStr dev.href
      cache := s.cache.invalidate dev.href }
  let s := dev.parent.elim s fun p =>
    s.modify p fun parent => { parent with children := parent.children.erase i }
  s.modify i fun dev => { dev with parent := none }

/-- Free a descriptor. -/
def free (i : Nat) : Registry :=
  { s with heap := Function.update s.heap i none }

end Registry

section Add

/-- The arguments of `device_add`. -/
structure AddArgs where
  input : Xml
  href : Text
  requesterId : Text
  signUp : Bool
  faults : Faults

variable (a : AddArgs)

/-- The contract as it gets into the DOM tree. -/
def AddArgs.node : Xml :=
  if a.signUp then (setRelativeHref a.input).1 else a.input

/-- The child of a device with a href, as `device_add` looks for it. -/
def childWith (s : Registry) (parent : ObixDev) (href : Text) : Option ObixDev :=
  (parent.children.filterMap s.heap).find? fun dev => isStrIdentical dev.href href

/-- `device_add` from `xmldb_add_child` up to `__device_link`. -/
def deviceMount (p : Nat) (parent child : ObixDev) (s : Registry) : Registry :=
  let i := s.next
  { s.deviceLink i p child with
    dom := s.dom.modifyOwn p
      (modifyAt (addChild (adopt i a.node)) (Registry.nodePath parent (dirname a.href)))
    refcnt := Function.update s.refcnt i 0
    sync := Function.update s.sync i Tsync.init
    next := i + 1 }

/-- What `device_add` takes back when the files cannot be set up. -/
def deviceWithdraw (i : Nat) (dev : ObixDev) (disk : Disk) (s : Registry) : Registry :=
  let s := { s with disk := deviceRemoveFiles dev disk }
  let s := s.deviceUnlink i dev
  { s.free i with dom := s.dom.removeOwn i }

/-- `device_add` inside the write region of the parent, behind its checks. -/
def deviceEnter (p : Nat) (parent child : ObixDev) (s : Registry) : ErrCode × Registry :=
  let t := deviceMount a p parent child s
  if a.signUp then
    match deviceSetupFiles child a.node a.faults s.disk with
    | (.success, disk) => (.success, { t with disk := disk })
    | (e, disk) => (e, deviceWithdraw s.next { child with parent := some p } disk t)
  else (.success, t)

/-- `device_add` from `device_init` on. -/
def deviceAddUnder (p : Nat) (parent : ObixDev) (name : Text) (s : Registry) :
    ErrCode × Registry :=
  match (linkPathname parent.dir none (some name) none).bind fun dir =>
      deviceInit a.href dir a.requesterId with
  | none => (.noMem, s)
  | some child =>
      if seLookup a.requesterId parent.ownerId opDeviceAdd = false then (.permDenied, s)
      else if (s.sync p).writerRequest.isNone then (.invalidState, s)
      else
        match childWith s parent a.href with
        | some dev =>
            (if dev.ownerId = a.requesterId then .deviceExists else .deviceConflictOwner, s)
        | none =>
            if (s.deviceGetNodeCore p parent (dirname a.href)).isNone then (.deviceNoSuchUri, s)
            else deviceEnter a p parent child s

/-- `device_add`.  Without a name the pointer `dir` is freed before it has a value. -/
def deviceAdd (s : Registry) : Option (ErrCode × Registry) :=
  match s.deviceSearchParent a.href with
  | (none, s) => some (.deviceNoSuchUri, s)
  | (some p, s) =>
      (s.heap p).bind fun parent =>
        (a.input.getProp attrName).map fun name =>
          let r := deviceAddUnder a p parent name s
          (if r.1 = .deviceExists then .success else r.1, r.2.put p)

end Add

section Del

/-- The arguments of `device_del`. -/
structure DelArgs where
  href : Text
  requesterId : Text
  signOff : Bool
  deriving DecidableEq, Repr

/-- What the other threads do while `device_del` waits: for exclusive access to the
device, and for the write region of its parent. -/
structure Meanwhile where
  shutdown : Registry → Registry
  parent : Registry → Registry

/-- The other threads do nothing. -/
def Meanwhile.idle : Meanwhile :=
  { shutdown := id, parent := id }

/-- `__device_purge` as `device_del` calls it. -/
def devicePurge (i : Nat) (dev : ObixDev) (s : Registry) : Registry :=
  { s.deviceUnlink i dev with
    dom := s.dom.removeOwn i
    disk := deviceRemoveFiles dev s.disk }

/-- The references that `device_del` gives back. -/
def deviceRelease (i : Nat) (parent : Option Nat) (s : Registry) : Registry :=
  (parent.elim s s.put).put i

/-- `device_del` from the write region of the parent on. -/
def deviceDelPurge (other : Meanwhile) (a : DelArgs) (i : Nat) (parent : Option Nat) (s : Registry) :
    Option (ErrCode × Registry) :=
  let s := if parent.isSome ∧ a.signOff then other.parent s else s
  if a.signOff ∧ parent.any (fun p => (s.sync p).writerRequest.isNone) then none
  else
    (s.heap i).map fun dev => (.success, (deviceRelease i parent (devicePurge i dev s)).free i)

/-- `device_del` from `tsync_shutdown_entry` on. -/
def deviceDelShutdown
    (delChildren : Nat → Registry → Option Registry)
    (other : Meanwhile)
    (a : DelArgs)
    (i : Nat)
    (parent : Option Nat)
    (s : Registry) :
    Option (ErrCode × Registry) :=
  match (s.sync i).shutdownRequest with
  | none => some (.deviceNoSuchUri, deviceRelease i parent s)
  | some sync =>
      let s := other.shutdown { s with sync := Function.update s.sync i sync }
      if (s.sync i).shutdownGrant.isNone then none
      else
        (s.heap i).bind fun dev =>
          if dev.children = [] then deviceDelPurge other a i parent s
          else if a.signOff then
            let s := { s with sync := Function.update s.sync i (s.sync i).shutdownRevoke }
            some (.deviceChildren, deviceRelease i parent s)
          else (delChildren i s).bind (deviceDelPurge other a i parent)

/-- `device_del`, with the loop over the children as a parameter. -/
def deviceDelWith
    (delChildren : Nat → Registry → Option Registry)
    (other : Meanwhile)
    (a : DelArgs)
    (s : Registry) :
    Option (ErrCode × Registry) :=
  match s.deviceSearch a.href with
  | (none, s) => some (.deviceNoSuchUri, s)
  | (some i, s) =>
      (s.heap i).bind fun dev =>
        if seLookup a.requesterId dev.ownerId opDeviceDelete = false then
          some (.permDenied, s.put i)
        else
          match dev.parent with
          | none =>
              if i = deviceRoot then deviceDelShutdown delChildren other a i none s
              else some (.deviceOrphan, s.put i)
          | some p =>
              let s := s.get p
              (s.heap p).bind fun parent =>
                if seLookup a.requesterId parent.ownerId opDeviceRemove = false then
                  some (.permDenied, deviceRelease i (some p) s)
                else deviceDelShutdown delChildren other a i (some p) s

/-- `device_del` with `sign_off == 1`, which does not go into the children. -/
def deviceDel (other : Meanwhile) (href requesterId : Text) (s : Registry) :
    Option (ErrCode × Registry) :=
  deviceDelWith (fun _ s => some s) other
    { href := href, requesterId := requesterId, signOff := true } s

end Del

section Handlers

mutual

/-- `xml_copy` with `EXCLUDE_COMMENTS`. -/
def xmlCopy : Xml → Xml
  | .element o name attrs cs => .element o name attrs (xmlCopyAll cs)
  | .text o content => .text o content
  | .comment o content => .comment o content

def xmlCopyAll : List Xml → List Xml
  | [] => []
  | .comment _ _ :: cs => xmlCopyAll cs
  | .element o name attrs inner :: cs => xmlCopy (.element o name attrs inner) :: xmlCopyAll cs
  | .text o content :: cs => .text o content :: xmlCopyAll cs

end

theorem getProp_xmlCopy (attr : Text) (x : Xml) :
    (xmlCopy x).getProp attr = x.getProp attr := by
  cases x <;> simp [xmlCopy, XmlNode.getProp]

/-- The checks that `handlerSignUp` and `handlerSignOff` have in common. -/
def withHref
    (requesterId : Option Text)
    (input : Option Xml)
    (s : Registry)
    (k : Text → Xml → Text → Option (ErrCode × Registry)) :
    Option (ErrCode × Registry) :=
  match requesterId, input with
  | none, _ => some (.noRequesterId, s)
  | some _, none => some (.noInput, s)
  | some requesterId, some input =>
      match input.getProp attrHref with
      | none => some (.noHref, s)
      | some href =>
          if xmlIsValidHref href = false then some (.invalidHref, s)
          else if isDeviceRootHref href then some (.permDenied, s)
          else k requesterId input href

/-- `handlerSignUp`. -/
def handlerSignUp
    (requesterId : Option Text)
    (input : Option Xml)
    (faults : Faults)
    (s : Registry) :
    Option (ErrCode × Registry) :=
  withHref requesterId input s fun requesterId input href =>
    deviceAdd
      { input := xmlCopy input, href := href, requesterId := requesterId, signUp := true,
        faults := faults }
      s

/-- `handlerSignOff`. -/
def handlerSignOff (requesterId : Option Text) (input : Option Xml) (s : Registry) :
    Option (ErrCode × Registry) :=
  withHref requesterId input s fun requesterId _ href =>
    deviceDel Meanwhile.idle href requesterId s

/-- A request to one of the two handlers. -/
inductive Request
  | signUp (requesterId : Option Text) (input : Option Xml) (faults : Faults)
  | signOff (requesterId : Option Text) (input : Option Xml)

/-- What a request does. -/
def Request.run : Request → Registry → Option (ErrCode × Registry)
  | signUp requesterId input faults, s => handlerSignUp requesterId input faults s
  | signOff requesterId input, s => handlerSignOff requesterId input s

end Handlers

section Start

/-- `obix_devices_init` before it loads files: the device root is the only device. -/
def devicesStart
    (resdir : Text)
    (tabSize cacheSize : Nat)
    (dom : Xml)
    (disk : Disk) :
    Option Registry :=
  (linkPathname resdir none (some serverDbDevices) none).bind fun dir =>
    if tabSize = 0 ∨ cacheSize = 0 ∨ (xmldbGetNode dom deviceRootHref).isNone then none
    else
      (deviceInit deviceRootHref dir obixIdDevice).map fun root =>
        { heap := Function.update (fun _ => none) deviceRoot (some root)
          refcnt := fun _ => 0
          sync := fun _ => Tsync.init
          tab := HashTable.init tabSize
          cache := Cache.init cacheSize
          dom := modifyAt (setupPrivate deviceRoot) (tokens '/' deviceRootHref) (plain dom)
          disk := disk
          next := deviceRoot + 1 }

/-- The registries that requests lead to from the start, when nothing was on disk; `ok` is
a condition on the requests. -/
inductive Reachable (ok : Request → Registry → Prop) : Registry → Prop
  | start
      {resdir : Text} {tabSize cacheSize : Nat} {dom : Xml} {disk : Disk} {s : Registry}
      (h : devicesStart resdir tabSize cacheSize dom disk = some s) :
      Reachable ok s
  | step
      {s t : Registry} {r : Request} {e : ErrCode}
      (hs : Reachable ok s)
      (hok : ok r s)
      (h : r.run s = some (e, t)) :
      Reachable ok t

/-- Requests one after the other. -/
def runAll (rs : List Request) (s : Registry) : Option Registry :=
  rs.foldlM (fun s r => (r.run s).map Prod.snd) s

theorem reachable_runAll
    {rs : List Request} {s t : Registry}
    (hs : Reachable (fun _ _ => True) s)
    (h : runAll rs s = some t) :
    Reachable (fun _ _ => True) t := by
  induction rs generalizing s with
  | nil =>
      obtain rfl : s = t := Option.some.inj h
      exact hs
  | cons r rs ih =>
      obtain ⟨u, hu, hrest⟩ := Option.bind_eq_some_iff.mp h
      obtain ⟨⟨e, u⟩, hstep, rfl⟩ := Option.map_eq_some_iff.mp hu
      exact ih (.step hs trivial hstep) hrest

end Start

section Search

variable {s t : Registry} {href : Text} {i : Nat}

/-- A device that was found has one more reference; only the cache changes besides. -/
theorem deviceSearch_some
    (h : s.deviceSearch href = (some i, t)) :
    ∃ cache, t = ({ s with cache := cache } : Registry).get i := by
  unfold Registry.deviceSearch at h
  split at h
  · cases h
  · split at h
    · cases h
      exact ⟨s.cache, rfl⟩
    · split at h
      · cases h
        exact ⟨_, rfl⟩
      · split at h
        · cases h
        · cases h
          exact ⟨_, rfl⟩

theorem deviceSearch_none
    (h : s.deviceSearch href = (none, t)) :
    t = s := by
  unfold Registry.deviceSearch at h
  split at h
  · cases h
    rfl
  · split at h
    · cases h
    · split at h
      · cases h
      · split at h
        · cases h
          rfl
        · cases h

theorem searchUp_spec (n : Nat) (href : Text) (s : Registry) :
    (∃ i cache, Registry.searchUp n href s =
      (some i, ({ s with cache := cache } : Registry).get i)) ∨
    Registry.searchUp n href s = (none, s) := by
  induction n generalizing href with
  | zero => exact .inr rfl
  | succ n ih =>
      unfold Registry.searchUp
      split
      · rename_i i t h
        obtain ⟨cache, rfl⟩ := deviceSearch_some h
        exact .inl ⟨i, cache, rfl⟩
      · rename_i t h
        obtain rfl := deviceSearch_none h
        exact ih (dirname href)

theorem deviceSearchParent_spec (s : Registry) (href : Text) :
    (∃ i cache, s.deviceSearchParent href =
      (some i, ({ s with cache := cache } : Registry).get i)) ∨
    s.deviceSearchParent href = (none, s) := by
  unfold Registry.deviceSearchParent
  split
  · exact .inr rfl
  · exact searchUp_spec _ _ _

/-- Taking a reference and giving it back. -/
theorem put_get (s : Registry) (i : Nat) : (s.get i).put i = s := by
  simp [Registry.get, Registry.put]

end Search

section Sample

/-- A lobby whose device root has one placeholder. -/
def sampleLobby : Xml :=
  .element none "obj".toList [] [.element none "obj".toList [(attrHref, "obix".toList)]
    [.element none "obj".toList [(attrHref, "deviceRoot".toList)]
      [.element none "obj".toList [(attrHref, "test".toList)] []]]]

/-- A disk with the folder of the devices. -/
def sampleDisk : Disk :=
  { entries := [(["srv".toList], .folder), (["srv".toList, "devices".toList], .folder)], calls := [] }

/-- A server that has just been started. -/
def sampleStart : Option Registry :=
  devicesStart "/srv".toList 2 2 sampleLobby sampleDisk

/-- A contract below the device root. -/
def sampleContract (name href : String) : Xml :=
  .element none "obj".toList
    [(attrName, name.toList), (attrHref, deviceRootHref ++ href.toList)] []

/-- Sign up a contract. -/
def sampleSignUp (name href : String) : Request :=
  .signUp (some "me".toList) (some (sampleContract name href)) Faults.none

end Sample

end Devices
end Obix
