import Obix.Lib.Runs
import Obix.Server.Batch

/-!
# Nodes in the region of their device

`device_update_uri`, `device_link_single_node` and `device_copy_uri` look a device up for a href,
enter its region and work on the node of the href.  That node belongs to the device as long as no
href is registered twice, for every href that shows the registered devices it leads through
(`nodes_in_region`).  A slash too many hides a device from the lookup, but not from the way down
to the node.

Taking a meta node away again leads to a tree that was reached without it, and is left out.
-/

namespace Obix
namespace Serving

open CString XmlNode Devices

section Functions

/-- What `device_link_single_node` leads to. -/
structure Linking where
  ret : ErrCode
  /-- The device whose write region was entered, and `*updated`. -/
  updated : Option (Nat × XmlNode Nat)
  store : Store

/-- A single node whose `_private` pointer is set. -/
def stampNode (i : Nat) : Xml → XmlNode Nat
  | .element _ name attrs cs => .element (some i) name attrs (plainAll cs)
  | .text _ content => .text (some i) content
  | .comment _ content => .comment (some i) content

/-- The meta node of `watch_item_init`. -/
def watchMeta (id : Nat) : Xml :=
  .element none Watches.objMeta [(Monitoring.attrWatchId, Nat.toDigits 10 id)] []

namespace Store

variable (s : Store)

/-- `device_link_single_node` without a backup. -/
def deviceLinkSingleNode (href : Text) (node : Xml) : Option Linking :=
  match s.deviceFind href with
  | (none, reg) => some { ret := .deviceNoSuchUri, updated := none, store := { s with reg := reg } }
  | (some i, reg) =>
      (reg.heap i).map fun dev =>
        let out : Store := { s with reg := reg.put i }
        if (reg.sync i).writerRequest.isNone then
          { ret := .invalidState, updated := none, store := out }
        else
          match reg.deviceGetNodeCore i dev href with
          | none => { ret := .deviceNoSuchUri, updated := none, store := out }
          | some parent =>
              { ret := .success
                updated := some (i, parent)
                store := out.withDom (reg.dom.modifyOwn i
                  (modifyAt (addChild (stampNode i node)) (Registry.nodePath dev href))) }

/-- The device that is found for a href, and the node that the href leads to. -/
def deviceReached (href : Text) : Option (Nat × XmlNode Nat) :=
  match s.deviceFind href with
  | (none, _) => none
  | (some i, reg) =>
      (reg.heap i).bind fun dev =>
        (reg.deviceGetNodeCore i dev href).map fun node => (i, node)

end Store

/-- What is done to the devices and to the tree. -/
inductive Action
  | request (r : Request)
  | write (beyond uri : Text) (input : Option Xml)
  | link (href : Text) (id : Nat)
  | copy (href : Text)

/-- One action. -/
def Store.step (s : Store) : Action → Option Store
  | .request r => (r.run s.reg).map fun p => { s with reg := p.2 }
  | .write beyond uri input => (obixServerWrite beyond uri input s).map Outcome.store
  | .link href id => (s.deviceLinkSingleNode href (watchMeta id)).map Linking.store
  | .copy href => (s.deviceCopyUri href).map Prod.snd

/-- A contract is not signed up under a href that another device has already, unless that one is
found among the children of the parent, and the contract is refused. -/
def Store.RegistersOnce (s : Store) : Action → Prop
  | .request (.signUp _ (some input) _) =>
      ∀ href, input.getProp attrHref = some href → RefusesTwin s.reg href
  | _ => True

/-- The functions of the Device subsystem work on a node of a href only in the region of the
device that the node belongs to. -/
structure InRegion (s : Store) (href : Text) : Prop where
  reached : ∀ i node, s.deviceReached href = some (i, node) → node.owner = some i
  updated : ∀ new, ∃ o, s.deviceUpdateUri href new = some o ∧ Routed s o
  linked : ∀ node l i parent, s.deviceLinkSingleNode href node = some l →
    l.updated = some (i, parent) → parent.owner = some i
  copied : ∀ copy t, s.deviceCopyUri href = some (some copy, t) →
    ∃ i node, node.owner = some i ∧ s.deviceReached href = some (i, node) ∧
      deviceCopyNode (fun j => (s.reg.sync j).readerRequest.isNone) (some i) 0 node = some copy

end Functions

section Region

variable {s : Store} {href : Text}

/-- The searches change nothing but the cache and the references. -/
theorem deviceFind_same
    {found : Option Nat} {reg : Registry}
    (h : s.deviceFind href = (found, reg)) :
    reg.heap = s.reg.heap ∧ reg.tab = s.reg.tab ∧ reg.dom = s.reg.dom ∧ reg.sync = s.reg.sync := by
  rw [Store.deviceFind] at h
  split at h
  · rename_i i t hsearch
    cases h
    obtain ⟨cache, rfl⟩ := deviceSearch_some hsearch
    exact ⟨rfl, rfl, rfl, rfl⟩
  · rename_i t hsearch
    obtain rfl := deviceSearch_none hsearch
    rcases deviceSearchParent_spec s.reg href with ⟨i, cache, hparent⟩ | hparent
    · rw [hparent] at h
      cases h
      exact ⟨rfl, rfl, rfl, rfl⟩
    · rw [hparent] at h
      cases h
      exact ⟨rfl, rfl, rfl, rfl⟩

theorem foundFor_of_deviceFind
    {i : Nat} {reg : Registry}
    (h : s.deviceFind href = (some i, reg)) :
    FoundFor s.reg href i := by
  rw [Store.deviceFind] at h
  split at h
  · rename_i j t hsearch
    cases h
    exact .inl (by rw [hsearch])
  · rename_i t hsearch
    obtain rfl := deviceSearch_none hsearch
    exact .inr ⟨by rw [hsearch], by rw [h]⟩

theorem deviceReached_eq_some
    {i : Nat} {node : XmlNode Nat}
    (h : s.deviceReached href = some (i, node)) :
    ∃ reg dev, s.deviceFind href = (some i, reg) ∧ s.reg.heap i = some dev ∧
      s.reg.deviceGetNodeCore i dev href = some node := by
  rw [Store.deviceReached] at h
  split at h
  · cases h
  · rename_i j reg hfind
    obtain ⟨dev, hdev, h⟩ := Option.bind_eq_some_iff.mp h
    obtain ⟨m, hm, heq⟩ := Option.map_eq_some_iff.mp h
    cases heq
    obtain ⟨hheap, -, hdom, -⟩ := deviceFind_same hfind
    rw [hheap] at hdev
    rw [Registry.deviceGetNodeCore, hdom] at hm
    exact ⟨reg, dev, hfind, hdev, hm⟩

theorem deviceReached_of_node
    {i : Nat} {node : XmlNode Nat} {reg : Registry} {dev : ObixDev}
    (hfind : s.deviceFind href = (some i, reg))
    (hdev : reg.heap i = some dev)
    (hnode : reg.deviceGetNodeCore i dev href = some node) :
    s.deviceReached href = some (i, node) := by
  rw [Store.deviceReached, hfind]
  dsimp only
  rw [hdev, Option.bind_some, hnode]
  rfl

/-- It is enough to look at the node that is reached. -/
theorem inRegion_of_reached
    (hs : Sound s)
    (h : ∀ i node, s.deviceReached href = some (i, node) → node.owner = some i) :
    InRegion s href where
  reached := h
  updated := by
    refine (deviceUpdateUri_routed_iff hs).mpr fun i node hnode => h i node ?_
    rw [Store.deviceNode] at hnode
    split at hnode
    · cases hnode
    · rename_i j reg hfind
      obtain ⟨dev, hdev, hnode⟩ := Option.bind_eq_some_iff.mp hnode
      split at hnode
      · cases hnode
      · obtain ⟨m, hm, heq⟩ := Option.map_eq_some_iff.mp hnode
        cases heq
        exact deviceReached_of_node hfind hdev hm
  linked := by
    intro node l i parent hl hupdated
    rw [Store.deviceLinkSingleNode] at hl
    split at hl
    · cases hl
      cases hupdated
    · rename_i j reg hfind
      obtain ⟨dev, hdev, rfl⟩ := Option.map_eq_some_iff.mp hl
      dsimp only at hupdated
      split at hupdated
      · cases hupdated
      · split at hupdated
        · cases hupdated
        · rename_i m hm
          cases hupdated
          exact h i parent (deviceReached_of_node hfind hdev hm)
  copied := by
    intro copy t hcopy
    rw [Store.deviceCopyUri] at hcopy
    split at hcopy
    · cases hcopy
    · rename_i i reg hfind
      obtain ⟨dev, hdev, heq⟩ := Option.map_eq_some_iff.mp hcopy
      obtain ⟨hcopy, -⟩ := Prod.mk.inj heq
      split at hcopy
      · cases hcopy
      · obtain ⟨node, hnode, hcopy⟩ := Option.bind_eq_some_iff.mp hcopy
        have hreached := deviceReached_of_node hfind hdev hnode
        refine ⟨i, node, h i node hreached, hreached, ?_⟩
        rw [← (deviceFind_same hfind).2.2.2]
        exact hcopy

/-- What a store keeps as long as no href is registered twice. -/
structure Ordered (s : Store) : Prop where
  sound : Sound s
  placed : Placed s.reg

theorem Ordered.inRegion
    (hs : Ordered s)
    (hspelled : Spelled s.reg href) :
    InRegion s href := by
  refine inRegion_of_reached hs.sound fun i node hreached => ?_
  obtain ⟨reg, dev, hfind, hdev, hnode⟩ := deviceReached_eq_some hreached
  exact Registry.owner_of_node hs.placed.linked hs.placed.indexed hs.placed.settled hspelled
    (foundFor_of_deviceFind hfind) hdev hnode

end Region

section Runs

variable {s t : Store}

/-- The devices are the same, and what was settled in the tree still is. -/
def SameDevices (s t : Store) : Prop :=
  t.reg.heap = s.reg.heap ∧ t.reg.tab = s.reg.tab ∧
    ∀ place : Nat → Option Path, Territory place s.dom → Territory place t.dom

theorem Ordered.of_same
    (hs : Ordered s)
    (ht : Sound t)
    (h : SameDevices s t) :
    Ordered t := by
  obtain ⟨hheap, htab, hterritory⟩ := h
  refine ⟨ht, ht.linked, ?_, ?_⟩
  · exact hs.placed.indexed.of_back (fun _ f hj => ⟨f, hheap ▸ hj, rfl⟩) fun j f hj hne =>
      htab ▸ hs.placed.indexed.known j f (hheap ▸ hj) hne
  · have hplace : t.reg.place = s.reg.place := by
      funext i
      rw [Registry.place, Registry.place, hheap]
    show Territory t.reg.place t.dom
    rw [hplace]
    exact hterritory s.reg.place hs.placed.settled

theorem sameDevices_find
    {href : Text} {found : Option Nat} {reg : Registry}
    (h : s.deviceFind href = (found, reg)) :
    SameDevices s { s with reg := reg } := by
  obtain ⟨hheap, htab, hdom, -⟩ := deviceFind_same h
  refine ⟨hheap, htab, fun place hplace => ?_⟩
  show Territory place reg.dom
  rw [hdom]
  exact hplace

/-- A value changes in the tree or in the part of a device, or nothing at all. -/
theorem updateUri_cases
    {beyond uri val : Text} {o : Outcome}
    (h : s.updateUri beyond uri val = some o) :
    o.store.reg.heap = s.reg.heap ∧ o.store.reg.tab = s.reg.tab ∧
      (o.store.dom = s.dom ∨
        (∃ p, o.store.dom = modifyAt (setProp attrVal val) p s.dom) ∨
        ∃ i p, o.store.dom = modifyOwn i (modifyAt (setProp attrVal val) p) s.dom) := by
  rw [Store.updateUri] at h
  split at h
  · rw [Store.deviceUpdateUri] at h
    split at h
    · rename_i reg hfind
      obtain rfl := Option.some.inj h
      obtain ⟨hheap, htab, hdom, -⟩ := deviceFind_same hfind
      exact ⟨hheap, htab, .inl hdom⟩
    · rename_i i reg hfind
      obtain ⟨dev, -, rfl⟩ := Option.map_eq_some_iff.mp h
      obtain ⟨hheap, htab, hdom, -⟩ := deviceFind_same hfind
      dsimp only
      split
      · exact ⟨hheap, htab, .inl hdom⟩
      · split
        · exact ⟨hheap, htab, .inl hdom⟩
        · split
          · exact ⟨hheap, htab, .inl hdom⟩
          · refine ⟨hheap, htab, .inr (.inr ⟨i, Registry.nodePath dev uri, ?_⟩)⟩
            show modifyOwn i _ reg.dom = _
            rw [hdom]
            rfl
  · split at h
    · obtain rfl := Option.some.inj h
      rw [Store.watchUpdateUri]
      split
      · exact ⟨rfl, rfl, .inl rfl⟩
      · split
        · exact ⟨rfl, rfl, .inl rfl⟩
        · split
          · exact ⟨rfl, rfl, .inl rfl⟩
          · split
            · exact ⟨rfl, rfl, .inl rfl⟩
            · split
              · exact ⟨rfl, rfl, .inl rfl⟩
              · exact ⟨rfl, rfl, .inr (.inl ⟨_, rfl⟩)⟩
    · obtain rfl := Option.some.inj h
      rw [Store.xmldbUpdateUri]
      split
      · exact ⟨rfl, rfl, .inl rfl⟩
      · exact ⟨rfl, rfl, .inr (.inl ⟨_, rfl⟩)⟩

/-- Values change, and nothing else. -/
theorem sameDevices_updateUri
    {beyond uri val : Text} {o : Outcome}
    (h : s.updateUri beyond uri val = some o) :
    SameDevices s o.store := by
  obtain ⟨hheap, htab, hdom⟩ := updateUri_cases h
  refine ⟨hheap, htab, fun place hplace => ?_⟩
  rcases hdom with hdom | ⟨p, hdom⟩ | ⟨i, p, hdom⟩
  · rw [hdom]
    exact hplace
  · rw [hdom]
    exact hplace.setVal p val
  · obtain ⟨hhref, howner⟩ := xmlSetVal_keeps p val
    rw [hdom]
    refine hplace.modifyOwn hhref howner (fun _ _ hm => ?_) fun j _ => ?_
    · exact hm.modifyAt (href_setProp_val val) (owner_setProp attrVal val) p
        fun _ _ _ hk => hk.setProp
    · exact (KeepsSingle.setProp j attrVal val).modifyAt p

/-- A meta node has no href and nothing below it. -/
theorem linkMeta_keeps
    (i id : Nat)
    (p : Path) :
    (∀ m : XmlNode Nat, (modifyAt (addChild (stampNode i (watchMeta id))) p m).href = m.href) ∧
      (∀ m : XmlNode Nat, (modifyAt (addChild (stampNode i (watchMeta id))) p m).owner = m.owner) ∧
      (∀ place ts (m : XmlNode Nat), Bordered place ts m →
        Bordered place ts (modifyAt (addChild (stampNode i (watchMeta id))) p m)) ∧
      ∀ j, j ≠ i → KeepsSingle j (modifyAt (addChild (stampNode i (watchMeta id))) p) := by
  refine ⟨href_modifyAt href_addChild p, fun m => ?_, fun place ts m hm => ?_, fun j hj => ?_⟩
  · cases p with
    | nil => exact owner_addChild m
    | cons t p => exact owner_modifyAt_cons m
  · refine hm.modifyAt href_addChild owner_addChild p fun us k _ hk => ?_
    cases k with
    | element o name attrs cs =>
        refine borderedAll_iff.mpr fun c hc => ?_
        rcases List.mem_append.mp hc with hc | hc
        · exact borderedAll_iff.mp hk c hc
        · rw [List.mem_singleton.mp hc]
          refine ⟨fun _ u t _ ht => ?_, trivial⟩
          cases ht
    | text o content => trivial
    | comment o content => trivial
  · refine (KeepsSingle.addChild ?_).modifyAt p
    simp [stampNode, watchMeta, ownNode, plainAll, ownNodeAll, Ne.symm hj]

theorem Ordered.find
    {href : Text} {found : Option Nat} {reg : Registry}
    (hs : Ordered s)
    (h : s.deviceFind href = (found, reg)) :
    Ordered { s with reg := reg } := by
  have hreg : Linked reg ∧ reg.dom = s.dom := by
    rcases @deviceFind_cases s href hs.sound.linked with
      ⟨reg', hfind, hlinked, hdom⟩ | ⟨i, reg', dev, hfind, hlinked, hdom, -⟩
    · cases h.symm.trans hfind
      exact ⟨hlinked, hdom⟩
    · cases h.symm.trans hfind
      exact ⟨hlinked, hdom⟩
  exact hs.of_same (hs.sound.withReg hreg.1 hreg.2) (sameDevices_find h)

/-- A reference is given back. -/
theorem Ordered.put
    (hs : Ordered s)
    (i : Nat) :
    Ordered { s with reg := s.reg.put i } := by
  have hlinked : Linked (s.reg.put i) := hs.sound.linked.of_cache hs.sound.linked.cacheLive
  exact hs.of_same (hs.sound.withReg hlinked rfl) ⟨rfl, rfl, fun _ hplace => hplace⟩

theorem Ordered.link
    {href : Text} {id : Nat} {l : Linking}
    (hs : Ordered s)
    (h : s.deviceLinkSingleNode href (watchMeta id) = some l) :
    Ordered l.store := by
  rw [Store.deviceLinkSingleNode] at h
  split at h
  · rename_i reg hfind
    obtain rfl := Option.some.inj h
    exact hs.find hfind
  · rename_i i reg hfind
    obtain ⟨dev, hdev, rfl⟩ := Option.map_eq_some_iff.mp h
    have hput := (hs.find hfind).put i
    dsimp only
    split
    · exact hput
    · split
      · exact hput
      · obtain ⟨hhref, howner, hborders, hsingle⟩ :=
          linkMeta_keeps i id (Registry.nodePath dev href)
        refine hput.of_same ?_ ⟨rfl, rfl, fun place hplace =>
          hplace.modifyOwn hhref howner (hborders place) hsingle⟩
        refine hput.sound.withDom (fun j hj => ?_) (hput.sound.confined.modifyOwn hhref howner)
        by_cases hji : j = i
        · subst hji
          have hj : ownNode j reg.dom = none := hj
          rw [modifyOwn_of_fresh _ _ hj]
          exact hj
        · exact (hsingle j hji).1.modifyOwn i _ hj

theorem Ordered.copy
    {href : Text} {copy : Option Xml}
    (hs : Ordered s)
    (h : s.deviceCopyUri href = some (copy, t)) :
    Ordered t := by
  rw [Store.deviceCopyUri] at h
  split at h
  · rename_i reg hfind
    cases h
    exact hs.find hfind
  · rename_i i reg hfind
    obtain ⟨dev, -, heq⟩ := Option.map_eq_some_iff.mp h
    cases heq
    exact (hs.find hfind).put i

theorem Ordered.request
    {r : Request} {e : ErrCode} {reg : Registry}
    (hs : Ordered s)
    (hok : s.RegistersOnce (.request r))
    (h : r.run s.reg = some (e, reg)) :
    Ordered { s with reg := reg } := by
  refine ⟨hs.sound.request h, ?_⟩
  cases r with
  | signUp requesterId input faults =>
      rcases withHref_cases h with rfl | ⟨id, x, href, -, rfl, hhref, hvalid, -, hadd⟩
      · exact hs.placed
      · refine hs.placed.deviceAdd hvalid (fun hpath => ?_) (hok href hhref) hadd
        exact fitting_signUp hpath rfl ((getProp_xmlCopy attrHref x).trans hhref)
  | signOff requesterId input =>
      rcases withHref_cases h with rfl | ⟨id, x, href, -, -, -, -, hroot, hdel⟩
      · exact hs.placed
      · exact hs.placed.deviceDel hroot hdel

theorem Ordered.step
    {x : Action}
    (hs : Ordered s)
    (hok : s.RegistersOnce x)
    (h : s.step x = some t) :
    Ordered t := by
  cases x with
  | request r =>
      obtain ⟨⟨e, reg⟩, hrun, rfl⟩ := Option.map_eq_some_iff.mp h
      exact hs.request hok hrun
  | write beyond uri input =>
      obtain ⟨o, ho, rfl⟩ := Option.map_eq_some_iff.mp h
      refine hs.of_same (hs.sound.write ho) ?_
      rcases @obixServerWrite_cases s uri beyond input with ⟨e, he⟩ | ⟨-, val, hval⟩
      · rw [he] at ho
        obtain rfl := Option.some.inj ho
        exact ⟨rfl, rfl, fun _ hplace => hplace⟩
      · exact sameDevices_updateUri (hval ▸ ho)
  | link href id =>
      obtain ⟨l, hl, rfl⟩ := Option.map_eq_some_iff.mp h
      exact hs.link hl
  | copy href =>
      obtain ⟨⟨copy, u⟩, hcopy, rfl⟩ := Option.map_eq_some_iff.mp h
      exact hs.copy hcopy

variable {init : Store} {href : Text}
variable {resdir : Text} {tabSize cacheSize : Nat} {dom : Xml} {disk : Disk}

theorem ordered_of_reaches
    (hinit : devicesStart resdir tabSize cacheSize dom disk = some init.reg)
    (hs : Runs.Reaches Store.step Store.RegistersOnce init s) :
    Ordered s := by
  refine hs.invariant (fun _ _ _ h hok hstep => h.step hok hstep) ⟨?_, placed_start hinit⟩
  exact ⟨linked_start hinit, confined_start hinit⟩

/-- As long as no href is registered twice, the functions of the Device subsystem work on the node
of a href in the region of its device, for every href that shows the devices it leads through. -/
theorem nodes_in_region
    (hinit : devicesStart resdir tabSize cacheSize dom disk = some init.reg)
    (hs : Runs.Reaches Store.step Store.RegistersOnce init s)
    (hspelled : Spelled s.reg href) :
    InRegion s href :=
  (ordered_of_reaches hinit hs).inRegion hspelled

end Runs

section Sample

/-- A server that has just been started. -/
def sampleDevices (reg : Registry) : Store :=
  { reg := reg, mtime := fun _ => 0, backupPeriod := 0, watches := [] }

/-- The device that is found for a href, and the owner of the node that is reached. -/
def reachedOwner (href : String) (s : Store) : Option (Nat × Option Nat) :=
  (s.deviceReached href.toList).map fun p => (p.1, p.2.owner)

/-- Sign off a device of the one who signs up the samples. -/
def sampleSignOff (href : String) : Request :=
  .signOff (some "me".toList) (some (sampleContract "" href))

variable {reg : Registry} {s : Store}

/-- The first contract is signed up while there is only the device root. -/
theorem registersOnce_first
    (hreg : sampleStart = some reg) :
    (sampleDevices reg).RegistersOnce (.request (sampleSignUp "a" "test/a")) := by
  intro href hhref j f hf hid
  have hhref : href = "/obix/deviceRoot/test/a".toList := by
    rw [← Option.some.inj hhref]
    decide +kernel
  rw [(heap_start hreg hf).2.1, hhref] at hid
  exact absurd hid (by decide +kernel)

theorem reaches_first
    (hreg : sampleStart = some reg)
    (hexec : Runs.exec Store.step (sampleDevices reg) [.request (sampleSignUp "a" "test/a")] =
      some s) :
    Runs.Reaches Store.step Store.RegistersOnce (sampleDevices reg) s := by
  obtain ⟨u, hu, hrest⟩ := Option.bind_eq_some_iff.mp hexec
  obtain rfl : u = s := Option.some.inj hrest
  exact Runs.Reaches.refl.tail (registersOnce_first hreg) hu

/-- A device below a placeholder, with a slash at the end of its href. -/
theorem nodes_in_region_signedUp :
    ∃ reg s node, sampleStart = some reg ∧
      Runs.exec Store.step (sampleDevices reg) [.request (sampleSignUp "a" "test/a")] = some s ∧
      s.deviceReached "/obix/deviceRoot/test/a/".toList = some (1, node) ∧
      node.owner = some 1 := by
  have heval : (sampleStart.bind fun reg =>
      (Runs.exec Store.step (sampleDevices reg) [.request (sampleSignUp "a" "test/a")]).bind
        (Store.deviceReached · "/obix/deviceRoot/test/a/".toList)).map Prod.fst = some 1 := by
    decide +kernel
  obtain ⟨⟨i, node⟩, hnode, hi⟩ := Option.map_eq_some_iff.mp heval
  obtain rfl : i = 1 := hi
  obtain ⟨reg, hreg, hnode⟩ := Option.bind_eq_some_iff.mp hnode
  obtain ⟨s, hexec, hnode⟩ := Option.bind_eq_some_iff.mp hnode
  have hs := reaches_first hreg hexec
  have hpath : IsPath "/obix/deviceRoot/test/a/".toList
      (rootTokens ++ ["test".toList, "a".toList]) := by
    refine ⟨fun t ht => ?_, by decide, .inr (by decide +kernel)⟩
    simp only [rootTokens, List.cons_append, List.nil_append, List.mem_cons, List.not_mem_nil,
      or_false] at ht
    rcases ht with rfl | rfl | rfl | rfl <;> exact ⟨by decide, by decide⟩
  have hinit : devicesStart "/srv".toList 2 2 sampleLobby sampleDisk =
      some (sampleDevices reg).reg := hreg
  have hspelled := (ordered_of_reaches hinit hs).placed.indexed.spelled hpath
  have hregion := nodes_in_region hinit hs hspelled
  exact ⟨reg, s, node, hreg, hexec, hnode, hregion.reached 1 node hnode⟩

theorem not_inRegion
    {href : String} {i : Nat} {o : Option Nat}
    (h : reachedOwner href s = some (i, o))
    (hne : o ≠ some i) :
    ¬ InRegion s href.toList := by
  intro hregion
  obtain ⟨⟨j, node⟩, hnode, heq⟩ := Option.map_eq_some_iff.mp h
  obtain ⟨rfl, rfl⟩ := Prod.mk.inj heq
  exact hne (hregion.reached _ node hnode)

/-- A second slash hides a device from the lookup, and a device is lost from it when another one
with the same href is signed off. -/
theorem nodes_in_other_region :
    ∃ reg s t, sampleStart = some reg ∧
      Runs.Reaches Store.step Store.RegistersOnce (sampleDevices reg) s ∧
      ¬ InRegion s "/obix/deviceRoot/test//a".toList ∧
      Runs.Reaches Store.step (fun _ _ => True) (sampleDevices reg) t ∧
      ¬ InRegion t "/obix/deviceRoot/test/a".toList := by
  have heval : (sampleStart.bind fun reg =>
      (Runs.exec Store.step (sampleDevices reg) [.request (sampleSignUp "a" "test/a")]).bind fun s =>
      (Runs.exec Store.step (sampleDevices reg)
        [.request (sampleSignUp "a" "test/a"), .request (sampleSignUp "t" "test"),
          .request (sampleSignUp "a" "test/a"), .request (sampleSignOff "test/a"),
          .request (sampleSignOff "test")]).map fun t =>
      (reachedOwner "/obix/deviceRoot/test//a" s, reachedOwner "/obix/deviceRoot/test/a" t)) =
      some (some (0, some 1), some (0, some 1)) := by
    decide +kernel
  obtain ⟨reg, hreg, heval⟩ := Option.bind_eq_some_iff.mp heval
  obtain ⟨s, hexec, heval⟩ := Option.bind_eq_some_iff.mp heval
  obtain ⟨t, hexec', heval⟩ := Option.map_eq_some_iff.mp heval
  obtain ⟨hs, ht⟩ := Prod.mk.inj heval
  exact ⟨reg, s, t, hreg, reaches_first hreg hexec, not_inRegion hs (by decide),
    Runs.Reaches.refl.free _ hexec', not_inRegion ht (by decide)⟩

end Sample

end Serving
end Obix
