import Obix.Watch.DeviceTree

/-!
# Watch items and their meta nodes stay linked

Additions, removals, deletions of watches and sign-offs of devices, interleaved: what is done in
one region of a watch or of a device is one step.  `device_del` is split at its entry into the
shutdown region, at its test for children, at each notification of a watch and at
`__device_purge`; the deletion of a watch at its entry, at `list_del` and at each item.

A meta node is freed even if it could not be unlinked because the device is being shut down, and
`__device_nullify_watch_items` does not reach the items of a watch that is being deleted.  In all
other runs items and meta nodes stay linked (`items_stay_linked`).
-/

namespace Obix
namespace Monitoring

open CString

/-- What a thread does in a region. -/
inductive Step
  /-- `device_add` behind its checks, below a node of a device. -/
  | signUp (p n : Nat) (href : Text) (contract : Xml)
  | make (id : Nat)
  | add (id : Nat) (href : Text)
  | remove (id : Nat) (href : Text)
  /-- `watch_del` or `delete_watch_task`. -/
  | closeWatch (id : Nat)
  | unlist (id : Nat)
  | disposeItem (id : Nat)
  | dispose (id : Nat)
  /-- `device_del`. -/
  | closeDevice (d : Nat)
  | revoke (d : Nat)
  | scan (d : Nat)
  | nullify (d : Nat) (x : Nat × Nat)
  | purge (d : Nat)

namespace Server

variable (s : Server)

def device? (id : Nat) : Option Device := s.devices.find? fun d => d.id = id

def watch? (id : Nat) : Option Watch := s.watches.find? fun w => w.id = id

/-- `list_empty(&dev->children) == 0`. -/
def hasChildren (d : Device) : Bool := s.devices.any fun e => e.parent = some d.id

/-- One step; `none` if it cannot be taken. -/
def step : Step → Option Server
  | .signUp p n href contract =>
      (s.device? p).bind fun p =>
        if p.up ∧ s.hostOf n = some p ∧ (s.node? n).any (fun n => !n.byItem) ∧
            contract.isElement then
          some (s.mount p n href contract)
        else none
  | .make id =>
      if (s.watch? id).isSome then none
      else
        some { s with
          watches := s.watches ++ [{ id := id, items := [], changed := false, life := .up }] }
  | .add id href =>
      (s.watch? id).map fun w => if w.life = .up then s.createItem w href else s
  | .remove id href =>
      (s.watch? id).map fun w => if w.life = .up then s.removeItem w href else s
  | .closeWatch id =>
      (s.watch? id).bind fun w =>
        if w.life = .up then some (s.modifyWatch id fun w => { w with life := .closing }) else none
  | .unlist id =>
      (s.watch? id).bind fun w =>
        if w.life = .closing then some (s.modifyWatch id fun w => { w with life := .unlisted })
        else none
  | .disposeItem id =>
      (s.watch? id).bind fun w =>
        if w.life = .unlisted then w.items.head?.map (s.deleteItem id) else none
  | .dispose id =>
      (s.watch? id).bind fun w =>
        if w.life = .unlisted ∧ w.items = [] then
          some { s with watches := s.watches.filter fun w => w.id ≠ id }
        else none
  | .closeDevice d =>
      (s.device? d).bind fun dev =>
        if dev.up then some (s.modifyDevice d fun d => { d with signOff := .begun }) else none
  | .revoke d =>
      (s.device? d).bind fun dev =>
        if dev.signOff = .begun ∧ s.hasChildren dev then
          some (s.modifyDevice d fun d => { d with signOff := .no })
        else none
  | .scan d =>
      (s.device? d).bind fun dev =>
        if dev.signOff = .begun ∧ ¬ s.hasChildren dev then
          some (s.modifyDevice d fun e => { e with signOff := .nullifying (s.marks dev) })
        else none
  | .nullify d x =>
      (s.device? d).bind fun dev =>
        match dev.signOff with
        | .nullifying todo =>
            if x ∈ todo then
              some ((s.notify x.1 x.2 true).modifyDevice d fun d =>
                { d with signOff := .nullifying (todo.erase x) })
            else none
        | _ => none
  | .purge d =>
      (s.device? d).bind fun dev => if dev.signOff = .nullifying [] then some (s.purge dev) else none

/-- The subtree of the device whose regions a thread enters for the href of an item and the
subtree that the item is in are not being removed. -/
def detachable (item : Item) : Bool :=
  item.node.all fun n =>
    (s.deviceFind item.href).any Device.up && (s.hostOf n).all Device.up

/-- On the way from a node up to its device there are no meta nodes. -/
def shown (way : List Nat) : Bool :=
  (way.takeWhile fun a => (s.deviceAt a).isNone).all fun a => !s.isMetaAt a

/-- `__device_nullify_watch_items` will come to the meta node of a new item, and the subtree that
the item is in is not being removed. -/
def attachable (n : Nat) : Bool :=
  s.shown (s.chain n) && (s.hostOf n).all Device.up

/-- A step that does not come into conflict with the removal of a device or of a watch. -/
def orderly : Step → Bool
  | .add id href =>
      (s.watch? id).all fun w =>
        decide (w.life ≠ .up) || (w.itemOrParent href).1.isSome ||
          (s.linkPlace href).all fun place => s.attachable place.2
  | .remove id href =>
      (s.watch? id).all fun w =>
        decide (w.life ≠ .up) ||
          (w.items.find? fun item => isStrIdentical item.href href).all s.detachable
  | .disposeItem id => (s.watch? id).all fun w => w.items.head?.all s.detachable
  | .nullify _ x => (s.watch? x.1).all fun w => decide (w.life = .up)
  | _ => true

end Server

/-- The states that orderly steps lead to. -/
inductive Reachable (ok : Server → Step → Prop) : Server → Prop
  | start (placeholders : List Xml) : Reachable ok (Server.start placeholders)
  | step
      {s t : Server} {x : Step}
      (hs : Reachable ok s)
      (hok : ok s x)
      (h : s.step x = some t) :
      Reachable ok t

/-- Items and meta nodes belong together: the pointers of an item are both null or lead to a
node and its child, each meta node of an item outside of the devices that are being removed is
referenced by exactly one item, and no node has been freed that is still linked or has been freed
before. -/
structure Server.ItemsLinked (s : Server) : Prop where
  linked : ∀ w ∈ s.watches, ∀ item ∈ w.items,
    (item.node = none ∧ item.metaNode = none) ∨
      ∃ n ∈ s.nodes, ∃ m ∈ s.nodes, item.node = some n.addr ∧ item.metaNode = some m.addr ∧
        m.above.head? = some n.addr
  referenced : ∀ m ∈ s.nodes, m.byItem = true →
    (∀ d ∈ s.devices, d.node ∈ m.above → d.signOff = .no) →
    (s.watches.flatMap Watch.items).countP (fun item => item.metaNode = some m.addr) = 1
  linkedUnfreed : ∀ n ∈ s.nodes, s.frees n.addr = 0
  freedOnce : ∀ a, s.frees a ≤ 1

section Invariant

/-- The items of all watches. -/
def Server.items (s : Server) : List Item := s.watches.flatMap Watch.items

/-- The meta nodes that items refer to. -/
def Server.refs (s : Server) : List Nat := s.items.filterMap Item.metaNode

/-- A node is at the node of a device or below it. -/
def Node.within (d : Device) (n : Node) : Prop := n.addr = d.node ∨ d.node ∈ n.above

/-- The tree and the devices in it.  A device below another one is in the subtree of one of its
children. -/
structure Server.Grown (s : Server) : Prop where
  rooted : Rooted s.nodes s.next
  unfreed : ∀ n ∈ s.nodes, s.frees n.addr = 0
  once : ∀ a, s.frees a ≤ 1
  unused : ∀ a, s.next ≤ a → s.frees a = 0
  hrefless : ∀ m ∈ s.nodes, m.byItem = true → m.href = none
  deviceIds : (s.devices.map Device.id).Nodup
  deviceNodes : (s.devices.map Device.node).Nodup
  deviceKnown : ∀ d ∈ s.devices, d.id < s.next
  deviceNode : ∀ d ∈ s.devices, ∃ n ∈ s.nodes, n.addr = d.node ∧ n.byItem = false
  nested : ∀ d ∈ s.devices, ∀ e ∈ s.devices, ∀ n ∈ s.nodes, n.addr = e.node →
    d.node ∈ n.above → ∃ c ∈ s.devices, c.parent = some d.id ∧ n.within c

/-- What the pointers of an item lead to. -/
def Server.Fits (s : Server) (id : Nat) (item : Item) : Prop :=
  item.node = none ∧ item.metaNode = none ∨
    ∃ n ∈ s.nodes, ∃ m ∈ s.nodes, item.node = some n.addr ∧ item.metaNode = some m.addr ∧
      n.byItem = false ∧ m.byItem = true ∧ m.isMeta = true ∧ m.watchId = some id ∧
      m.above = n.addr :: n.above ∧ s.shown (n.addr :: n.above) = true

/-- A device that is being removed has no children, and `__device_nullify_watch_items` will come
to every item that still points into it. -/
structure Server.Scanned (s : Server) (d : Device) (todo : List (Nat × Nat)) : Prop where
  childless : s.hasChildren d = false
  within : ∀ x ∈ todo, ∃ n ∈ s.nodes, n.addr = x.2 ∧ n.within d ∧ n.byItem = false
  complete : ∀ w ∈ s.watches, ∀ item ∈ w.items, ∀ n ∈ s.nodes, item.node = some n.addr →
    n.within d → (w.id, n.addr) ∈ todo

/-- The invariant of the orderly runs. -/
structure Server.Tied (s : Server) : Prop where
  grown : s.Grown
  watchIds : (s.watches.map Watch.id).Nodup
  fits : ∀ w ∈ s.watches, ∀ item ∈ w.items, s.Fits w.id item
  distinct : s.refs.Nodup
  owned : ∀ m ∈ s.nodes, m.byItem = true →
    (∀ d ∈ s.devices, d.node ∈ m.above → ∀ todo, d.signOff ≠ .nullifying todo) → m.addr ∈ s.refs
  scanned : ∀ d ∈ s.devices, ∀ todo, d.signOff = .nullifying todo → s.Scanned d todo

theorem Server.Tied.itemsLinked
    {s : Server}
    (h : s.Tied) :
    s.ItemsLinked := by
  refine ⟨?_, ?_, h.grown.unfreed, h.grown.once⟩
  · intro w hw item hitem
    rcases h.fits w hw item hitem with hnone | ⟨n, hn, m, hm, hnode, hmeta, -, -, -, -, habove, -⟩
    · exact .inl hnone
    · exact .inr ⟨n, hn, m, hm, hnode, hmeta, by rw [habove]; rfl⟩
  · intro m hm hitem hup
    have hmem : m.addr ∈ s.refs := by
      refine h.owned m hm hitem ?_
      intro d hd habove todo htodo
      rw [hup d hd habove] at htodo
      cases htodo
    have hcount := List.count_eq_one_of_mem h.distinct hmem
    rw [Server.refs, List.count_filterMap] at hcount
    have hbeq : (fun item : Item => decide (item.metaNode = some m.addr)) =
        fun item => item.metaNode == some m.addr := by
      funext item
      exact Bool.eq_iff_iff.mpr (by simp)
    rw [hbeq]
    exact hcount

end Invariant

section Lookup

variable {s s' : Server}

theorem deviceSearch_congr
    (h : s'.devices = s.devices)
    (href : Text) :
    s'.deviceSearch href = s.deviceSearch href := by
  unfold Server.deviceSearch
  rw [h]

theorem searchUp_congr
    (h : s'.devices = s.devices)
    (k : Nat)
    (href : Text) :
    s'.searchUp k href = s.searchUp k href := by
  induction k generalizing href with
  | zero => rfl
  | succ k ih => simp only [Server.searchUp, deviceSearch_congr h, ih]

theorem deviceFind_congr
    (h : s'.devices = s.devices)
    (href : Text) :
    s'.deviceFind href = s.deviceFind href := by
  unfold Server.deviceFind Server.deviceSearchParent
  simp only [deviceSearch_congr h, searchUp_congr h]

theorem deviceFind_modifyWatch (id : Nat) (f : Watch → Watch) (href : Text) :
    (s.modifyWatch id f).deviceFind href = s.deviceFind href := by
  have hdevices : (s.modifyWatch id f).devices = s.devices := rfl
  exact deviceFind_congr hdevices href

theorem linkPlace_congr
    (hnodes : s'.nodes = s.nodes)
    (hdevices : s'.devices = s.devices)
    (href : Text) :
    s'.linkPlace href = s.linkPlace href := by
  have hchild : s'.childAt = s.childAt := by
    funext a token
    unfold Server.childAt
    rw [hnodes]
  unfold Server.linkPlace Server.deviceGetNodeCore
  rw [deviceFind_congr hdevices, hchild]

theorem linkPlace_modifyWatch (id : Nat) (f : Watch → Watch) (href : Text) :
    (s.modifyWatch id f).linkPlace href = s.linkPlace href := by
  have hnodes : (s.modifyWatch id f).nodes = s.nodes := rfl
  have hdevices : (s.modifyWatch id f).devices = s.devices := rfl
  exact linkPlace_congr hnodes hdevices href

theorem shown_congr
    {way : List Nat}
    (hdevice : ∀ a ∈ way, (s'.deviceAt a).isNone = (s.deviceAt a).isNone)
    (hmeta : ∀ a ∈ way, s'.isMetaAt a = s.isMetaAt a) :
    s'.shown way = s.shown way := by
  induction way with
  | nil => rfl
  | cons a way ih =>
      have hrest := ih (fun b hb => hdevice b (List.mem_cons_of_mem _ hb))
        fun b hb => hmeta b (List.mem_cons_of_mem _ hb)
      unfold Server.shown at hrest ⊢
      rw [List.takeWhile_cons, List.takeWhile_cons, hdevice a List.mem_cons_self]
      split
      · rw [List.all_cons, List.all_cons, hrest, hmeta a List.mem_cons_self]
      · rfl

end Lookup

section Hosts

variable {s : Server} {d : Device} {n : Node}

theorem Server.Grown.deviceAt_node
    (h : s.Grown)
    (hd : d ∈ s.devices) :
    s.deviceAt d.node = some d :=
  find?_key h.deviceNodes hd

/-- The way from a node of a device up to the device. -/
theorem Node.within.split
    (h : n.within d) :
    ∃ pre post, n.addr :: n.above = pre ++ d.node :: post ∧ d.node ∉ pre := by
  refine List.eq_append_cons_of_mem ?_
  rcases h with h | h
  · rw [h]
    exact List.mem_cons_self
  · exact List.mem_cons_of_mem _ h

/-- There are no other devices on the way up to a device without children. -/
theorem Server.Grown.deviceAt_before
    {pre post : List Nat} {a : Nat}
    (h : s.Grown)
    (hd : d ∈ s.devices)
    (hchildless : s.hasChildren d = false)
    (hn : n ∈ s.nodes)
    (hway : n.addr :: n.above = pre ++ d.node :: post)
    (ha : a ∈ pre) :
    s.deviceAt a = none := by
  by_contra hsome
  obtain ⟨e, he⟩ := Option.ne_none_iff_exists'.mp hsome
  have henode : e.node = a := by simpa using List.find?_some he
  have hbelow : ∃ p ∈ s.nodes, p.addr = a ∧ d.node ∈ p.above := by
    obtain ⟨p₁, p₂, rfl⟩ := List.append_of_mem ha
    cases p₁ with
    | nil =>
        simp only [List.nil_append, List.cons_append, List.cons.injEq] at hway
        exact ⟨n, hn, hway.1, by rw [hway.2]; simp⟩
    | cons b p₁ =>
        simp only [List.cons_append, List.append_assoc, List.cons.injEq] at hway
        obtain ⟨-, p, hp, hpa, hpost, -⟩ := h.rooted.ancestor hn p₁ hway.2
        exact ⟨p, hp, hpa, by rw [hpost]; simp⟩
  obtain ⟨p, hp, hpa, habove⟩ := hbelow
  obtain ⟨child, hchild, hparent, -⟩ :=
    h.nested d hd e (List.mem_of_find?_eq_some he) p hp (hpa.trans henode.symm) habove
  have hnone := List.any_eq_false.mp hchildless child hchild
  simp [hparent] at hnone

/-- A device without children is the host of all nodes in its subtree. -/
theorem Server.Grown.hostOf_childless
    (h : s.Grown)
    (hd : d ∈ s.devices)
    (hchildless : s.hasChildren d = false)
    (hn : n ∈ s.nodes)
    (hwithin : n.within d) :
    s.hostOf n.addr = some d := by
  obtain ⟨pre, post, hway, -⟩ := hwithin.split
  have hnone : ∀ a ∈ pre, s.deviceAt a = none :=
    fun a ha => h.deviceAt_before hd hchildless hn hway ha
  have hpre : pre.findSome? s.deviceAt = none := List.findSome?_eq_none_iff.mpr hnone
  rw [Server.hostOf, chain_of_mem h.rooted hn, hway, List.findSome?_append, hpre]
  simp [h.deviceAt_node hd]

/-- `__device_nullify_watch_items` comes to the meta nodes of all items in a subtree. -/
theorem Server.Grown.mem_marks
    {id : Nat} {m : Node}
    (h : s.Grown)
    (hd : d ∈ s.devices)
    (hchildless : s.hasChildren d = false)
    (hn : n ∈ s.nodes)
    (hwithin : n.within d)
    (hm : m ∈ s.nodes)
    (hmeta : m.isMeta = true)
    (hid : m.watchId = some id)
    (habove : m.above = n.addr :: n.above)
    (hshown : s.shown (n.addr :: n.above) = true) :
    (id, n.addr) ∈ s.marks d := by
  obtain ⟨pre, post, hway, hfirst⟩ := hwithin.split
  have hnone : ∀ a ∈ pre, (s.deviceAt a).isNone = true := by
    intro a ha
    rw [h.deviceAt_before hd hchildless hn hway ha]
    rfl
  have htake : (n.addr :: n.above).takeWhile (· ≠ d.node) = pre := by
    rw [hway, List.takeWhile_append_of_pos]
    · simp
    · intro a ha
      simpa using fun heq : a = d.node => hfirst (heq ▸ ha)
  have htake' : (n.addr :: n.above).takeWhile (fun a => (s.deviceAt a).isNone) = pre := by
    rw [hway, List.takeWhile_append_of_pos hnone]
    simp [h.deviceAt_node hd]
  rw [Server.shown, htake'] at hshown
  refine List.mem_filterMap.mpr ⟨m, hm, ?_⟩
  have hmem : d.node ∈ n.addr :: n.above := by
    rw [hway]
    simp
  rw [habove, htake, if_pos ⟨hmeta, hmem, hshown⟩, hid]
  rfl

theorem Server.Grown.within_of_mem_marks
    {x : Nat × Nat}
    (h : s.Grown)
    (hx : x ∈ s.marks d) :
    ∃ n ∈ s.nodes, n.addr = x.2 ∧ n.within d ∧ n.byItem = false := by
  obtain ⟨m, hm, hx⟩ := List.mem_filterMap.mp hx
  split at hx
  · rename_i hmark
    obtain ⟨watch, -, hx⟩ := Option.bind_eq_some_iff.mp hx
    obtain ⟨a, ha, rfl⟩ := Option.map_eq_some_iff.mp hx
    obtain ⟨post, habove⟩ := List.head?_eq_some_iff.mp ha
    obtain ⟨-, p, hp, rfl, rfl, hitem⟩ := h.rooted.parent m hm a post habove
    refine ⟨p, hp, rfl, ?_, hitem⟩
    have hmem := hmark.2.1
    rw [habove] at hmem
    exact (List.mem_cons.mp hmem).imp Eq.symm id
  · cases hx

end Hosts

section Watches

variable {s : Server} {id : Nat} {w : Watch} {f : Watch → Watch}

theorem watch?_mem
    (h : s.watch? id = some w) :
    w ∈ s.watches ∧ w.id = id :=
  ⟨List.mem_of_find?_eq_some h, by simpa using List.find?_some h⟩

theorem watch?_of_mem
    (hids : (s.watches.map Watch.id).Nodup)
    (hw : w ∈ s.watches) :
    s.watch? w.id = some w :=
  find?_key hids hw

theorem mem_modifyWatch {w' : Watch} :
    w' ∈ (s.modifyWatch id f).watches ↔
      ∃ w ∈ s.watches, (if w.id = id then f w else w) = w' :=
  List.mem_map

theorem ids_modifyWatch
    (hf : ∀ w, (f w).id = w.id) :
    (s.modifyWatch id f).watches.map Watch.id = s.watches.map Watch.id := by
  rw [Server.modifyWatch, List.map_map]
  refine List.map_congr_left ?_
  intro w _
  simp only [Function.comp]
  split
  · exact hf w
  · rfl

/-- A change of one watch is a change of its part of the items. -/
theorem items_modifyWatch
    (hids : (s.watches.map Watch.id).Nodup)
    (hw : w ∈ s.watches)
    (hid : w.id = id) :
    ∃ rest, s.items.Perm (w.items ++ rest) ∧ (s.modifyWatch id f).items.Perm ((f w).items ++ rest) := by
  obtain ⟨pre, post, heq⟩ := List.append_of_mem hw
  have hother : ∀ v ∈ pre ++ post, v.id ≠ id := by
    intro v hv hvid
    rw [heq, List.map_append, List.map_cons, List.nodup_middle, List.nodup_cons] at hids
    refine hids.1 ?_
    rw [hid, ← hvid, ← List.map_append]
    exact List.mem_map_of_mem hv
  have hsame : ∀ l : List Watch, (∀ v ∈ l, v.id ≠ id) →
      l.map (fun w => if w.id = id then f w else w) = l := by
    intro l hl
    calc
      l.map (fun w => if w.id = id then f w else w) = l.map fun w => w :=
        List.map_congr_left fun v hv => if_neg (hl v hv)
      _ = l := List.map_id' l
  have hpre := hsame pre fun v hv => hother v (List.mem_append_left _ hv)
  have hpost := hsame post fun v hv => hother v (List.mem_append_right _ hv)
  refine ⟨(pre ++ post).flatMap Watch.items, ?_, ?_⟩
  · rw [Server.items, heq, List.flatMap_append, List.flatMap_cons, List.flatMap_append]
    exact List.perm_append_comm_assoc _ _ _
  · rw [Server.items, Server.modifyWatch, heq, List.map_append, List.map_cons, hpre, hpost,
      if_pos hid, List.flatMap_append, List.flatMap_cons, List.flatMap_append]
    exact List.perm_append_comm_assoc _ _ _

end Watches

section WatchSteps

variable {s : Server} {watches : List Watch}

/-- Only the watches have changed. -/
theorem Server.Tied.rewatch
    (h : s.Tied)
    (hids : (watches.map Watch.id).Nodup)
    (hfits : ∀ w ∈ watches, ∀ item ∈ w.items, s.Fits w.id item)
    (hdistinct : (Server.refs { s with watches := watches }).Nodup)
    (howned : ∀ m ∈ s.nodes, m.byItem = true →
      (∀ d ∈ s.devices, d.node ∈ m.above → ∀ todo, d.signOff ≠ .nullifying todo) →
      m.addr ∈ Server.refs { s with watches := watches })
    (hcomplete : ∀ d ∈ s.devices, ∀ todo, d.signOff = .nullifying todo →
      ∀ w ∈ watches, ∀ item ∈ w.items, ∀ n ∈ s.nodes, item.node = some n.addr → n.within d →
        (w.id, n.addr) ∈ todo) :
    Server.Tied { s with watches := watches } :=
  { grown := ⟨h.grown.rooted, h.grown.unfreed, h.grown.once, h.grown.unused, h.grown.hrefless,
      h.grown.deviceIds, h.grown.deviceNodes, h.grown.deviceKnown, h.grown.deviceNode,
      h.grown.nested⟩
    watchIds := hids
    fits := hfits
    distinct := hdistinct
    owned := howned
    scanned := fun d hd todo htodo =>
      ⟨(h.scanned d hd todo htodo).childless, (h.scanned d hd todo htodo).within,
        hcomplete d hd todo htodo⟩ }

/-- Items stay in their watches or go, but not those that refer to a meta node. -/
theorem Server.Tied.fewer
    (h : s.Tied)
    (hids : (watches.map Watch.id).Nodup)
    (hsub : ∀ w ∈ watches, ∀ item ∈ w.items, ∃ v ∈ s.watches, v.id = w.id ∧ item ∈ v.items)
    (hdistinct : (Server.refs { s with watches := watches }).Nodup)
    (hrefs : ∀ a ∈ s.refs, a ∈ Server.refs { s with watches := watches }) :
    Server.Tied { s with watches := watches } := by
  refine h.rewatch hids ?_ hdistinct ?_ ?_
  · intro w hw item hitem
    obtain ⟨v, hv, hid, hmem⟩ := hsub w hw item hitem
    rw [← hid]
    exact h.fits v hv item hmem
  · intro m hm hitem hup
    exact hrefs _ (h.owned m hm hitem hup)
  · intro d hd todo htodo w hw item hitem n hn hnode hwithin
    obtain ⟨v, hv, hid, hmem⟩ := hsub w hw item hitem
    rw [← hid]
    exact (h.scanned d hd todo htodo).complete v hv item hmem n hn hnode hwithin

theorem Server.Tied.make
    {id : Nat}
    (h : s.Tied)
    (hnew : s.watch? id = none) :
    Server.Tied { s with
      watches := s.watches ++ [{ id := id, items := [], changed := false, life := .up }] } := by
  have hrefs : Server.refs { s with
      watches := s.watches ++ [{ id := id, items := [], changed := false, life := .up }] } =
      s.refs := by
    simp [Server.refs, Server.items]
  refine h.fewer ?_ ?_ (hrefs ▸ h.distinct) fun a ha => hrefs ▸ ha
  · rw [List.map_append, List.nodup_append]
    refine ⟨h.watchIds, by simp, ?_⟩
    intro a ha b hb heq
    obtain ⟨w, hw, rfl⟩ := List.mem_map.mp ha
    have hb' : b = id := by simpa using hb
    have hne := List.find?_eq_none.mp hnew w hw
    simp [heq, hb'] at hne
  · intro w hw item hitem
    rcases List.mem_append.mp hw with hw | hw
    · exact ⟨w, hw, rfl, hitem⟩
    · rw [List.mem_singleton.mp hw] at hitem
      cases hitem

/-- A watch goes on with its deletion. -/
theorem Server.Tied.setLife
    (h : s.Tied)
    (id : Nat)
    (life : Life) :
    (s.modifyWatch id fun w => { w with life := life }).Tied := by
  have hitems : (s.modifyWatch id fun w => { w with life := life }).items = s.items := by
    unfold Server.items Server.modifyWatch
    rw [List.flatMap_map]
    refine List.flatMap_congr ?_
    intro w _
    split <;> rfl
  have hrefs : (s.modifyWatch id fun w => { w with life := life }).refs = s.refs := by
    unfold Server.refs
    rw [hitems]
  have hids : (s.modifyWatch id fun w => { w with life := life }).watches.map Watch.id =
      s.watches.map Watch.id := ids_modifyWatch fun _ => rfl
  refine h.fewer ?_ ?_ ?_ ?_
  · exact hids.symm ▸ h.watchIds
  · intro w hw item hitem
    obtain ⟨v, hv, rfl⟩ := List.mem_map.mp hw
    refine ⟨v, hv, ?_, ?_⟩
    · split <;> rfl
    · split at hitem <;> exact hitem
  · exact hrefs.symm ▸ h.distinct
  · exact fun a ha => hrefs.symm ▸ ha

theorem Server.Tied.dispose
    {w : Watch}
    (h : s.Tied)
    (hw : w ∈ s.watches)
    (hempty : w.items = []) :
    Server.Tied { s with watches := s.watches.filter fun v => v.id ≠ w.id } := by
  have hsub : (s.watches.filter fun v => v.id ≠ w.id).Sublist s.watches := List.filter_sublist
  refine h.fewer (h.watchIds.sublist (hsub.map _)) ?_ ?_ ?_
  · intro v hv item hitem
    exact ⟨v, hsub.subset hv, rfl, hitem⟩
  · exact h.distinct.sublist ((hsub.flatMap _).filterMap _)
  · intro a ha
    obtain ⟨item, hitem, hmeta⟩ := List.mem_filterMap.mp ha
    obtain ⟨v, hv, hmem⟩ := List.mem_flatMap.mp hitem
    refine List.mem_filterMap.mpr ⟨item, List.mem_flatMap.mpr ⟨v, ?_, hmem⟩, hmeta⟩
    refine List.mem_filter.mpr ⟨hv, ?_⟩
    simp only [ne_eq, decide_eq_true_eq]
    intro hid
    rw [List.inj_on_of_nodup_map h.watchIds hv hw hid, hempty] at hmem
    cases hmem

/-- The refs of a watch that is notified of a deletion. -/
theorem filterMap_notified (n : Nat) (items : List Item) :
    ((items.map (Item.notified n true)).filterMap Item.metaNode).Sublist
      (items.filterMap Item.metaNode) := by
  induction items with
  | nil => simp
  | cons item items ih =>
      by_cases hnode : item.node = some n
      · have hnone : (item.notified n true).metaNode = none := by simp [Item.notified, hnode]
        rw [List.map_cons, List.filterMap_cons_none hnone]
        cases hmeta : item.metaNode with
        | none => rwa [List.filterMap_cons_none hmeta]
        | some m =>
            rw [List.filterMap_cons_some hmeta]
            exact ih.cons _
      · have hsame : item.notified n true = item := by simp [Item.notified, hnode]
        rw [List.map_cons, hsame]
        cases hmeta : item.metaNode with
        | none =>
            rw [List.filterMap_cons_none hmeta, List.filterMap_cons_none hmeta]
            exact ih
        | some m =>
            rw [List.filterMap_cons_some hmeta, List.filterMap_cons_some hmeta]
            exact ih.cons_cons _

end WatchSteps

end Monitoring
end Obix
