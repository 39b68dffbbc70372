import Obix.Xml.Href
import Obix.Xml.Owned

/-!
# Watch items and the device tree

The part of `watch.c` and `device.c` that ties the items of watches to nodes of the device tree:
an item points to the node it monitors and to a meta node, which is a child of that node and
bears the id of the watch.

Nodes have addresses.  A node carries the addresses of the nodes above it, from its parent up to
the device root, because a node is never moved; `nodes` lists the linked nodes in the order in
which they have been added, which is the order of siblings.  An address is not used again after
it has been freed, so that `frees` tells how often each node has been freed.
-/

namespace Obix
namespace Monitoring

open CString XmlNode

/-- `OBIX_OBJ_META`. -/
def objMeta : Text := "meta".toList

/-- `OBIX_META_ATTR_WATCH_ID`. -/
def attrWatchId : Text := "watch_id".toList

/-- `xml_get_long`. -/
def xmlGetLong {ω : Type} (attr : Text) (node : XmlNode ω) : Int :=
  match node.getProp attr with
  | none => -1
  | some value =>
      match strToLong value with
      | .ok l => l
      | .error ret => ret

/-- An element of the device tree.  `byItem` is kept for the statements only: the node has been
made by `watch_item_init`. -/
structure Node where
  addr : Nat
  /-- The nodes that `parent` leads to. -/
  above : List Nat
  /-- `_private`. -/
  owner : Nat
  isMeta : Bool
  href : Option Text
  val : Option Text
  /-- What `xml_get_long` reads from `watch_id`, unless it is negative. -/
  watchId : Option Nat
  byItem : Bool
  deriving DecidableEq, Repr

/-- How far `device_del` has got with a device. -/
inductive SignOff
  | no
  /-- Behind `tsync_shutdown_entry`. -/
  | begun
  /-- In `__device_nullify_watch_items`, which has still to come to some meta nodes: the ids of
  their watches and the nodes they belong to. -/
  | nullifying (todo : List (Nat × Nat))
  deriving DecidableEq, Repr

/-- `obix_dev_t`. -/
structure Device where
  id : Nat
  href : Text
  node : Nat
  parent : Option Nat
  signOff : SignOff
  deriving DecidableEq, Repr

/-- The regions of the device may be entered. -/
def Device.up (d : Device) : Bool := decide (d.signOff = .no)

/-- `obix_watch_item_t`. -/
structure Item where
  href : Text
  node : Option Nat
  metaNode : Option Nat
  count : Nat
  deriving DecidableEq, Repr

/-- How far the deletion of a watch has got. -/
inductive Life
  | up
  /-- Behind `tsync_shutdown_entry`. -/
  | closing
  /-- No longer in `watchset->watches`. -/
  | unlisted
  deriving DecidableEq, Repr

/-- `obix_watch_t`. -/
structure Watch where
  id : Nat
  items : List Item
  changed : Bool
  life : Life
  deriving DecidableEq, Repr

/-- The device tree, the devices and the watches. -/
structure Server where
  nodes : List Node
  frees : Nat → Nat
  devices : List Device
  watches : List Watch
  /-- The next address. -/
  next : Nat

/-- The meta node of a new item, `watch_item_init` and `device_link_single_node`. -/
def Node.mark (addr : Nat) (above : List Nat) (owner id : Nat) : Node :=
  { addr := addr
    above := above
    owner := owner
    isMeta := true
    href := none
    val := none
    watchId := some id
    byItem := true }

/-- A new item. -/
def Item.init (href : Text) (node metaNode : Nat) : Item :=
  { href := href, node := some node, metaNode := some metaNode, count := 0 }

section Contracts

/-- An element of a contract as a node of the tree. -/
def Node.ofElement (addr : Nat) (above : List Nat) (owner : Nat) (x : Xml) : Node :=
  { addr := addr
    above := above
    owner := owner
    isMeta := x.hasName objMeta
    href := x.getProp attrHref
    val := x.getProp attrVal
    watchId := if 0 ≤ xmlGetLong attrWatchId x then some (xmlGetLong attrWatchId x).toNat else none
    byItem := false }

mutual

/-- The nodes of a contract that is added under a node, with addresses from `k` on. -/
def flatten (owner : Nat) (above : List Nat) (k : Nat) : Xml → List Node
  | .element o name attrs cs =>
      Node.ofElement k above owner (.element o name attrs cs) ::
        flattenAll owner (k :: above) (k + 1) cs
  | .text _ _ => []
  | .comment _ _ => []

def flattenAll (owner : Nat) (above : List Nat) (k : Nat) : List Xml → List Node
  | [] => []
  | c :: cs =>
      flatten owner above k c ++ flattenAll owner above (k + (flatten owner above k c).length) cs

end

/-- The element of the device root, with what the server's own files put below it. -/
def deviceRootNode (placeholders : List Xml) : Xml :=
  .element none "obj".toList [] placeholders

/-- The server before any device is signed up. -/
def Server.start (placeholders : List Xml) : Server :=
  { nodes := flatten 0 [] 0 (deviceRootNode placeholders)
    frees := fun _ => 0
    devices := [{ id := 0, href := deviceRootHref, node := 0, parent := none, signOff := .no }]
    watches := []
    next := (flatten 0 [] 0 (deviceRootNode placeholders)).length }

end Contracts

namespace Server

section Lookup

variable (s : Server)

/-- The linked node at an address. -/
def node? (a : Nat) : Option Node := s.nodes.find? fun n => n.addr = a

/-- A node and the nodes above it. -/
def chain (a : Nat) : List Nat := a :: ((s.node? a).map Node.above).getD []

def isMetaAt (a : Nat) : Bool := (s.node? a).any Node.isMeta

/-- The device whose `node` is at an address. -/
def deviceAt (a : Nat) : Option Device := s.devices.find? fun d => d.node = a

/-- The device whose subtree a node belongs to. -/
def hostOf (a : Nat) : Option Device := (s.chain a).findSome? s.deviceAt

/-- `xml_find_child` for a token of a href. -/
def childAt (a : Nat) (token : Text) : Option Nat :=
  (s.nodes.find? fun c => c.above.head? = some a ∧ c.href = some token).map Node.addr

/-- `device_search`; the hash table and the cache find a device by its href up to one slash at
the end. -/
def deviceSearch (href : Text) : Option Device :=
  if isGivenType href = false then none
  else if isDeviceRootHref href then s.devices.find? fun d => d.id = 0
  else s.devices.find? fun d => isStrIdentical d.href href

/-- The loop of `device_search_parent`, which has at most as many rounds as the href has
characters. -/
def searchUp : Nat → Text → Option Device
  | 0, _ => none
  | n + 1, href => (s.deviceSearch href).orElse fun _ => searchUp n (dirname href)

/-- `device_search_parent`. -/
def deviceSearchParent (href : Text) : Option Device :=
  if isGivenType href = false ∨ isDeviceRootHref href = true then none
  else s.searchUp (href.length + 1) (dirname href)

/-- The device in whose regions a href is accessed. -/
def deviceFind (href : Text) : Option Device :=
  (s.deviceSearch href).orElse fun _ => s.deviceSearchParent href

/-- `__device_get_node_core`. -/
def deviceGetNodeCore (d : Device) (href : Text) : Option Nat :=
  if isStrIdentical d.href href then some d.node
  else forEachStrToken '/' (href.drop d.href.length) s.childAt d.node

/-- Where `device_link_single_node` links a node: the device whose write region it enters and
the parent. -/
def linkPlace (href : Text) : Option (Device × Nat) :=
  (s.deviceFind href).bind fun d =>
    if d.up then (s.deviceGetNodeCore d href).map fun n => (d, n) else none

end Lookup

section Changes

variable (s : Server)

def modifyWatch (id : Nat) (f : Watch → Watch) : Server :=
  { s with watches := s.watches.map fun w => if w.id = id then f w else w }

def modifyDevice (id : Nat) (f : Device → Device) : Server :=
  { s with devices := s.devices.map fun d => if d.id = id then f d else d }

/-- `xmlFreeNode`. -/
def freeNode (a : Nat) : Server :=
  { s with frees := Function.update s.frees a (s.frees a + 1) }

/-- `device_unlink_single_node`. -/
def unlinkNode (href : Text) (a : Nat) : Server :=
  if (s.deviceFind href).any Device.up then
    { s with nodes := s.nodes.filter fun n => n.addr ≠ a }
  else s

/-- `device_link_single_node` for a new item, which joins its watch. -/
def linkItem (id : Nat) (href : Text) : Option Server :=
  (s.linkPlace href).map fun (d, n) =>
    modifyWatch
      { s with
        nodes := s.nodes ++ [Node.mark s.next (s.chain n) d.id id]
        next := s.next + 1 }
      id fun w => { w with items := w.items ++ [Item.init href n s.next] }

/-- `__watch_delete_item_core`: the meta node is freed whether it has been unlinked or not. -/
def deleteItem (id : Nat) (item : Item) : Server :=
  let s := s.modifyWatch id fun w => { w with items := w.items.erase item }
  match item.metaNode with
  | none => s
  | some m => (s.unlinkNode item.href m).freeNode m

end Changes

end Server

/-- Whether the loop of `__get_watch_item_or_parent` ends at an item. -/
def Item.endsAt (href : Text) (item : Item) : Bool :=
  isStrIdentical item.href href || item.href.isPrefixOf href

/-- The node of the item has been deleted. -/
def Item.nullified (item : Item) : Bool := item.metaNode.isNone && item.node.isNone

/-- `__get_watch_item_or_parent`: the item that is returned, or else the nullified item that is
deleted to make room. -/
def Watch.itemOrParent (w : Watch) (href : Text) : Option Item × Option Item :=
  match w.items.find? (Item.endsAt href) with
  | none => (none, none)
  | some item =>
      if isStrIdentical item.href href && item.nullified then (none, some item)
      else (some item, none)

/-- One round of the loop of `watch_notify_watches`. -/
def Item.notified (n : Nat) (deleted : Bool) (item : Item) : Item :=
  if item.node = some n then
    { item with
      node := if deleted then none else item.node
      metaNode := if deleted then none else item.metaNode
      count := item.count + 1 }
  else item

/-- `watch_notify_watches` in the write region. -/
def Watch.notified (n : Nat) (deleted : Bool) (w : Watch) : Watch :=
  { w with
    items := w.items.map (Item.notified n deleted)
    changed := w.changed || w.items.any fun item => item.node = some n }

namespace Server

variable (s : Server)

/-- `watch_create_item` in the write region of a watch. -/
def createItem (w : Watch) (href : Text) : Server :=
  match w.itemOrParent href with
  | (some _, _) => s
  | (none, none) => (s.linkItem w.id href).getD s
  | (none, some item) =>
      let s := s.deleteItem w.id item
      (s.linkItem w.id href).getD s

/-- `watch_delete_item` in the write region of a watch. -/
def removeItem (w : Watch) (href : Text) : Server :=
  match w.items.find? fun item => isStrIdentical item.href href with
  | none => s
  | some item => s.deleteItem w.id item

/-- `watch_notify_watches`; the watch is not found or its write region is refused when it is
being deleted. -/
def notify (id n : Nat) (deleted : Bool) : Server :=
  { s with
    watches := s.watches.map fun w =>
      if w.id = id ∧ w.life = .up then w.notified n deleted else w }

/-- The subtree of a node. -/
def subtree (a : Nat) : List Node := s.nodes.filter fun n => n.addr = a ∨ a ∈ n.above

/-- The meta nodes that `__device_nullify_watch_items` comes to: it does not go into other meta
nodes. -/
def marks (d : Device) : List (Nat × Nat) :=
  s.nodes.filterMap fun m =>
    if m.isMeta ∧ d.node ∈ m.above ∧
        ((m.above.takeWhile (· ≠ d.node)).all fun a => !s.isMetaAt a) = true then
      m.watchId.bind fun id => m.above.head?.map fun n => (id, n)
    else none

/-- `__device_purge`. -/
def purge (d : Device) : Server :=
  { s with
    nodes := s.nodes.filter fun n => ¬ (n.addr = d.node ∨ d.node ∈ n.above)
    frees := fun a => s.frees a + if (s.subtree d.node).any (fun n => n.addr = a) then 1 else 0
    devices := s.devices.filter fun e => e.id ≠ d.id }

/-- `device_add` behind its checks: a contract is added below a node of a device. -/
def mount (p : Device) (n : Nat) (href : Text) (contract : Xml) : Server :=
  { s with
    nodes := s.nodes ++ flatten s.next (s.chain n) (s.next + 1) contract
    devices := s.devices ++
      [{ id := s.next, href := href, node := s.next + 1, parent := some p.id, signOff := .no }]
    next := s.next + 1 + (flatten s.next (s.chain n) (s.next + 1) contract).length }

end Server

end Monitoring
end Obix
