import Obix.Lib.CString
import Obix.Utils.Regions

/-!
# The regions of devices

The functions of `device.c` that enter regions, each followed by what its caller
does then.  A device has a descriptor with an identifier of its own, so that a
device that is signed up again has a new `tsync_t`.  Hrefs are the paths below the
device root, whose own path is empty.

Of the DOM tree the model keeps which nodes there are, the `val` attributes and
the watch meta nodes.  The walk down a contract stops at a given depth.  Reference
counters, the hash table, the cache, access control and files are left out, and so
is the region of the watch set, in which nobody waits.
-/

namespace Obix
namespace Server

open CString

/-- The tokens of a href below the device root. -/
abbrev Href := List Text

/-- `obix_dev_t`. -/
structure Device where
  id : Nat
  href : Href
  deriving DecidableEq, Repr

/-- `obix_watch_item_t`; `live` unless `node` and `meta` are `NULL`. -/
structure WatchItem where
  href : Href
  live : Bool
  count : Nat
  deriving DecidableEq, Repr

/-- `obix_watch_t`. -/
structure Watch where
  items : List WatchItem
  changed : Bool
  tasksCount : Int
  deriving DecidableEq, Repr

/-- What the threads share besides the `tsync_t` objects. -/
structure World where
  devices : List Device
  /-- Identifier of the next device descriptor. -/
  next : Nat
  nodes : List Href
  val : Href → Option Text
  /-- Watch meta nodes with the node they are under and the `watch_id`. -/
  metas : List (Href × Nat)
  watch : Nat → Option Watch

/-- The objects with regions. -/
inductive Lock
  | device (id : Nat)
  | watch (id : Nat)
  deriving DecidableEq, Repr

/-- What a thread of the server has still to do. -/
abbrev Task := Regional Lock World

namespace World

/-- `device_search`. -/
def search (w : World) (href : Href) : Option Device :=
  w.devices.find? fun dev => dev.href = href

/-- The loop of `device_search_parent`, on the reversed href. -/
def searchUp (w : World) : List Text → Option Device
  | [] => none
  | _ :: rest => w.search rest.reverse <|> w.searchUp rest

/-- `device_search_parent`. -/
def searchParent (w : World) (href : Href) : Option Device :=
  w.searchUp href.reverse

/-- `device_search`, and `device_search_parent` if it fails.  The nodes of a
contract have the descriptor of their device in `_private`. -/
def host (w : World) (href : Href) : Option Device :=
  w.search href <|> w.searchParent href

/-- The children of a node besides meta nodes. -/
def children (w : World) (node : Href) : List Href :=
  w.nodes.filter fun n => n ≠ [] ∧ n.dropLast = node

/-- The watches that have a meta node under a node. -/
def watchesAt (w : World) (node : Href) : List Nat :=
  (w.metas.filter fun m => m.1 = node).map Prod.snd

def updateWatch (w : World) (id : Nat) (f : Watch → Watch) : World :=
  { w with watch := Function.update w.watch id ((w.watch id).map f) }

/-- What `watch_notify_watches` does to a watch item. -/
def notifyItem (monitored : Href) (deleted : Bool) (item : WatchItem) : WatchItem :=
  if item.live = true ∧ item.href = monitored then
    { item with live := !deleted, count := item.count + 1 }
  else item

/-- What `watch_notify_watches` does to a watch. -/
def notify (id : Nat) (monitored : Href) (deleted : Bool) (w : World) : World :=
  w.updateWatch id fun watch =>
    { watch with
      items := watch.items.map (notifyItem monitored deleted)
      changed := watch.changed ||
        watch.items.any fun item => item.live && decide (item.href = monitored) }

end World

/-- `watch_notify_watches`. -/
def watchNotifyWatches (id : Nat) (monitored : Href) (deleted : Bool) (k : Task) : Task :=
  .look fun w =>
    if (w.watch id).isNone then k
    else
      .enter .write (.watch id)
        (.access (World.notify id monitored deleted) fun _ => .exit .write (.watch id) k)
        k

/-- Notify a list of watches. -/
def notifyEach (monitored : Href) (deleted : Bool) (ids : List Nat) (k : Task) : Task :=
  ids.foldr (fun id rest => watchNotifyWatches id monitored deleted rest) k

/-- A `tsync_reader_entry` whose result is ignored. -/
def reenter (dev : Nat) (k : Task) : Task :=
  .enter .read (.device dev) k k

/-- `__device_notify_watches` at one node; `up` goes on with the node above. -/
def notifyAt (up : Nat → Task → Task) (previous : Nat) (node : Href) (k : Task) : Task :=
  .look fun w =>
    match w.host node with
    | none => k
    | some current =>
        let visit := fun rest : Task =>
          .look fun w' => notifyEach node false (w'.watchesAt node) (up current.id rest)
        if current.id = previous then visit k
        else
          .exit .read (.device previous)
            (.enter .read (.device current.id)
              (visit (.exit .read (.device current.id) (reenter previous k)))
              k)

/-- `__device_notify_watches`, on the reversed href of the node.  The parent of the
device root has no descriptor in `_private`. -/
def notifyUp : List Text → Nat → Task → Task
  | [], previous, k => notifyAt (fun _ rest => rest) previous [] k
  | token :: rest, previous, k => notifyAt (notifyUp rest) previous (token :: rest).reverse k

/-- `device_notify_watches`. -/
def deviceNotifyWatches (dev : Nat) (node : Href) (k : Task) : Task :=
  .enter .read (.device dev)
    (notifyUp node.reverse dev (.exit .read (.device dev) k))
    k

/-- `__device_copy_node`; `k` is told whether there is a copy. -/
def copyNode : Nat → Nat → Href → (Bool → Task) → Task
  | 0, _, _, k => k false
  | depth + 1, parent, src, k =>
      .look fun w =>
        match w.host src with
        | none => k false
        | some child =>
            let body := fun rest : Task =>
              .look fun w' =>
                (w'.children src).foldr
                  (fun node next => copyNode depth child.id node fun _ => next) rest
            if child.id = parent then body (k true)
            else
              .exit .read (.device parent)
                (.enter .read (.device child.id)
                  (body (.exit .read (.device child.id) (reenter parent (k true))))
                  (reenter parent (k false)))

/-- `device_copy_uri`. -/
def deviceCopyUri (depth : Nat) (href : Href) (k : Bool → Task) : Task :=
  .look fun w =>
    match w.host href with
    | none => k false
    | some dev =>
        .enter .read (.device dev.id)
          (.look fun w' =>
            if href ∈ w'.nodes then
              copyNode depth dev.id href fun copied => .exit .read (.device dev.id) (k copied)
            else .exit .read (.device dev.id) (k false))
          (k false)

/-- `device_update_uri`. -/
def deviceUpdateUri (href : Href) (new : Text) : Task :=
  .look fun w =>
    match w.host href with
    | none => .done
    | some dev =>
        .enter .write (.device dev.id)
          (.access
            (fun w' =>
              if href ∈ w'.nodes then { w' with val := Function.update w'.val href (some new) }
              else w')
            fun w' =>
              .exit .write (.device dev.id)
                (if href ∈ w'.nodes ∧ w'.val href ≠ some new then
                  deviceNotifyWatches dev.id href .done
                else .done))
          .done

/-- Whether `device_add` accepts a contract, once in the write region of the parent. -/
def World.accepts (w : World) (href : Href) : Prop :=
  w.search href = none ∧ href.dropLast ∈ w.nodes ∧ href ∉ w.nodes

instance (w : World) (href : Href) : Decidable (w.accepts href) :=
  inferInstanceAs (Decidable (_ ∧ _ ∧ _))

/-- The nodes of a contract and the new device in place. -/
def World.add (href : Href) (contract : List Href) (w : World) : World :=
  { w with
    devices := w.devices ++ [{ id := w.next, href := href }]
    next := w.next + 1
    nodes := w.nodes ++ contract.map (href ++ ·) }

/-- `device_add` for a signUp request; `contract` are the paths of the nodes in the
device contract. -/
def deviceAdd (href : Href) (contract : List Href) : Task :=
  .look fun w =>
    match w.searchParent href with
    | none => .done
    | some parent =>
        .enter .write (.device parent.id)
          (.access (fun w' => if w'.accepts href then w'.add href contract else w') fun w' =>
            .exit .write (.device parent.id)
              (if w'.accepts href then deviceNotifyWatches parent.id href.dropLast .done
              else .done))
          .done

/-- The watch meta nodes below a node, `__device_nullify_watch_items`. -/
def nullifyWatchItems (metas : List (Href × Nat)) (k : Task) : Task :=
  metas.foldr (fun m rest => watchNotifyWatches m.2 m.1 true rest) k

/-- `__device_purge`. -/
def World.purge (dev : Device) (w : World) : World :=
  { w with
    devices := w.devices.filter (· ≠ dev)
    nodes := w.nodes.filter fun n => ¬ dev.href <+: n
    metas := w.metas.filter fun m => ¬ dev.href <+: m.1 }

/-- `device_del` for a signOff request. -/
def deviceDel (href : Href) : Task :=
  .look fun w =>
    match w.search href, w.searchParent href with
    | some dev, some parent =>
        .shutdown (.device dev.id)
          (.look fun w' =>
            if w'.devices.any fun d => decide (dev.href <+: d.href ∧ d ≠ dev) then
              .revoke (.device dev.id) .done
            else
              nullifyWatchItems (w'.metas.filter fun m => dev.href <+: m.1)
                (.insist .write (.device parent.id)
                  (.access (World.purge dev) fun _ =>
                    .exit .write (.device parent.id)
                      (deviceNotifyWatches parent.id href.dropLast .done))))
          .done
    | _, _ => .done

end Server
end Obix
