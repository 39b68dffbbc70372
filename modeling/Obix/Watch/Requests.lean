import Obix.Device.Regions

/-!
# The regions of watches

The functions of `watch.c` that enter regions, and the requests that devices and
watches are used with.
-/

namespace Obix
namespace Server

open CString

/-- A href as a string. -/
def hrefText (href : Href) : Text :=
  "/obix/deviceRoot".toList ++ href.flatMap ('/' :: ·)

/-- The watch item at which the loop of `__get_watch_item_or_parent` ends. -/
def Watch.find (watch : Watch) (href : Href) : Option WatchItem :=
  watch.items.find? fun item => item.href = href ∨ hrefText item.href <+: hrefText href

/-- Whether `__get_watch_item_or_parent` returns an item. -/
def Watch.covers (watch : Watch) (href : Href) : Bool :=
  match watch.find href with
  | none => false
  | some item => item.live || decide (item.href ≠ href)

/-- Remove the first item for a href. -/
def Watch.erase (href : Href) (watch : Watch) : Watch :=
  { watch with items := watch.items.eraseP fun item => item.href = href }

/-- `__get_watch_item_or_parent` deletes an item whose node has been deleted. -/
def Watch.renew (href : Href) (watch : Watch) : Watch :=
  if (watch.find href).isSome = true ∧ watch.covers href = false then watch.erase href else watch

/-- A new meta node under the node of a href, and its watch item. -/
def World.link (id : Nat) (href : Href) (w : World) : World :=
  if w.nodes.contains href then
    { w.updateWatch id fun watch =>
        { watch with items := watch.items ++ [{ href := href, live := true, count := 0 }] } with
      metas := w.metas ++ [(href, id)] }
  else w

/-- `device_link_single_node` in the write region of a watch. -/
def deviceLinkSingleNode (id : Nat) (href : Href) (k : Task) : Task :=
  .look fun w =>
    match w.host href with
    | none => .exit .write (.watch id) k
    | some dev =>
        .enter .write (.device dev.id)
          (.access (World.link id href) fun _ =>
            .exit .write (.device dev.id) (.exit .write (.watch id) k))
          (.exit .write (.watch id) k)

/-- `watch_create_item`. -/
def watchCreateItem (depth id : Nat) (href : Href) (k : Task) : Task :=
  deviceCopyUri depth href fun copied =>
    if copied then
      .enter .write (.watch id)
        (.access (fun w => w.updateWatch id (Watch.renew href)) fun w =>
          if (w.watch id).any fun watch => watch.covers href then .exit .write (.watch id) k
          else deviceLinkSingleNode id href k)
        k
    else k

/-- `device_unlink_single_node` in the write region of a watch. -/
def deviceUnlinkSingleNode (id : Nat) (href : Href) (k : Task) : Task :=
  .look fun w =>
    match w.host href with
    | none => .exit .write (.watch id) k
    | some dev =>
        .enter .write (.device dev.id)
          (.access (fun w' => { w' with metas := w'.metas.erase (href, id) }) fun _ =>
            .exit .write (.device dev.id) (.exit .write (.watch id) k))
          (.exit .write (.watch id) k)

/-- `watch_delete_item`. -/
def watchDeleteItem (id : Nat) (href : Href) (k : Task) : Task :=
  .enter .write (.watch id)
    (.access (fun w => w.updateWatch id (Watch.erase href)) fun w =>
      if (w.watch id).any fun watch =>
          (watch.items.find? fun item => item.href = href).any WatchItem.live then
        deviceUnlinkSingleNode id href k
      else .exit .write (.watch id) k)
    k

/-- Whether `__watch_harvest_changes` resets the indicators of changes. -/
def Watch.resets (watch : Watch) (includeAll : Bool) : Bool :=
  includeAll || decide (watch.tasksCount ≤ 1)

/-- Reset the counter of a watch item. -/
def Watch.resetItem (includeAll : Bool) (href : Href) (watch : Watch) : Watch :=
  if watch.resets includeAll then
    { watch with
      items := watch.items.map fun item =>
        if item.href = href then { item with count := 0 } else item }
  else watch

/-- Reset the indicator of changes. -/
def Watch.resetChanged (includeAll : Bool) (watch : Watch) : Watch :=
  if watch.resets includeAll then { watch with changed := false } else watch

/-- One round of the loop of `__watch_harvest_changes`. -/
def harvestItem (depth id : Nat) (includeAll : Bool) (item : WatchItem) (k : Task) : Task :=
  if item.count = 0 ∧ includeAll = false then k
  else
    .access (fun w => w.updateWatch id (Watch.resetItem includeAll item.href)) fun _ =>
      if item.live then deviceCopyUri depth item.href fun _ => k else k

/-- `__watch_harvest_changes`. -/
def watchHarvestChanges (depth id : Nat) (includeAll : Bool) (k : Task) : Task :=
  .look fun w =>
    match w.watch id with
    | none => k
    | some watch =>
        if watch.changed = false ∧ includeAll = false then k
        else
          watch.items.foldr (harvestItem depth id includeAll)
            (.access (fun w' => w'.updateWatch id (Watch.resetChanged includeAll)) fun _ => k)

/-- Add to the number of poll tasks of a watch. -/
def World.addTasks (id : Nat) (n : Int) (w : World) : World :=
  w.updateWatch id fun watch => { watch with tasksCount := watch.tasksCount + n }

/-- `watch_create_poll_task`, as far as the watch is concerned. -/
def watchCreatePollTask (id : Nat) : Task :=
  .enter .write (.watch id)
    (.access (World.addTasks id 1) fun _ => .exit .write (.watch id) .done)
    .done

/-- `watch_poll_helper`, for pollRefresh if `includeAll`. -/
def watchPollHelper (depth id : Nat) (includeAll : Bool) : Task :=
  .look fun w =>
    match w.watch id with
    | none => .done
    | some _ =>
        .enter .read (.watch id)
          (.look fun w' =>
            if includeAll ∨ (w'.watch id).any Watch.changed then
              watchHarvestChanges depth id includeAll (.exit .read (.watch id) .done)
            else .exit .read (.watch id) (watchCreatePollTask id))
          .done

/-- `poll_thread_task_helper`: the changes are harvested even if the watch is being
shut down and the thread is not in its read region. -/
def pollThreadTaskHelper (depth id : Nat) : Task :=
  let dequeue : Task :=
    .enter .write (.watch id)
      (.access (World.addTasks id (-1)) fun _ => .exit .write (.watch id) .done)
      (.access (World.addTasks id (-1)) fun _ => .done)
  .enter .read (.watch id)
    (watchHarvestChanges depth id false (.exit .read (.watch id) dequeue))
    (watchHarvestChanges depth id false dequeue)

/-- `watch_item_helper`. -/
def watchItemHelper (id : Nat) (hrefs : List Href) (each : Href → Task → Task) : Task :=
  .look fun w =>
    match w.watch id with
    | none => .done
    | some _ => hrefs.foldr each .done

/-- The requests of clients, and the tasks of the polling threads. -/
inductive Request
  | watchAdd (id : Nat) (hrefs : List Href)
  | watchRemove (id : Nat) (hrefs : List Href)
  | pollChanges (id : Nat)
  | pollRefresh (id : Nat)
  | pollTask (id : Nat)
  | write (href : Href) (new : Text)
  | signUp (href : Href) (contract : List Href)
  | signOff (href : Href)

/-- What a thread does for a request; `depth` bounds the walks down a contract. -/
def Request.task (depth : Nat) : Request → Task
  | watchAdd id hrefs => watchItemHelper id hrefs (watchCreateItem depth id)
  | watchRemove id hrefs => watchItemHelper id hrefs (watchDeleteItem id)
  | pollChanges id => watchPollHelper depth id false
  | pollRefresh id => watchPollHelper depth id true
  | pollTask id => pollThreadTaskHelper depth id
  | write href new => deviceUpdateUri href new
  | signUp href contract => deviceAdd href contract
  | signOff href => deviceDel href

end Server
end Obix
