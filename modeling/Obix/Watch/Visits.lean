import Obix.Watch.Requests

/-!
# The regions that requests visit

`Visits d w task`: a task that is inside of the device `d` and the watch `w`, of at most
one of each, enters and leaves regions one after the other.  All tasks of the server
do (`ServerTask.visits`), but for two entries of the walks through the device tree.
When a walk wants to get back into the device it came from (`reenter`), and when a
notification goes up to the device above (`climb`), the code goes on as if it were
inside even if it has been refused.
-/

namespace Obix
namespace Server

open CString

/-- What `__device_notify_watches` does behind a node: it goes on with the node above. -/
def notifyAbove : List Text → Nat → Task → Task
  | [], _, rest => rest
  | _ :: path, current, rest => notifyUp path current rest

/-- `__device_notify_watches` when it has left the device `previous` for the one above. -/
def climb (path : List Text) (previous current : Nat) (k : Task) : Task :=
  .enter .read (.device current)
    (.look fun w =>
      notifyEach path.reverse false (w.watchesAt path.reverse)
        (notifyAbove path current (.exit .read (.device current) (reenter previous k))))
    k

/-- The regions a task enters and leaves when it is inside of at most one device and at
most one watch. -/
inductive Visits : Option (Nat × Mode) → Option (Nat × Mode) → Task → Prop
  | done : Visits none none .done
  | enterDevice
      {m : Mode} {x : Nat} {w : Option (Nat × Mode)} {granted refused : Task}
      (hg : Visits (some (x, m)) w granted)
      (hr : Visits none w refused) :
      Visits none w (.enter m (.device x) granted refused)
  | enterWatch
      {m : Mode} {x : Nat} {d : Option (Nat × Mode)} {granted refused : Task}
      (hg : Visits d (some (x, m)) granted)
      (hr : Visits d none refused) :
      Visits d none (.enter m (.watch x) granted refused)
  | insistDevice
      {m : Mode} {x : Nat} {w : Option (Nat × Mode)} {granted : Task}
      (hg : Visits (some (x, m)) w granted) :
      Visits none w (.insist m (.device x) granted)
  | exitDevice
      {m : Mode} {x : Nat} {w : Option (Nat × Mode)} {next : Task}
      (hn : Visits none w next) :
      Visits (some (x, m)) w (.exit m (.device x) next)
  | exitWatch
      {m : Mode} {x : Nat} {d : Option (Nat × Mode)} {next : Task}
      (hn : Visits d none next) :
      Visits d (some (x, m)) (.exit m (.watch x) next)
  | shutdown
      {o : Lock} {d w : Option (Nat × Mode)} {granted refused : Task}
      (hg : Visits d w granted)
      (hr : Visits d w refused) :
      Visits d w (.shutdown o granted refused)
  | revoke
      {o : Lock} {d w : Option (Nat × Mode)} {next : Task}
      (hn : Visits d w next) :
      Visits d w (.revoke o next)
  | access
      {upd : World → World} {f : World → Task} {d w : Option (Nat × Mode)}
      (hn : ∀ world, Visits d w (f world)) :
      Visits d w (.access upd f)
  | reenter
      {x : Nat} {w : Option (Nat × Mode)} {next : Task}
      (hg : Visits (some (x, .read)) w next) :
      Visits none w (reenter x next)
  | climb
      {path : List Text} {previous current : Nat} {k : Task}
      (hg : Visits (some (current, .read)) none
        (.look fun w =>
          notifyEach path.reverse false (w.watchesAt path.reverse)
            (notifyAbove path current (.exit .read (.device current) (reenter previous k)))))
      (hk : Visits (some (previous, .read)) none k) :
      Visits none none (climb path previous current k)

section Tasks

variable {d w : Option (Nat × Mode)} {k : Task}

theorem Visits.look
    {f : World → Task}
    (h : ∀ world, Visits d w (f world)) :
    Visits d w (.look f) :=
  .access h

theorem Visits.foldr
    {α : Type} {f : α → Task → Task}
    (hf : ∀ a k, Visits d w k → Visits d w (f a k))
    (l : List α)
    (h : Visits d w k) :
    Visits d w (l.foldr f k) := by
  induction l with
  | nil => exact h
  | cons a l ih => exact hf a _ ih

theorem Visits.watchNotifyWatches
    (id : Nat)
    (monitored : Href)
    (deleted : Bool)
    (h : Visits d none k) :
    Visits d none (watchNotifyWatches id monitored deleted k) := by
  refine .look ?_
  intro world
  split
  · exact h
  · exact .enterWatch (.access fun _ => .exitWatch h) h

theorem notifyUp_eq (path : List Text) :
    notifyUp path = fun previous k => notifyAt (notifyAbove path) previous path.reverse k := by
  funext previous k
  cases path with
  | nil => rfl
  | cons token rest => rfl

theorem Visits.notifyStep
    {path : List Text} {previous : Nat}
    (habove : ∀ x rest, Visits (some (x, .read)) none rest →
      Visits (some (x, .read)) none (notifyAbove path x rest))
    (h : Visits (some (previous, .read)) none k) :
    Visits (some (previous, .read)) none (Server.notifyUp path previous k) := by
  rw [notifyUp_eq]
  refine .look ?_
  intro world
  cases world.host path.reverse with
  | none => exact h
  | some current =>
      have hvisit : ∀ rest : Task, Visits (some (current.id, .read)) none rest →
          Visits (some (current.id, .read)) none
            (.look fun w' => notifyEach path.reverse false (w'.watchesAt path.reverse)
              (notifyAbove path current.id rest)) := by
        intro rest hrest
        refine .look fun world' => ?_
        exact .foldr (fun id _ hk => hk.watchNotifyWatches id path.reverse false) _
          (habove current.id rest hrest)
      dsimp only
      split
      · rename_i hsame
        rw [← hsame] at h ⊢
        exact hvisit k h
      · exact .exitDevice (.climb (hvisit _ (.exitDevice (.reenter h))) h)

theorem Visits.notifyUp
    {path : List Text} {previous : Nat}
    (h : Visits (some (previous, .read)) none k) :
    Visits (some (previous, .read)) none (notifyUp path previous k) := by
  induction path generalizing previous k with
  | nil => exact .notifyStep (fun _ _ hrest => hrest) h
  | cons token rest ih => exact .notifyStep (fun _ _ hrest => ih hrest) h

theorem Visits.deviceNotifyWatches
    {node : Href}
    (dev : Nat)
    (h : Visits none none k) :
    Visits none none (deviceNotifyWatches dev node k) :=
  .enterDevice (Visits.exitDevice h).notifyUp h

theorem Visits.copyNode
    {depth parent : Nat} {src : Href} {k : Bool → Task}
    (h : ∀ copied, Visits (some (parent, .read)) w (k copied)) :
    Visits (some (parent, .read)) w (copyNode depth parent src k) := by
  induction depth generalizing parent src k with
  | zero => exact h false
  | succ depth ih =>
    refine .look ?_
    intro world
    cases world.host src with
    | none => exact h false
    | some child =>
        have hbody : ∀ rest : Task, Visits (some (child.id, .read)) w rest →
            Visits (some (child.id, .read)) w
              (.look fun w' => (w'.children src).foldr
                (fun node next => Server.copyNode depth child.id node fun _ => next) rest) := by
          intro rest hrest
          refine .look fun world' => ?_
          exact .foldr (fun node next hnext => ih fun _ => hnext) _ hrest
        dsimp only
        split
        · rename_i hsame
          subst hsame
          exact hbody _ (h true)
        · -- a child that is being shut down is skipped
          exact .exitDevice (.enterDevice (hbody _ (.exitDevice (.reenter (h true))))
            (Visits.reenter (h false)))

theorem Visits.deviceCopyUri
    {depth : Nat} {href : Href} {k : Bool → Task}
    (h : ∀ copied, Visits none w (k copied)) :
    Visits none w (deviceCopyUri depth href k) := by
  refine .look ?_
  intro world
  cases world.host href with
  | none => exact h false
  | some dev =>
      refine .enterDevice (.look fun world' => ?_) ((h false))
      split
      · exact .copyNode fun copied => .exitDevice (h copied)
      · exact .exitDevice (h false)

theorem visits_deviceUpdateUri (href : Href) (new : Text) :
    Visits none none (deviceUpdateUri href new) := by
  refine .look ?_
  intro world
  cases world.host href with
  | none => exact .done
  | some dev =>
      refine .enterDevice (.access fun world' => .exitDevice ?_) .done
      split
      · exact Visits.done.deviceNotifyWatches _
      · exact .done

theorem visits_deviceAdd (href : Href) (contract : List Href) :
    Visits none none (deviceAdd href contract) := by
  refine .look ?_
  intro world
  cases world.searchParent href with
  | none => exact .done
  | some parent =>
      refine .enterDevice (.access fun world' => .exitDevice ?_) .done
      split
      · exact Visits.done.deviceNotifyWatches _
      · exact .done

theorem visits_deviceDel (href : Href) :
    Visits none none (deviceDel href) := by
  refine .look ?_
  intro world
  cases world.search href with
  | none => exact .done
  | some dev =>
      cases world.searchParent href with
      | none => exact .done
      | some parent =>
          refine .shutdown (.look fun world' => ?_) .done
          split
          · exact .revoke .done
          · refine .foldr (fun m k hk => hk.watchNotifyWatches m.2 m.1 true) _ ?_
            exact .insistDevice (.access fun _ => .exitDevice (Visits.done.deviceNotifyWatches _))

/-- Linking and unlinking a node, in the write region of a watch. -/
theorem Visits.linkTask
    {id : Nat} {href : Href} {upd : World → World}
    (h : Visits none none k) :
    Visits none (some (id, .write))
      (.look fun w =>
        match w.host href with
        | none => .exit .write (.watch id) k
        | some dev =>
            .enter .write (.device dev.id)
              (.access upd fun _ => .exit .write (.device dev.id) (.exit .write (.watch id) k))
              (.exit .write (.watch id) k)) := by
  refine .look ?_
  intro world
  cases world.host href with
  | none => exact .exitWatch h
  | some dev =>
      exact .enterDevice (.access fun _ => .exitDevice (.exitWatch h)) ((.exitWatch h))

theorem Visits.watchCreateItem
    {depth id : Nat} {href : Href}
    (h : Visits none none k) :
    Visits none none (watchCreateItem depth id href k) := by
  refine .deviceCopyUri ?_
  intro copied
  split
  · refine .enterWatch (.access fun world => ?_) h
    split
    · exact .exitWatch h
    · exact h.linkTask
  · exact h

theorem Visits.watchDeleteItem
    {id : Nat} {href : Href}
    (h : Visits none none k) :
    Visits none none (watchDeleteItem id href k) := by
  refine .enterWatch (.access fun world => ?_) h
  split
  · exact h.linkTask
  · exact .exitWatch h

theorem Visits.watchHarvestChanges
    {depth id : Nat} {includeAll : Bool}
    (h : Visits none w k) :
    Visits none w (watchHarvestChanges depth id includeAll k) := by
  refine .look ?_
  intro world
  cases world.watch id with
  | none => exact h
  | some watch =>
      dsimp only
      split
      · exact h
      · refine .foldr (fun item rest hrest => ?_) _ (.access fun _ => h)
        unfold harvestItem
        split
        · exact hrest
        · refine .access fun world' => ?_
          split
          · exact .deviceCopyUri fun _ => hrest
          · exact hrest

theorem visits_watchPollHelper (depth id : Nat) (includeAll : Bool) :
    Visits none none (watchPollHelper depth id includeAll) := by
  refine .look ?_
  intro world
  cases world.watch id with
  | none => exact .done
  | some watch =>
      refine .enterWatch (.look fun world' => ?_) .done
      split
      · exact (Visits.exitWatch .done).watchHarvestChanges
      · exact .exitWatch (.enterWatch (.access fun _ => .exitWatch .done) .done)

theorem visits_pollThreadTaskHelper (depth id : Nat) :
    Visits none none (pollThreadTaskHelper depth id) := by
  have hdequeue : Visits none none
      (.enter .write (.watch id)
        (.access (World.addTasks id (-1)) fun _ => .exit .write (.watch id) .done)
        (.access (World.addTasks id (-1)) fun _ => .done)) :=
    .enterWatch (.access fun _ => .exitWatch .done) (.access fun _ => .done)
  exact .enterWatch (Visits.exitWatch hdequeue).watchHarvestChanges hdequeue.watchHarvestChanges

theorem visits_watchItemHelper
    {id : Nat} {hrefs : List Href} {each : Href → Task → Task}
    (h : ∀ href k, Visits none none k → Visits none none (each href k)) :
    Visits none none (watchItemHelper id hrefs each) := by
  refine .look ?_
  intro world
  cases world.watch id with
  | none => exact .done
  | some watch => exact .foldr h _ .done

/-- What the threads of the server do: the requests of devices and watches, and reads
of a device node. -/
inductive ServerTask : Task → Prop
  | request (depth : Nat) (request : Request) : ServerTask (request.task depth)
  | read (depth : Nat) (href : Href) : ServerTask (deviceCopyUri depth href fun _ => .done)

theorem ServerTask.visits
    {task : Task}
    (h : ServerTask task) :
    Visits none none task := by
  cases h with
  | read depth href => exact .deviceCopyUri fun _ => .done
  | request depth request =>
      cases request with
      | watchAdd id hrefs => exact visits_watchItemHelper fun _ _ hk => hk.watchCreateItem
      | watchRemove id hrefs => exact visits_watchItemHelper fun _ _ hk => hk.watchDeleteItem
      | pollChanges id => exact visits_watchPollHelper depth id false
      | pollRefresh id => exact visits_watchPollHelper depth id true
      | pollTask id => exact visits_pollThreadTaskHelper depth id
      | write href new => exact visits_deviceUpdateUri href new
      | signUp href contract => exact visits_deviceAdd href contract
      | signOff href => exact visits_deviceDel href

end Tasks

end Server
end Obix
