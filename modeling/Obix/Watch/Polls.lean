import Obix.Lib.Threads
import Obix.Utils.Regions
import Obix.Xml.Href

/-!
# A watch and its long polls

One watch with its items, its poll tasks and the backlog, and the threads that use it:
clients, devices that notify it, poll threads and the lease thread.  What is done in the write
region of the watch, under `backlog->mutex` or under `watch->mutex` is one atomic step; in the
read region each look at an item and each reset of a counter is a step of its own.  The two
halves of an entry are two steps.

Other watches are left out: what poll threads do with their tasks does not touch this watch,
and leaving them out of the queues does not change the order of the others.  The memory of a
freed task is not used for another one.  Memory is never short.
-/

namespace Obix

/-- The second half of an entry; the write region is left at once. -/
def Tsync.pass (sync : Tsync) : Mode → Option Tsync
  | .read => sync.grant .read
  | .write => (sync.grant .write).map fun sync' => sync'.leave .write

namespace Watches

open CString

/-- `obix_watch_item_t`; `key` is its address and `node` the monitored node. -/
structure Item where
  key : Nat
  href : Text
  node : Option Nat
  count : Nat
  deriving DecidableEq, Repr

/-- `list_active` of a poll task: `list_add_tail` and `list_del` change it once each. -/
inductive Link
  | self
  | queued
  | poisoned
  deriving DecidableEq, Repr

/-- A poll request with its watchOut contract, and the `poll_task_t` made for it.  `resets`
and `owed` are kept for the statements only: the items whose counters have been reset for this
request, and those that have been notified while the task was in `watch->tasks`. -/
structure Poll where
  expiry : Nat
  /-- The items with an entry in the watchOut contract. -/
  out : List Nat
  /-- The watchOut contracts sent. -/
  replies : List (List Nat)
  /-- `task->watch != NULL`. -/
  watch : Bool
  active : Link
  frees : Nat
  resets : List Nat
  owed : List Nat
  deriving DecidableEq, Repr

def Poll.fresh (expiry : Nat) : Poll :=
  { expiry := expiry, out := [], replies := [], watch := false, active := .self, frees := 0,
    resets := [], owed := [] }

/-- The watch and the backlog.  `misused` is raised when somebody reads or writes a poll task
that has been freed. -/
structure Shared where
  made : Bool
  /-- In `watchset->watches`. -/
  listed : Bool
  disposed : Bool
  sync : Tsync
  refcnt : Int
  items : List Item
  changed : Bool
  tasks : List Nat
  tasksCount : Int
  listAll : List Nat
  listActive : List Nat
  poll : Nat → Poll
  next : Nat
  misused : Bool

/-- Before `watch_create`. -/
def Shared.init : Shared :=
  { made := false, listed := false, disposed := false, sync := Tsync.init, refcnt := 0,
    items := [], changed := false, tasks := [], tasksCount := 0, listAll := [], listActive := [],
    poll := fun _ => Poll.fresh 0, next := 0, misused := false }

/-- What is done in the write region for one href of a watchIn contract. -/
inductive Edit
  /-- `watch_create_item`; `linked` is the node that gets the meta node. -/
  | add (href : Text) (linked : Option Nat)
  /-- `watch_delete_item`. -/
  | remove (href : Text)
  deriving DecidableEq, Repr

/-- The entries into regions of the watch. -/
inductive Entry
  /-- `watch_notify_watches`. -/
  | notify (node : Nat) (deleted : Bool)
  /-- `watch_poll_helper`. -/
  | poll (r : Nat) (all : Bool)
  /-- `watch_create_poll_task`. -/
  | join (r : Nat)
  /-- `poll_thread_task_helper`, to harvest. -/
  | take (r : Nat)
  /-- `poll_thread_task_helper`, to dequeue. -/
  | drop (r : Nat)
  /-- `watch_item_helper`. -/
  | edits (e : Edit) (rest : List Edit)
  /-- `watch_obj_copy_uri`, which does not give back the reference when it is refused, or
  `watch_get_op_id` or `watch_update_uri`, which do. -/
  | visit (m : Mode) (leaky : Bool)
  /-- `handlerWatchServiceMake`. -/
  | make
  /-- `__watch_set_copy_node`; whether it finds out again that it is leaving the watch. -/
  | cross (even : Bool)
  deriving DecidableEq, Repr

/-- A call of `__watch_harvest_changes`. -/
structure Harvest where
  req : Nat
  /-- `include_all`. -/
  all : Bool
  /-- By a poll thread. -/
  task : Bool
  /-- In the read region of the watch. -/
  inside : Bool
  deriving DecidableEq, Repr

/-- Where a thread is. -/
inductive Pc
  | idle
  /-- `watch_get` without a search. -/
  | get (e : Entry)
  | enter (e : Entry) (waiting : Bool)
  /-- In the read region, until it is left. -/
  | inside (even : Bool)
  /-- `watch_poll_helper` at its test of `watch->changed`, and when it is 0. -/
  | test (r : Nat) (all : Bool)
  | quit (r : Nat)
  /-- `__watch_harvest_changes`: at its test of `watch->changed`, at the head of its loop, and
  behind the test of `item->count`. -/
  | harvest (h : Harvest)
  | round (h : Harvest) (passed todo : List Nat)
  | take (h : Harvest) (passed : List Nat) (key : Nat) (todo : List Nat)
  /-- `tsync_reader_exit` after a harvest. -/
  | leave (r : Nat)
  | leaveTask (r : Nat)
  /-- `watch_put`, then the reply of a request. -/
  | put (r : Option Nat)
  | reply (r : Nat)
  /-- `watch_create_poll_task`: `task->watch = watch`, and the queue of all tasks. -/
  | setWatch (r : Nat)
  | queue (r : Nat)
  /-- `poll_thread_task_helper`. -/
  | taken (r : Nat)
  | remove (r : Nat)
  | putTask (r : Nat)
  | clear (r : Nat)
  | replyTask (r : Nat)
  | free (r : Nat)
  /-- `watch_del`, or `delete_watch_task` if `expire`. -/
  | shutdown (expire waiting : Bool)
  | wake
  | unlist (expire : Bool)
  | putDelete
  | drain
  deriving DecidableEq, Repr

/-- What a thread may begin with. -/
inductive Op
  | make
  | notify (node : Nat) (deleted : Bool)
  | pollChanges (expiry : Nat)
  | pollRefresh
  /-- A poll thread that looks for a task at some time. -/
  | pollThread (now : Nat)
  | edits (es : List Edit)
  | visit (m : Mode) (leaky : Bool)
  | cross (even : Bool)
  | delete
  | expire
  deriving DecidableEq, Repr

namespace Shared

/-- `watch_get`. -/
def get (d : Shared) : Shared := { d with refcnt := d.refcnt + 1 }

/-- `watch_put`. -/
def put (d : Shared) : Shared := { d with refcnt := d.refcnt - 1 }

/-- `tsync_reader_exit`. -/
def leave (d : Shared) : Shared := { d with sync := d.sync.leave .read }

def setPoll (d : Shared) (r : Nat) (f : Poll → Poll) : Shared :=
  { d with poll := Function.update d.poll r (f (d.poll r)) }

/-- Read or write some poll tasks. -/
def touch (d : Shared) (rs : List Nat) : Shared :=
  { d with misused := d.misused || rs.any fun r => decide (0 < (d.poll r).frees) }

/-- `__watch_notify_tasks`. -/
def notifyTasks (d : Shared) : Shared :=
  let waiting := d.tasks.filter fun r => (d.poll r).active = .self
  { d.touch d.tasks with
    listActive := d.listActive ++ waiting
    poll := fun r => if r ∈ waiting then { d.poll r with active := .queued } else d.poll r }

end Shared

/-- One round of the loop of `watch_notify_watches`. -/
def Item.notified (node : Nat) (deleted : Bool) (item : Item) : Item :=
  if item.node = some node then
    { item with node := if deleted then none else item.node, count := item.count + 1 }
  else item

namespace Shared

/-- The items that monitor a node. -/
def monitors (d : Shared) (node : Nat) : List Nat :=
  (d.items.filter fun item => item.node = some node).map Item.key

/-- `watch_notify_watches` in the write region. -/
def notifyWatches (d : Shared) (node : Nat) (deleted : Bool) : Shared :=
  if d.monitors node = [] then d
  else
    notifyTasks
      { d with
        items := d.items.map (Item.notified node deleted)
        changed := true
        poll := fun r =>
          if r ∈ d.tasks then { d.poll r with owed := (d.poll r).owed ++ d.monitors node }
          else d.poll r }

/-- Whether the loop of `__get_watch_item_or_parent` ends at an item. -/
def endsAt (href : Text) (item : Item) : Bool :=
  isStrIdentical item.href href || item.href.isPrefixOf href

/-- A new item. -/
def append (d : Shared) (href : Text) (linked : Option Nat) : Shared :=
  match linked with
  | none => d
  | some node =>
      { d with
        items := d.items ++ [{ key := d.next, href := href, node := some node, count := 0 }]
        next := d.next + 1 }

/-- What `watch_create_item` and `watch_delete_item` do in the write region. -/
def edit (d : Shared) : Edit → Shared
  | .add href linked =>
      match d.items.find? (endsAt href) with
      | none => d.append href linked
      | some item =>
          -- an item whose node has been deleted makes room for a new one
          if isStrIdentical item.href href && item.node.isNone then
            append { d with items := d.items.eraseP (endsAt href) } href linked
          else d
  | .remove href =>
      { d with items := d.items.eraseP fun item => isStrIdentical item.href href }

/-- The counter of an item. -/
def count (d : Shared) (key : Nat) : Nat :=
  ((d.items.find? fun item => item.key = key).map Item.count).getD 0

/-- Whether a harvest resets the indicators of changes. -/
def resets (d : Shared) (all : Bool) : Bool :=
  all || decide (d.tasksCount ≤ 1)

/-- `item->count = 0`. -/
def resetItem (d : Shared) (key : Nat) : Shared :=
  { d with
    items := d.items.map fun item : Item =>
      if item.key = key then { item with count := 0 } else item }

/-- `__watch_harvest_changes` behind its test of `item->count`. -/
def collect (d : Shared) (h : Harvest) (key : Nat) : Shared :=
  if d.resets h.all then
    (d.resetItem key).setPoll h.req fun x =>
      { x with out := x.out ++ [key], resets := x.resets ++ [key] }
  else d.setPoll h.req fun x => { x with out := x.out ++ [key] }

/-- The end of `__watch_harvest_changes`. -/
def settle (d : Shared) (h : Harvest) : Shared :=
  if d.resets h.all then { d with changed := false } else d

/-- A task joins `watch->tasks`. -/
def joinTasks (d : Shared) (r : Nat) : Shared :=
  { d with tasks := d.tasks ++ [r], tasksCount := d.tasksCount + 1 }

/-- A task is taken out of `watch->tasks`. -/
def dropTask (d : Shared) (r : Nat) : Shared :=
  { d.touch [r] with tasks := d.tasks.erase r, tasksCount := d.tasksCount - 1 }

/-- A task joins `backlog->list_all` behind the tasks that expire no later. -/
def enqueue (d : Shared) (r : Nat) : Shared :=
  let early := fun r' => decide ((d.poll r').expiry ≤ (d.poll r).expiry)
  { d.touch (r :: d.listAll) with
    listAll := d.listAll.takeWhile early ++ r :: d.listAll.dropWhile early }

/-- The task for a poll thread: the first active one or else the first one if it has
expired. -/
def nextTask (d : Shared) (now : Nat) : Option Nat :=
  match d.listActive with
  | r :: _ => some r
  | [] => d.listAll.head?.filter fun r => decide ((d.poll r).expiry ≤ now)

/-- `poll_thread_task` takes a task out of the queues. -/
def dequeue (d : Shared) (r : Nat) : Shared :=
  setPoll { d.touch [r] with listAll := d.listAll.erase r, listActive := d.listActive.erase r } r
    fun x => { x with active := .poisoned }

/-- `obix_server_reply_object`. -/
def reply (d : Shared) (r : Nat) : Shared :=
  d.setPoll r fun x => { x with replies := x.replies ++ [x.out] }

/-- `free(task)`. -/
def free (d : Shared) (r : Nat) : Shared :=
  d.setPoll r fun x => { x with frees := x.frees + 1 }

end Shared

/-- The rest of `watch_item_helper`. -/
def afterEdits : List Edit → Pc
  | [] => .put none
  | e :: rest => .enter (.edits e rest) false

/-- Behind `__watch_harvest_changes`. -/
def Harvest.after (h : Harvest) : Pc :=
  if h.task then if h.inside then .leaveTask h.req else .enter (.drop h.req) false
  else .leave h.req

namespace Entry

def mode : Entry → Mode
  | notify .. | join _ | drop _ | edits .. => .write
  | poll .. | take _ | make | cross _ => .read
  | visit m _ => m

/-- Where a thread goes on when an entry is refused. -/
def refused : Entry → Pc
  | notify .. => .idle
  | poll r _ | join r => .put (some r)
  | take r => .harvest ⟨r, false, true, false⟩
  | drop r => .remove r
  | edits _ rest => afterEdits rest
  | visit _ leaky => if leaky then .idle else .put none
  | make | cross _ => .put none

/-- What a thread does when an entry is refused. -/
def denied (e : Entry) (d : Shared) : Shared :=
  match e with
  | join r => d.free r
  | _ => d

/-- What a thread does in the write region. -/
def work (e : Entry) (d : Shared) : Shared :=
  match e with
  | notify node deleted => d.notifyWatches node deleted
  | join r => d.joinTasks r
  | drop r => d.dropTask r
  | edits e _ => d.edit e
  | _ => d

/-- Where a thread goes on in the read region or after the write region. -/
def granted : Entry → Pc
  | notify .. => .put none
  | poll r all => .test r all
  | join r => .setWatch r
  | take r => .harvest ⟨r, false, true, true⟩
  | drop r => .putTask r
  | edits _ rest => afterEdits rest
  | visit .read _ => .inside true
  | visit .write _ => .put none
  | make => .inside true
  | cross even => .inside even

end Entry

namespace Shared

/-- One atomic step of a thread; `none` if it has to wait or has nothing to do. -/
def advance (d : Shared) : Pc → Option (Shared × Pc)
  | .idle => none
  | .get e => some (d.get, .enter e false)
  | .enter e false =>
      match d.sync.request e.mode with
      | none => some (e.denied d, e.refused)
      | some sync => some ({ d with sync := sync }, .enter e true)
  | .enter e true =>
      (d.sync.pass e.mode).map fun sync => (e.work { d with sync := sync }, e.granted)
  | .inside even => some (if even then (d.leave, .put none) else (d, .idle))
  | .test r all =>
      some (d, if d.changed || all then .harvest ⟨r, all, false, true⟩ else .quit r)
  | .quit r => some (d.leave, .enter (.join r) false)
  | .harvest h =>
      some (if h.task then d.touch [h.req] else d,
        if d.changed || h.all then .round h [] (d.items.map Item.key) else h.after)
  | .round h _ [] => some (d.settle h, h.after)
  | .round h passed (key :: todo) =>
      some (d, if d.count key = 0 ∧ h.all = false then .round h (passed ++ [key]) todo
        else .take h passed key todo)
  | .take h passed key todo => some (d.collect h key, .round h (passed ++ [key]) todo)
  | .leave r => some (d.leave, .put (some r))
  | .leaveTask r => some (d.leave, .enter (.drop r) false)
  | .put r => some (d.put, r.elim .idle .reply)
  | .reply r => some (d.reply r, .idle)
  | .setWatch r => some ((d.touch [r]).setPoll r fun x => { x with watch := true }, .queue r)
  | .queue r => some (d.enqueue r, .idle)
  | .taken r =>
      some (d.touch [r], if (d.poll r).watch then .enter (.take r) false else .replyTask r)
  | .remove r => some (d.dropTask r, .putTask r)
  | .putTask r => some (d.put, .clear r)
  | .clear r => some ((d.touch [r]).setPoll r fun x => { x with watch := false }, .replyTask r)
  | .replyTask r => some ((d.touch [r]).reply r, .free r)
  | .free r => some (d.free r, .idle)
  | .shutdown expire false =>
      match d.sync.shutdownRequest with
      | none => some (d, if expire then .idle else .put none)
      | some sync => some ({ d with sync := sync }, .shutdown expire true)
  | .shutdown expire true =>
      d.sync.shutdownGrant.map fun sync =>
        ({ d with sync := sync }, if expire then .unlist true else .wake)
  | .wake => some (d.notifyTasks, .unlist false)
  | .unlist expire => some ({ d with listed := false }, if expire then .drain else .putDelete)
  | .putDelete => some (d.put, .drain)
  | .drain =>
      if 0 < d.refcnt then none else some ({ d with disposed := true, items := [] }, .idle)

/-- `watch_search`, then the rest of an operation. -/
def search (d : Shared) (p : Pc) : Shared × Pc :=
  if d.listed then (d.get, p) else (d, .idle)

/-- `watch_poll_helper` up to its entry into the read region. -/
def startPoll (d : Shared) (expiry : Nat) (all : Bool) : Shared × Pc :=
  if d.listed then
    ({ d.get with
        poll := Function.update d.poll d.next (Poll.fresh expiry)
        next := d.next + 1 },
      .enter (.poll d.next all) false)
  else (d, .idle)

/-- Begin an operation in an idle thread. -/
def start (d : Shared) : Op → Option (Shared × Pc)
  | .make =>
      if d.made then none else some ({ d with made := true, listed := true }, .get .make)
  | .notify node deleted => some (d.search (.enter (.notify node deleted) false))
  | .pollChanges expiry => some (d.startPoll expiry false)
  | .pollRefresh => some (d.startPoll 0 true)
  | .pollThread now => (d.nextTask now).map fun r => (d.dequeue r, .taken r)
  | .edits es => some (d.search (afterEdits es))
  | .visit m leaky => some (d.search (.enter (.visit m leaky) false))
  | .cross even => if d.listed then some (d, .get (.cross even)) else none
  | .delete => some (d.search (.shutdown false false))
  | .expire => if d.made ∧ ¬ d.disposed then some (d, .shutdown true false) else none

/-- A thread begins an operation or goes on with its own. -/
def step (d : Shared) (p : Pc) : Option Op → Option (Shared × Pc)
  | none => d.advance p
  | some op => if p = .idle then d.start op else none

end Shared

/-- The watch and its threads. -/
abbrev Polls (ι : Type) := Threads ι Shared Pc

namespace Polls

variable {ι : Type}

def init : Polls ι := { shared := Shared.init, pc := fun _ => .idle }

variable [DecidableEq ι]

/-- A run from the beginning. -/
def Run (acts : List (ι × Option Op)) (s : Polls ι) : Prop :=
  (init : Polls ι).exec Shared.step acts = some s

/-- Every step of a run from the beginning is allowed. -/
def Allows (ok : Polls ι → ι × Option Op → Prop) (acts : List (ι × Option Op)) : Prop :=
  (init : Polls ι).Guarded Shared.step ok acts

end Polls

section Sample

/-- A client makes a watch, adds an item for the node 7 and asks for changes. -/
def makeAddPoll : List (Fin 2 × Option Op) :=
  [(0, some .make), (0, none), (0, none), (0, none), (0, none), (0, none),
    (0, some (.edits [.add "/obix/deviceRoot/d/".toList (some 7)])), (0, none), (0, none), (0, none),
    (0, some (.pollChanges 10)), (0, none), (0, none), (0, none), (0, none)]

/-- A device notifies the watch. -/
def notifySeven : List (Fin 2 × Option Op) :=
  [(1, some (.notify 7 false)), (1, none), (1, none), (1, none)]

/-- The client's poll task joins the watch and the queue. -/
def joinQueue : List (Fin 2 × Option Op) := [(0, none), (0, none), (0, none), (0, none)]

end Sample

end Watches
end Obix
