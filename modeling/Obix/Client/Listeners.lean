import Obix.Client.Batch
import Obix.Utils.Ptask

/-!
# Listeners of a client device

With the first listener of a device the watch object and the worker thread that polls it are
created, with the last one they are removed.  `obix_destroy_task` does not reset the descriptor
of the task, so that `obix_setup_task` makes no new thread when listeners come back, and the poll
task is scheduled on a thread that has been disposed.  Devices that get listeners once are polled
as long as they have some (`poll_task_scheduled`).

Threads are numbered in the order of their creation, and their descriptors stay readable.
-/

namespace Obix
namespace Client

open CString

section Model

/-- `Task_Thread`, seen from its callers: the ids of the tasks in its queue. -/
structure WorkerThread where
  idGen : Int
  tasks : List Int
  disposed : Bool
  deriving DecidableEq, Repr

/-- `obix_task_t`. -/
structure ObixTask where
  initialised : Bool
  t : Option Nat
  id : Int
  period : Int
  times : Int
  deriving DecidableEq, Repr

/-- The hrefs that a watch object is used with. -/
structure WatchHrefs where
  pwiMin : Text
  pwiMax : Text
  add : Text
  remove : Text
  pollChanges : Text
  pollRefresh : Text
  delete : Text
  deriving DecidableEq, Repr

/-- `Listener`. -/
structure Listener where
  param : Text
  href : Text
  deriving DecidableEq, Repr

/-- What is done to a worker thread. -/
inductive ThreadOp
  | schedule
  | cancel
  | dispose
  deriving DecidableEq, Repr

/-- A device with its listeners and all worker threads.  `misuses` records what has been done to
threads after their disposal. -/
structure Host where
  ip : Text
  href : Text
  listeners : List Listener
  watch : Option WatchHrefs
  watchThread : ObixTask
  threads : List WorkerThread
  misuses : List (ThreadOp × Nat)
  deriving DecidableEq, Repr

/-- What the environment answers while a listener is registered: the creation of the CURL handles
and of a thread, the href in the answer to `Watch.Make`, and `Watch.Add`. -/
structure Replies where
  curl : Bool
  fork : Bool
  make : Option Text
  add : Bool
  deriving DecidableEq, Repr

/-- `WATCH_PWI`. -/
def watchPwi : Text := "pollWaitInterval".toList

/-- `hd->watch_pwi_min` to `hd->watch_delete`. -/
def watchHrefs (ip href : Text) : Option WatchHrefs := do
  let pwiMin ← linkPathname href (some watchPwi) (some "min".toList) none
  let pwiMax ← linkPathname href (some watchPwi) (some "max".toList) none
  let add ← linkPathname ip (some href) (some "add".toList) none
  let remove ← linkPathname ip (some href) (some "remove".toList) none
  let pollChanges ← linkPathname ip (some href) (some "pollChanges".toList) none
  let pollRefresh ← linkPathname ip (some href) (some "pollRefresh".toList) none
  let delete ← linkPathname ip (some href) (some "delete".toList) none
  some
    { pwiMin := pwiMin, pwiMax := pwiMax, add := add, remove := remove,
      pollChanges := pollChanges, pollRefresh := pollRefresh, delete := delete }

namespace Host

/-- A device that `http_register_device` has set up. -/
def init (ip href : Text) (threads : List WorkerThread) : Host :=
  { ip := ip, href := href, listeners := [], watch := none,
    watchThread := { initialised := false, t := none, id := 0, period := 0, times := 0 },
    threads := threads, misuses := [] }

variable (s : Host)

/-- An operation on a worker thread. -/
def onThread (op : ThreadOp) (t : Nat) (f : WorkerThread → WorkerThread) : Host :=
  match s.threads[t]? with
  | none => s
  | some thread =>
      if thread.disposed then { s with misuses := s.misuses ++ [(op, t)] }
      else { s with threads := s.threads.set t (f thread) }

/-- `ptask_schedule`, which appends a task and returns its id. -/
def ptaskSchedule (t : Nat) (executeTimes : Int) : Int × Host :=
  if executeTimes ≤ 0 ∧ executeTimes ≠ executeIndefinite then (-1, s)
  else
    ((s.threads[t]?).elim 0 WorkerThread.idGen,
      s.onThread .schedule t fun thread =>
        { thread with idGen := thread.idGen + 1, tasks := thread.tasks ++ [thread.idGen] })

/-- `ptask_cancel`. -/
def ptaskCancel (t : Nat) (id : Int) : Host :=
  s.onThread .cancel t fun thread => { thread with tasks := thread.tasks.erase id }

/-- `ptask_dispose`. -/
def ptaskDispose (t : Nat) : Host :=
  s.onThread .dispose t fun thread => { thread with tasks := [], disposed := true }

/-- `obix_setup_task` without a thread of the caller. -/
def setupTask (fork : Bool) (period : Int) (times : Int) : Bool × Host :=
  if s.watchThread.initialised then (true, s)
  else if fork then
    (true,
      { s with
        watchThread :=
          { initialised := true, t := some s.threads.length, id := 0, period := period,
            times := times }
        threads := s.threads ++ [{ idGen := 1, tasks := [], disposed := false }] })
  else (false, s)

/-- `obix_schedule_task`. -/
def scheduleTask : Host :=
  match s.watchThread.initialised, s.watchThread.t with
  | true, some t =>
      let r := s.ptaskSchedule t s.watchThread.times
      { r.2 with watchThread := { s.watchThread with id := r.1 } }
  | _, _ => s

/-- `obix_cancel_task`. -/
def cancelTask : Host :=
  match s.watchThread.initialised, s.watchThread.t with
  | true, some t => s.ptaskCancel t s.watchThread.id
  | _, _ => s

/-- `obix_destroy_task`. -/
def destroyTask : Host :=
  match s.watchThread.initialised, s.watchThread.t with
  | true, some t => s.ptaskDispose t
  | _, _ => s

/-- `http_remove_watch_core`. -/
def removeWatchCore : Host := { s.cancelTask.destroyTask with watch := none }

/-- `_http_create_watch`; the two thresholds of the watch object are written to the server, and a
failure there is only logged. -/
def createWatch (replies : Replies) : ErrCode × Host :=
  if replies.curl then
    match s.setupTask replies.fork 0 executeIndefinite with
    | (false, s) => (.noMemory, s.removeWatchCore)
    | (true, s) =>
        match replies.make with
        | none => (.serverError, s.removeWatchCore)
        | some href =>
            match watchHrefs s.ip href with
            | none => (.noMemory, s.removeWatchCore)
            | some watch => (.success, { s with watch := some watch })
  else (.noMemory, s.removeWatchCore)

/-- `_http_add_watch_item`. -/
def addWatchItem (l : Listener) (add : Bool) : ErrCode × Host :=
  if s.listeners.any fun other => other.param = l.param then (.invalidState, s)
  else if add then
    let s := { s with listeners := s.listeners ++ [l] }
    -- the watch thread is started with the first listener
    (.success, if s.listeners.length = 1 then s.scheduleTask else s)
  else (.serverError, s)

/-- `http_register_listener`. -/
def registerListener (param : Text) (replies : Replies) : ErrCode × Host :=
  match linkPathname s.href none (some param) none with
  | none => (.noMemory, s)
  | some href =>
      if s.listeners.isEmpty then
        match s.createWatch replies with
        | (.success, s) => s.addWatchItem { param := param, href := href } replies.add
        | (ret, s) => (ret, s)
      else s.addWatchItem { param := param, href := href } replies.add

/-- `obix_unregister_listener` with `http_unregister_listener`; `remove` and `delete` tell whether
`Watch.Remove` and `Watch.Delete` succeed. -/
def unregisterListener (param : Text) (remove delete : Bool) : ErrCode × Host :=
  if s.listeners.any fun l => l.param = param then
    let s := { s with listeners := s.listeners.eraseP fun l => l.param = param }
    if s.listeners.isEmpty then
      (if delete then .success else .serverError, s.removeWatchCore)
    else (if remove then .success else .serverError, s)
  else (.invalidArgument, s)

end Host

/-- A call. -/
inductive ListenerCall
  | register (param : Text) (replies : Replies)
  | unregister (param : Text) (remove delete : Bool)
  deriving DecidableEq, Repr

namespace Host

/-- What a call returns and what it leaves behind. -/
def call (s : Host) : ListenerCall → ErrCode × Host
  | .register param replies => s.registerListener param replies
  | .unregister param remove delete => s.unregisterListener param remove delete

/-- A successful call. -/
def step (s : Host) (c : ListenerCall) : Option Host :=
  if (s.call c).1 = .success then some (s.call c).2 else none

/-- The first listener comes to a device whose task descriptor has not been used. -/
def firstTime (s : Host) : ListenerCall → Bool
  | .register _ _ => !s.listeners.isEmpty || !s.watchThread.initialised
  | .unregister _ _ _ => true

/-- The poll task is in the queue of a thread that exists. -/
def Scheduled (s : Host) : Prop :=
  ∃ t thread, s.watchThread.t = some t ∧ s.threads[t]? = some thread ∧
    thread.disposed = false ∧ s.watchThread.id ∈ thread.tasks

/-- A device with listeners is polled, and no thread has been used after its disposal. -/
structure Polled (s : Host) : Prop where
  scheduled : s.listeners ≠ [] → s.Scheduled
  clean : s.misuses = []

end Host

end Model

section Calls

namespace Host

variable {s : Host} {t : Nat} {thread : WorkerThread}

theorem onThread_live
    (op : ThreadOp)
    (f : WorkerThread → WorkerThread)
    (ht : s.threads[t]? = some thread)
    (hlive : thread.disposed = false) :
    s.onThread op t f = { s with threads := s.threads.set t (f thread) } := by
  rw [onThread, ht]
  simp [hlive]

theorem onThread_disposed
    (op : ThreadOp)
    (f : WorkerThread → WorkerThread)
    (ht : s.threads[t]? = some thread)
    (hdisposed : thread.disposed = true) :
    s.onThread op t f = { s with misuses := s.misuses ++ [(op, t)] } := by
  rw [onThread, ht]
  simp [hdisposed]

theorem addWatchItem_cases
    {l : Listener} {add : Bool}
    (h : (s.addWatchItem l add).1 = .success) :
    (s.listeners ≠ [] ∧ (s.addWatchItem l add).2 = { s with listeners := s.listeners ++ [l] }) ∨
      (s.listeners = [] ∧
        (s.addWatchItem l add).2 = Host.scheduleTask { s with listeners := [l] }) := by
  unfold addWatchItem at h ⊢
  split at h
  · cases h
  · split at h
    · rename_i hnew hadd
      simp only [if_neg hnew, if_pos hadd]
      cases hlisteners : s.listeners with
      | nil => exact .inr ⟨rfl, by simp⟩
      | cons first rest => exact .inl ⟨by simp, by simp⟩
    · cases h

theorem setupTask_success
    {fork : Bool} {period times : Int}
    (h : (s.setupTask fork period times).1 = true) :
    s.setupTask fork period times = s.setupTask true period times := by
  cases fork with
  | true => rfl
  | false =>
      unfold setupTask at h ⊢
      split at h
      · rename_i hinit
        rw [if_pos hinit, if_pos hinit]
      · simp at h

/-- What the first listener of a device leads to before it is added. -/
theorem createWatch_success
    {replies : Replies}
    (h : (s.createWatch replies).1 = .success) :
    ∃ watch, (s.createWatch replies).2 =
      { (s.setupTask true 0 executeIndefinite).2 with watch := watch } := by
  unfold createWatch at h ⊢
  cases hcurl : replies.curl with
  | false => simp [hcurl] at h
  | true =>
      cases hsetup : s.setupTask replies.fork 0 executeIndefinite with
      | mk ok s' =>
          cases ok with
          | false => simp [hcurl, hsetup] at h
          | true =>
              have hfork := setupTask_success (congrArg Prod.fst hsetup)
              rw [hsetup] at hfork
              cases hmake : replies.make with
              | none => simp [hcurl, hsetup, hmake] at h
              | some href =>
                  cases hhrefs : watchHrefs s'.ip href with
                  | none => simp [hcurl, hsetup, hmake, hhrefs] at h
                  | some watch => exact ⟨some watch, by simp [← hfork, hhrefs]⟩

theorem setupTask_listeners
    (fork : Bool)
    (period times : Int) :
    (s.setupTask fork period times).2.listeners = s.listeners := by
  unfold setupTask
  split
  · rfl
  · split <;> rfl

theorem registerListener_cases
    {param : Text} {replies : Replies}
    (h : (s.registerListener param replies).1 = .success) :
    ∃ l : Listener,
      (s.listeners ≠ [] ∧
        (s.registerListener param replies).2 = { s with listeners := s.listeners ++ [l] }) ∨
      (s.listeners = [] ∧ ∃ watch, (s.registerListener param replies).2 =
        Host.scheduleTask
          { (s.setupTask true 0 executeIndefinite).2 with watch := watch, listeners := [l] }) := by
  unfold registerListener at h ⊢
  cases hlink : linkPathname s.href none (some param) none with
  | none => simp [hlink] at h
  | some href =>
      refine ⟨{ param := param, href := href }, ?_⟩
      simp only [hlink] at h ⊢
      by_cases hnil : s.listeners = []
      · right
        refine ⟨hnil, ?_⟩
        rw [if_pos (by simp [hnil])] at h ⊢
        cases hcreate : s.createWatch replies with
        | mk ret s' =>
            rw [hcreate] at h
            cases ret with
            | success =>
                obtain ⟨watch, hwatch⟩ := createWatch_success (congrArg Prod.fst hcreate)
                rw [hcreate] at hwatch
                have hempty : s'.listeners = [] := by
                  rw [show s' = _ from hwatch]
                  exact (setupTask_listeners true 0 executeIndefinite).trans hnil
                refine ⟨watch, ?_⟩
                obtain ⟨hne, -⟩ | ⟨-, heq⟩ := addWatchItem_cases h
                · exact absurd hempty hne
                · rw [heq, show s' = _ from hwatch]
            | invalidArgument => cases h
            | invalidState => cases h
            | noMemory => cases h
            | serverError => cases h
      · left
        refine ⟨hnil, ?_⟩
        rw [if_neg (by simpa using hnil)] at h ⊢
        obtain ⟨-, heq⟩ | ⟨hempty, -⟩ := addWatchItem_cases h
        · exact heq
        · exact absurd hempty hnil

theorem unregisterListener_cases
    {param : Text} {remove delete : Bool}
    (h : (s.unregisterListener param remove delete).1 = .success) :
    s.listeners ≠ [] ∧
      ((∃ ls, ls ≠ [] ∧ (s.unregisterListener param remove delete).2 = { s with listeners := ls }) ∨
        (s.unregisterListener param remove delete).2 =
          Host.removeWatchCore { s with listeners := [] }) := by
  unfold unregisterListener at h ⊢
  by_cases hany : (s.listeners.any fun l => l.param = param) = true
  · rw [if_pos hany] at h ⊢
    refine ⟨fun hnil => by simp [hnil] at hany, ?_⟩
    dsimp only at h ⊢
    by_cases hlast : (s.listeners.eraseP fun l => l.param = param) = []
    · right
      rw [if_pos (by simp [hlast]), hlast]
    · left
      rw [if_neg (by simpa using hlast)]
      exact ⟨_, hlast, rfl⟩
  · rw [if_neg hany] at h
    cases h

end Host

end Calls

section Runs

namespace Host

variable {s u : Host} {ip href : Text} {threads : List WorkerThread}

/-- What successful calls keep: the descriptor of a polled device is in use, and once it has been
used, a device without listeners has a disposed thread. -/
structure Kept (s : Host) : Prop where
  polled : s.Polled
  used : s.listeners ≠ [] → s.watchThread.initialised = true
  gone : s.listeners = [] → s.watchThread.initialised = true →
    ∃ t thread, s.watchThread.t = some t ∧ s.threads[t]? = some thread ∧ thread.disposed = true
  times : s.watchThread.initialised = true → s.watchThread.times = executeIndefinite

theorem kept_init : (init ip href threads).Kept where
  polled := ⟨fun h => absurd rfl h, rfl⟩
  used := fun h => absurd rfl h
  gone := fun _ h => by cases h
  times := fun h => by cases h

/-- On a thread that exists the task gets into the queue. -/
theorem scheduleTask_live
    {t : Nat} {thread : WorkerThread}
    (hinit : s.watchThread.initialised = true)
    (htimes : s.watchThread.times = executeIndefinite)
    (hptr : s.watchThread.t = some t)
    (ht : s.threads[t]? = some thread)
    (hlive : thread.disposed = false) :
    s.scheduleTask =
      { s with
        watchThread := { s.watchThread with id := thread.idGen }
        threads := s.threads.set t
          { thread with idGen := thread.idGen + 1, tasks := thread.tasks ++ [thread.idGen] } } := by
  unfold scheduleTask ptaskSchedule
  simp [hinit, hptr, htimes, ht, onThread_live .schedule _ ht hlive]

/-- On a disposed thread it is a misuse. -/
theorem scheduleTask_disposed
    {t : Nat} {thread : WorkerThread}
    (hinit : s.watchThread.initialised = true)
    (htimes : s.watchThread.times = executeIndefinite)
    (hptr : s.watchThread.t = some t)
    (ht : s.threads[t]? = some thread)
    (hdisposed : thread.disposed = true) :
    s.scheduleTask.misuses = s.misuses ++ [(.schedule, t)] := by
  unfold scheduleTask ptaskSchedule
  simp [hinit, hptr, htimes, onThread_disposed .schedule _ ht hdisposed]

/-- The thread of a polled device is disposed, and nothing else is done to a disposed thread. -/
theorem removeWatchCore_live
    {t : Nat} {thread : WorkerThread}
    (hinit : s.watchThread.initialised = true)
    (hptr : s.watchThread.t = some t)
    (ht : s.threads[t]? = some thread)
    (hlive : thread.disposed = false) :
    s.removeWatchCore =
      { s with
        watch := none
        threads := s.threads.set t { thread with tasks := [], disposed := true } } := by
  have hlen : t < s.threads.length := (List.getElem?_eq_some_iff.mp ht).1
  have hcancel : s.cancelTask =
      { s with
        threads := s.threads.set t { thread with tasks := thread.tasks.erase s.watchThread.id } } := by
    unfold cancelTask ptaskCancel
    simp only [hinit, hptr]
    exact onThread_live .cancel _ ht hlive
  have hset : s.cancelTask.threads[t]? =
      some { thread with tasks := thread.tasks.erase s.watchThread.id } := by
    rw [hcancel, List.getElem?_set_self hlen]
  have hdestroy : s.cancelTask.destroyTask = s.cancelTask.ptaskDispose t := by
    unfold destroyTask
    rw [hcancel]
    simp only [hinit, hptr]
  rw [removeWatchCore, hdestroy, ptaskDispose, onThread_live .dispose _ hset hlive, hcancel]
  simp

theorem Kept.register
    {param : Text} {replies : Replies}
    (h : s.Kept)
    (hfirst : s.firstTime (.register param replies) = true)
    (hsuccess : (s.registerListener param replies).1 = .success) :
    (s.registerListener param replies).2.Kept := by
  obtain ⟨l, ⟨hne, heq⟩ | ⟨hnil, watch, heq⟩⟩ := registerListener_cases hsuccess
  · rw [heq]
    exact
      { polled := ⟨fun _ => h.polled.scheduled hne, h.polled.clean⟩
        used := fun _ => h.used hne
        gone := fun hnil => by simp at hnil
        times := h.times }
  · have hunused : s.watchThread.initialised = false := by simpa [firstTime, hnil] using hfirst
    -- a new thread
    have hsetup : (s.setupTask true 0 executeIndefinite).2 =
        { s with
          watchThread :=
            { initialised := true, t := some s.threads.length, id := 0, period := 0,
              times := executeIndefinite }
          threads := s.threads ++ [{ idGen := 1, tasks := [], disposed := false }] } := by
      simp [setupTask, hunused]
    rw [heq, hsetup, @scheduleTask_live _ _ ⟨1, [], false⟩ rfl rfl rfl (by simp) rfl]
    refine
      { polled := ⟨fun _ => ⟨s.threads.length, ⟨2, [1], false⟩, rfl, by simp, rfl, by simp⟩,
          h.polled.clean⟩
        used := fun _ => rfl
        gone := fun hl => by simp at hl
        times := fun _ => rfl }

theorem Kept.unregister
    {param : Text} {remove delete : Bool}
    (h : s.Kept)
    (hsuccess : (s.unregisterListener param remove delete).1 = .success) :
    (s.unregisterListener param remove delete).2.Kept := by
  obtain ⟨hne, ⟨ls, hls, heq⟩ | heq⟩ := unregisterListener_cases hsuccess
  · rw [heq]
    exact
      { polled := ⟨fun _ => h.polled.scheduled hne, h.polled.clean⟩
        used := fun _ => h.used hne
        gone := fun hnil => absurd hnil hls
        times := h.times }
  · obtain ⟨t, thread, hptr, ht, hlive, -⟩ := h.polled.scheduled hne
    have hlen : t < s.threads.length := (List.getElem?_eq_some_iff.mp ht).1
    rw [heq, removeWatchCore_live (s := { s with listeners := [] }) (h.used hne) hptr ht hlive]
    exact
      { polled := ⟨fun hl => absurd rfl hl, h.polled.clean⟩
        used := fun hl => absurd rfl hl
        gone := fun _ _ => ⟨t, _, hptr, List.getElem?_set_self hlen, rfl⟩
        times := h.times }

theorem Kept.step
    {c : ListenerCall}
    (h : s.Kept)
    (hfirst : s.firstTime c = true)
    (hstep : s.step c = some u) :
    u.Kept := by
  unfold Host.step at hstep
  split at hstep
  · rename_i hsuccess
    cases hstep
    cases c with
    | register param replies => exact h.register hfirst hsuccess
    | unregister param remove delete => exact h.unregister hsuccess
  · cases hstep

/-- A listener that comes to a device again. -/
theorem Kept.misused_again
    {c : ListenerCall}
    (h : s.Kept)
    (hagain : s.firstTime c = false)
    (hstep : s.step c = some u) :
    u.misuses ≠ [] := by
  unfold Host.step at hstep
  split at hstep
  · rename_i hsuccess
    cases hstep
    cases c with
    | unregister param remove delete => cases hagain
    | register param replies =>
        have hboth : s.listeners = [] ∧ s.watchThread.initialised = true := by
          simpa [firstTime] using hagain
        obtain ⟨l, ⟨hne, -⟩ | ⟨-, watch, heq⟩⟩ := registerListener_cases hsuccess
        · exact absurd hboth.1 hne
        · obtain ⟨t, thread, hptr, ht, hdisposed⟩ := h.gone hboth.1 hboth.2
          have hsetup : (s.setupTask true 0 executeIndefinite).2 = s := by
            simp [setupTask, hboth.2]
          simp only [call]
          rw [heq, hsetup, scheduleTask_disposed (s := { s with watch := watch, listeners := [l] })
            hboth.2 (h.times hboth.2) hptr ht hdisposed]
          simp
  · cases hstep

/-- As long as listeners come to a device without listeners only for the first time, the device is
polled while it has some and no disposed thread is used, and the first listener that comes again
breaks this. -/
theorem poll_task_scheduled
    (hs : Runs.Reaches step (fun s c => s.firstTime c = true) (init ip href threads) s) :
    s.Polled ∧ ∀ (c : ListenerCall) (u : Host), s.step c = some u →
      (u.Polled ↔ s.firstTime c = true) := by
  have hkept : s.Kept :=
    hs.invariant (fun _ _ _ h hfirst hstep => h.step hfirst hstep) kept_init
  refine ⟨hkept.polled, ?_⟩
  intro c u hstep
  constructor
  · intro hpolled
    by_contra hagain
    exact hkept.misused_again (by simpa using hagain) hstep hpolled.clean
  · intro hfirst
    exact (hkept.step hfirst hstep).polled

/-- Everything succeeds. -/
def goodReplies : Replies :=
  { curl := true, fork := true, make := some "/obix/watchService/watch1".toList, add := true }

/-- Two listeners come and one of them goes. -/
def twoListeners : List ListenerCall :=
  [.register "kWh".toList goodReplies, .register "limit".toList goodReplies,
    .unregister "kWh".toList true true]

/-- The only listener goes and comes back. -/
def comesBack : List ListenerCall :=
  [.register "kWh".toList goodReplies, .unregister "kWh".toList true true,
    .register "kWh".toList goodReplies]

/-- The device of the examples. -/
def meter : Host := init "10.0.0.1".toList "/obix/deviceRoot/M1".toList []

theorem poll_task_scheduled_two :
    ∃ s, Runs.exec step meter twoListeners = some s ∧ s.listeners.length = 1 ∧ s.Polled := by
  refine ⟨_, rfl, by decide +kernel, ?_⟩
  have hs : Runs.Reaches step (fun s c => s.firstTime c = true) meter _ :=
    Runs.Reaches.refl.exec twoListeners (by decide +kernel) rfl
  exact (poll_task_scheduled hs).1

/-- The poll task is scheduled on a disposed thread. -/
theorem listener_comes_back_unpolled :
    ∃ s, Runs.exec step meter comesBack = some s ∧ s.listeners.length = 1 ∧
      s.misuses = [(.schedule, 0)] ∧ ¬ s.Scheduled := by
  refine ⟨_, rfl, by decide +kernel, by decide +kernel, ?_⟩
  rintro ⟨t, thread, hptr, ht, hlive, -⟩
  cases hptr
  cases ht
  cases hlive

end Host

end Runs

end Client
end Obix
