import Obix.Lib.Runs
import Obix.Lib.StableQueue
import Obix.Utils.Ptask
import Obix.Utils.Reltime

/-!
# The backlog of poll tasks

`watch_create_poll_task`, `__watch_notify_tasks` and the poll threads of `watch.c`, as far as
they use `backlog`.  A poll task gets its expiry when it is made, and is put into the queue of
all tasks later on, under `backlog->mutex`; in between it can already be notified and taken by a
poll thread.  What is done under the mutex is one step.

The backlog stays sorted by the expiries, and tasks of the same expiry are taken in the order in
which they were put there (`pollTasks_in_order`).  The expiry itself is that of the delay only
for whole seconds (`pollExpiry_exact_iff`).  The memory of a freed task is not used for another
one.
-/

namespace Obix

open CString

section Expiry

/-- `timespec_compare`. -/
def timespecCompare (m₁ m₂ : Timespec) : Int :=
  if m₁.sec < m₂.sec ∨ (m₁.sec = m₂.sec ∧ m₁.nsec < m₂.nsec) then -1
  else if m₁.sec > m₂.sec ∨ (m₁.sec = m₂.sec ∧ m₁.nsec > m₂.nsec) then 1
  else 0

/-- `task->expiry` in `watch_create_poll_task`; `expiry` is a delay in milliseconds. -/
def pollExpiry
    (now : Timespec)
    (expiry : Int) :
    Timespec :=
  { sec := asLong (now.sec + expiry.tdiv 1000)
    nsec := asLong (now.nsec + asLong (expiry.tmod 1000 * 1000)) }

/-- Seconds and nanoseconds of a time are in their ranges. -/
structure Timespec.Normalised (t : Timespec) : Prop where
  nsec_nonneg : 0 ≤ t.nsec
  nsec_lt : t.nsec < 1000000000

/-- The expiry as numbers: the rest of the delay is scaled to microseconds. -/
theorem pollExpiry_eq
    {now : Timespec} {delay : Int}
    (hnow : now.Normalised)
    (hdelay : 0 ≤ delay) :
    pollExpiry now delay =
      { sec := asLong (now.sec + delay / 1000), nsec := now.nsec + delay % 1000 * 1000 } := by
  have hmod : 0 ≤ delay % 1000 ∧ delay % 1000 < 1000 := by omega
  have hnsec := hnow.nsec_nonneg
  have hlt := hnow.nsec_lt
  unfold pollExpiry
  rw [Int.tdiv_eq_ediv_of_nonneg hdelay, Int.tmod_eq_emod_of_nonneg hdelay,
    asLong_eq (n := delay % 1000 * 1000) (by omega) (by omega),
    asLong_eq (n := now.nsec + delay % 1000 * 1000) (by omega) (by omega)]

/-- A sum that leaves the range of `long` upwards comes back below it. -/
theorem asLong_overflow
    {n : Int}
    (hlo : longMax < n)
    (hhi : n ≤ 2 * longMax) :
    asLong n = n - 2 ^ 64 := by
  have hmax : longMax = 2 ^ 63 - 1 := rfl
  rw [asLong, Int.bmod_def]
  simp only [Nat.cast_pow, Nat.cast_ofNat]
  rw [Int.emod_eq_of_lt (by omega) (by omega), if_neg (by omega)]

/-- The expiry is that of the delay, which is counted in microseconds below a second, as long
as the delay is whole seconds and the sum is in the range of `time_t`. -/
theorem pollExpiry_exact_iff
    (now : Timespec)
    (delay : Int)
    (hsec : longMin ≤ now.sec ∧ now.sec ≤ longMax)
    (hnow : now.Normalised)
    (hdelay : 0 ≤ delay ∧ delay ≤ longMax) :
    ((pollExpiry now delay).nanos = now.nanos + delay * 1000000 ∧
        (pollExpiry now delay).Normalised) ↔
      delay % 1000 = 0 ∧ now.sec + delay / 1000 ≤ longMax := by
  obtain ⟨hlo, hhi⟩ := hsec
  obtain ⟨hpos, hmax⟩ := hdelay
  have hnsec := hnow.nsec_nonneg
  have hlt := hnow.nsec_lt
  have hrange : longMin = -2 ^ 63 ∧ longMax = 2 ^ 63 - 1 := ⟨rfl, rfl⟩
  rw [pollExpiry_eq hnow hpos]
  by_cases hover : now.sec + delay / 1000 ≤ longMax
  · rw [asLong_eq (by omega) (by omega)]
    constructor
    · rintro ⟨hexact, -⟩
      simp only [Timespec.nanos] at hexact
      omega
    · rintro ⟨hwhole, -⟩
      refine ⟨?_, ⟨?_, ?_⟩⟩
      · simp only [Timespec.nanos]
        omega
      · simp only [hwhole]
        omega
      · simp only [hwhole]
        omega
  · rw [asLong_overflow (by omega) (by omega)]
    constructor
    · rintro ⟨hexact, -⟩
      simp only [Timespec.nanos] at hexact
      omega
    · rintro ⟨-, hfits⟩
      exact absurd hfits hover

/-- A delay of a minute and an hour, late in a second. -/
theorem pollExpiry_exact_iff_minute :
    (longMin ≤ (1700000000 : Int) ∧ (1700000000 : Int) ≤ longMax) ∧
      ((pollExpiry ⟨1700000000, 999999999⟩ 60000).nanos =
          Timespec.nanos ⟨1700000000, 999999999⟩ + 60000 * 1000000 ∧
          (pollExpiry ⟨1700000000, 999999999⟩ 60000).Normalised ↔
        (60000 : Int) % 1000 = 0 ∧ (1700000000 : Int) + 60000 / 1000 ≤ longMax) :=
  ⟨by decide, pollExpiry_exact_iff ⟨1700000000, 999999999⟩ 60000 (by decide)
    ⟨by decide, by decide⟩ (by decide)⟩

/-- A hundred milliseconds become a tenth of a millisecond. -/
theorem pollExpiry_early :
    Timespec.Normalised ⟨1700000000, 0⟩ ∧
      ¬ ((pollExpiry ⟨1700000000, 0⟩ 100).nanos =
          Timespec.nanos ⟨1700000000, 0⟩ + 100 * 1000000 ∧
        (pollExpiry ⟨1700000000, 0⟩ 100).Normalised) :=
  ⟨⟨by decide, by decide⟩, fun h => absurd h.1 (by decide)⟩

end Expiry

/-- `poll_backlog_t` with its poll tasks, which are numbered.  `expiry` and `taken` belong to the
tasks: the time at which a task expires, and whether its `list_active` has been poisoned by
`list_del`.  `queued` is kept for the statements only: the tasks in the order in which they have
been put into `list_all`. -/
structure PollBacklog where
  next : Nat
  expiry : Nat → Timespec
  taken : List Nat
  listAll : List Nat
  listActive : List Nat
  queued : List Nat

namespace PollBacklog

section Steps

/-- A backlog without tasks. -/
def init : PollBacklog :=
  { next := 0, expiry := fun _ => ⟨0, 0⟩, taken := [], listAll := [], listActive := [],
    queued := [] }

variable (bl : PollBacklog)

/-- The first part of `watch_create_poll_task`: the task is in `watch->tasks`. -/
def make
    (now : Timespec)
    (expiry : Int) :
    PollBacklog :=
  { bl with
    next := bl.next + 1
    expiry := Function.update bl.expiry bl.next (pollExpiry now expiry) }

/-- Whether the loop of `watch_create_poll_task` goes on behind `pos`. -/
def notLater (task pos : Nat) : Bool :=
  timespecCompare (bl.expiry pos) (bl.expiry task) ≠ 1

/-- `list_all` with a new task. -/
def withTask (task : Nat) : List Nat :=
  if bl.listAll = [] then [task]
  else
    match bl.listAll.dropWhile (bl.notLater task) with
    -- `pos` has come back to the head of the list
    | [] => bl.listAll ++ [task]
    | pos :: rest => bl.listAll.takeWhile (bl.notLater task) ++ task :: pos :: rest

/-- The second part of `watch_create_poll_task`. -/
def queue (task : Nat) : PollBacklog :=
  { bl with listAll := bl.withTask task, queued := bl.queued ++ [task] }

/-- One round of the loop in `__watch_notify_tasks`. -/
def activate (task : Nat) : PollBacklog :=
  if task ∈ bl.listActive ∨ task ∈ bl.taken then bl
  else { bl with listActive := bl.listActive ++ [task] }

/-- `get_first_task`. -/
def getFirstTask : Option Nat := bl.listAll.head?

/-- `get_first_task_active`. -/
def getFirstTaskActive : Option Nat := bl.listActive.head?

/-- `get_expired_task`; there is no time when `clock_gettime` fails. -/
def getExpiredTask : Option Timespec → Option Nat
  | none => none
  | some now =>
      bl.getFirstTask.bind fun task =>
        if timespecCompare (bl.expiry task) now ≤ 0 then some task else none

/-- `poll_thread_task` dequeues a task. -/
def dequeue (task : Nat) : PollBacklog :=
  { bl with taken := task :: bl.taken, listAll := bl.listAll.erase task,
            listActive := bl.listActive.erase task }

/-- What is done to the backlog at a time. -/
inductive Event
  | make (now : Timespec) (expiry : Int)
  | queue (task : Nat)
  /-- `__watch_notify_tasks` for a watch with these tasks. -/
  | notify (tasks : List Nat)
  /-- A poll thread looks for a task. -/
  | take (now : Option Timespec)

/-- One step; a task is queued once by the call that has made it. -/
def step : Event → Option PollBacklog
  | .make now expiry => some (bl.make now expiry)
  | .queue task =>
      if task < bl.next ∧ task ∉ bl.queued then some (bl.queue task) else none
  | .notify tasks =>
      if ∀ task ∈ tasks, task < bl.next then some (tasks.foldl activate bl) else none
  | .take now =>
      (bl.getFirstTaskActive.orElse fun _ => bl.getExpiredTask now).map bl.dequeue

end Steps

section Order

variable {bl : PollBacklog} {m₁ m₂ m₃ : Timespec}

theorem timespecCompare_ne_one_iff :
    timespecCompare m₁ m₂ ≠ 1 ↔ m₁.sec < m₂.sec ∨ (m₁.sec = m₂.sec ∧ m₁.nsec ≤ m₂.nsec) := by
  unfold timespecCompare
  split_ifs <;> simp <;> omega

theorem timespecCompare_pos_iff :
    ¬ timespecCompare m₁ m₂ ≤ 0 ↔ timespecCompare m₁ m₂ = 1 := by
  unfold timespecCompare
  split_ifs <;> simp

theorem timespecCompare_swap (m₁ m₂ : Timespec) :
    timespecCompare m₁ m₂ = -timespecCompare m₂ m₁ := by
  unfold timespecCompare
  split_ifs <;> omega

/-- A task expires later than another one. -/
def Later
    (expiry : Nat → Timespec)
    (p q : Nat) :
    Prop :=
  timespecCompare (expiry p) (expiry q) = 1

instance (expiry : Nat → Timespec) : DecidableRel (Later expiry) :=
  fun p q => inferInstanceAs (Decidable (timespecCompare (expiry p) (expiry q) = 1))

theorem timed_later (expiry : Nat → Timespec) : StableQueue.Timed (Later expiry) where
  trans := by
    intro p q r hpq hqr
    have hpq := timespecCompare_ne_one_iff.mp hpq
    have hqr := timespecCompare_ne_one_iff.mp hqr
    exact timespecCompare_ne_one_iff.mpr (by omega)
  asymm := by
    intro p q hpq
    refine timespecCompare_ne_one_iff.mpr ?_
    by_contra hqp
    exact timespecCompare_ne_one_iff.mpr (by omega) hpq

/-- The insertion of the code is that before the first later task. -/
theorem withTask_eq (task : Nat) :
    bl.withTask task = StableQueue.insert (Later bl.expiry) task bl.listAll := by
  have hloop : bl.notLater task = fun p => decide ¬ Later bl.expiry p task := by
    funext p
    unfold notLater Later
    by_cases hp : timespecCompare (bl.expiry p) (bl.expiry task) = 1 <;> simp [hp]
  have hsplit := List.takeWhile_append_dropWhile (p := bl.notLater task) (l := bl.listAll)
  unfold withTask StableQueue.insert
  rw [← hloop]
  split
  · rename_i hempty
    simp [hempty]
  · split
    · rename_i hdrop
      rw [hdrop, List.append_nil] at hsplit
      rw [hdrop, hsplit]
    · rename_i pos rest hdrop
      rw [hdrop]

/-- The queue of all tasks is sorted, and tasks of the same expiry are in the order in which
they have been put there. -/
structure InOrder (bl : PollBacklog) : Prop where
  sorted : StableQueue.Sorted (Later bl.expiry) bl.listAll
  fifo : StableQueue.Fifo (Later bl.expiry) bl.queued bl.listAll
  queued : ∀ p ∈ bl.listAll, p ∈ bl.queued
  made : ∀ p ∈ bl.queued, p < bl.next
  nodup : bl.queued.Nodup

theorem inOrder_init : InOrder init := by
  refine ⟨List.Pairwise.nil, ?_, ?_, ?_, List.nodup_nil⟩
  · intro p q _ _ hsub
    exact hsub
  · intro p hp
    exact hp
  · intro p hp
    cases hp

/-- A new task does not change the expiries of the others. -/
theorem InOrder.make
    (h : InOrder bl)
    (now : Timespec)
    (expiry : Int) :
    InOrder (bl.make now expiry) := by
  have hsame : ∀ p ∈ bl.listAll, (bl.make now expiry).expiry p = bl.expiry p := by
    intro p hp
    have := h.made p (h.queued p hp)
    exact Function.update_of_ne (by omega) _ _
  refine ⟨?_, ?_, h.queued, ?_, h.nodup⟩
  · refine List.Pairwise.imp_of_mem ?_ h.sorted
    intro p q hp hq hpq
    unfold Later at hpq ⊢
    rwa [hsame p hp, hsame q hq]
  · intro p q hpq hqp hsub
    have hp := hsame p (hsub.subset (by simp))
    have hq := hsame q (hsub.subset (by simp))
    unfold Later at hpq hqp
    rw [hp, hq] at hpq hqp
    exact h.fifo p q hpq hqp hsub
  · intro p hp
    exact Nat.lt_succ_of_lt (h.made p hp)

theorem InOrder.queue
    {task : Nat}
    (h : InOrder bl)
    (hmade : task < bl.next)
    (hnew : task ∉ bl.queued) :
    InOrder (bl.queue task) := by
  refine ⟨?_, ?_, ?_, ?_, ?_⟩
  · change StableQueue.Sorted (Later bl.expiry) (bl.withTask task)
    rw [withTask_eq]
    exact h.sorted.insert (timed_later bl.expiry)
  · change StableQueue.Fifo (Later bl.expiry) (bl.queued ++ [task]) (bl.withTask task)
    rw [withTask_eq]
    exact h.fifo.insert (timed_later bl.expiry) h.sorted h.queued
  · intro p hp
    change p ∈ bl.withTask task at hp
    rw [withTask_eq, StableQueue.mem_insert] at hp
    rcases hp with rfl | hp
    · exact List.mem_append_right _ (List.mem_singleton_self _)
    · exact List.mem_append_left _ (h.queued p hp)
  · intro p hp
    rcases List.mem_append.mp hp with hp | hp
    · exact h.made p hp
    · exact List.mem_singleton.mp hp ▸ hmade
  · exact List.nodup_append_comm.mp (List.nodup_cons.mpr ⟨hnew, h.nodup⟩)

theorem InOrder.activate
    (h : InOrder bl)
    (task : Nat) :
    InOrder (bl.activate task) := by
  unfold PollBacklog.activate
  split
  · exact h
  · exact ⟨h.sorted, h.fifo, h.queued, h.made, h.nodup⟩

theorem InOrder.dequeue
    (h : InOrder bl)
    (task : Nat) :
    InOrder (bl.dequeue task) :=
  ⟨h.sorted.sublist List.erase_sublist, h.fifo.sublist List.erase_sublist,
    fun p hp => h.queued p (List.mem_of_mem_erase hp), h.made, h.nodup⟩

/-- What one step preserves. -/
theorem InOrder.step
    {bl' : PollBacklog} {e : Event}
    (h : InOrder bl)
    (hstep : bl.step e = some bl') :
    InOrder bl' := by
  cases e with
  | make now expiry =>
      obtain rfl := Option.some.inj hstep
      exact h.make now expiry
  | queue task =>
      rw [PollBacklog.step] at hstep
      split at hstep
      · rename_i hok
        obtain rfl := Option.some.inj hstep
        exact h.queue hok.1 hok.2
      · cases hstep
  | notify tasks =>
      rw [PollBacklog.step] at hstep
      split at hstep
      · obtain rfl := Option.some.inj hstep
        clear hstep
        rename_i hmade
        clear hmade
        induction tasks generalizing bl with
        | nil => exact h
        | cons task tasks ih => exact ih (h.activate task)
      · cases hstep
  | take now =>
      obtain ⟨task, -, rfl⟩ := Option.map_eq_some_iff.mp hstep
      exact h.dequeue task

/-- No task has expired when none is found. -/
theorem InOrder.getExpiredTask_none
    {now : Timespec}
    (h : InOrder bl)
    (hnone : bl.getExpiredTask (some now) = none) :
    ∀ p ∈ bl.listAll, ¬ timespecCompare (bl.expiry p) now ≤ 0 := by
  have hdue : ∀ {p q}, ¬ Later bl.expiry p q → timespecCompare (bl.expiry q) now ≤ 0 →
      timespecCompare (bl.expiry p) now ≤ 0 := by
    intro p q hpq hq
    have hpq := timespecCompare_ne_one_iff.mp hpq
    have hq := timespecCompare_ne_one_iff.mp fun hone => timespecCompare_pos_iff.mpr hone hq
    by_contra hp
    exact timespecCompare_ne_one_iff.mpr (by omega) (timespecCompare_pos_iff.mp hp)
  intro p hp
  have hsorted := h.sorted
  cases hall : bl.listAll with
  | nil =>
      rw [hall] at hp
      cases hp
  | cons task rest =>
      have hfirst : ¬ timespecCompare (bl.expiry task) now ≤ 0 := by
        simpa [getExpiredTask, getFirstTask, hall] using hnone
      rw [hall] at hsorted hp
      exact @StableQueue.Sorted.none_due _ _ _ _
        (fun q => timespecCompare (bl.expiry q) now ≤ 0) hdue hsorted hfirst p hp

/-- The backlog is sorted by expiry, tasks of the same expiry are in the order in which they
have been put there, and no task of it has expired when `get_expired_task` finds none. -/
theorem pollTasks_in_order
    (hbl : Runs.Reaches step (fun _ _ => True) init bl) :
    (bl.listAll.Pairwise fun p q => timespecCompare (bl.expiry p) (bl.expiry q) ≠ 1) ∧
      (bl.queued.Nodup ∧ ∀ p q, timespecCompare (bl.expiry p) (bl.expiry q) = 0 →
        [p, q].Sublist bl.listAll → [p, q].Sublist bl.queued) ∧
      ∀ now, bl.getExpiredTask (some now) = none →
        ∀ p ∈ bl.listAll, ¬ timespecCompare (bl.expiry p) now ≤ 0 := by
  have h : InOrder bl :=
    hbl.invariant (fun _ _ _ h _ hstep => InOrder.step h hstep) inOrder_init
  refine ⟨h.sorted, ⟨h.nodup, ?_⟩, fun now => h.getExpiredTask_none⟩
  intro p q hsame hsub
  refine h.fifo p q ?_ ?_ hsub
  · unfold Later
    omega
  · unfold Later
    rw [timespecCompare_swap, hsame]
    decide

/-- Four tasks, of which two have the same expiry and one is notified before it is queued. -/
def fourTasks : List Event :=
  [.make ⟨100, 0⟩ 5000, .make ⟨101, 0⟩ 4000, .make ⟨100, 0⟩ 3000, .queue 1, .queue 0,
    .notify [2], .queue 2, .make ⟨102, 0⟩ 9000, .queue 3, .take none, .take (some ⟨106, 0⟩)]

theorem pollTasks_in_order_four :
    ∃ bl, Runs.exec step init fourTasks = some bl ∧
      bl.listAll = [0, 3] ∧
      (bl.listAll.Pairwise fun p q => timespecCompare (bl.expiry p) (bl.expiry q) ≠ 1) ∧
      (bl.queued.Nodup ∧ ∀ p q, timespecCompare (bl.expiry p) (bl.expiry q) = 0 →
        [p, q].Sublist bl.listAll → [p, q].Sublist bl.queued) ∧
      ∀ now, bl.getExpiredTask (some now) = none →
        ∀ p ∈ bl.listAll, ¬ timespecCompare (bl.expiry p) now ≤ 0 :=
  ⟨_, rfl, rfl, pollTasks_in_order (Runs.Reaches.refl.free fourTasks rfl)⟩

end Order

end PollBacklog

end Obix
