import Obix.Utils.ListHead
import Obix.Watch.Backlog

/-!
# The backlog in memory

The queues of the backlog as they are: `struct list_head` in the backlog and in each poll task.
`PollBacklog` says whether a task is in a queue or has been taken; here that is read off the
pointers, and to take a task a second time is a page fault.

The pointers show the queues of `PollBacklog` in every run, and the fault comes exactly when a
task is taken that has been taken before (`pollMemory_run`).  That needs a task that is notified
before it is queued (`pollMemory_orderly`).
-/

namespace Obix

open Rings Kernel

/-- The `struct list_head` of the backlog and of the poll tasks. -/
inductive Link
  /-- `&backlog->list_all`. -/
  | all
  /-- `&backlog->list_active`. -/
  | active
  /-- `&task->list_all`. -/
  | taskAll (task : Nat)
  /-- `&task->list_active`. -/
  | taskActive (task : Nat)
  deriving DecidableEq

/-- The backlog and its poll tasks.  `queued` is that of `PollBacklog`. -/
structure PollMemory where
  next : Nat
  expiry : Nat → Timespec
  queued : List Nat
  links : ListHeads Link

namespace PollMemory

section Steps

/-- `list_entry` for the queue of all tasks. -/
def entryAll : Ptr Link → Option Nat
  | .node (.taskAll task) => some task
  | _ => none

/-- `list_entry` for the queue of active tasks. -/
def entryActive : Ptr Link → Option Nat
  | .node (.taskActive task) => some task
  | _ => none

/-- `poll_backlog_init`, as far as it is about the queues. -/
def pollBacklogInit (links : ListHeads Link) : Option PollMemory := do
  let links ← initListHead (.node .all) links
  let links ← initListHead (.node .active) links
  some { next := 0, expiry := fun _ => ⟨0, 0⟩, queued := [], links := links }

variable (m : PollMemory)

/-- The first part of `watch_create_poll_task`. -/
def make
    (now : Timespec)
    (expiry : Int) :
    Option PollMemory := do
  let links ← initListHead (.node (.taskAll m.next)) m.links
  let links ← initListHead (.node (.taskActive m.next)) links
  some { m with
    next := m.next + 1
    expiry := Function.update m.expiry m.next (pollExpiry now expiry)
    links := links }

/-- `pos` expires later than the task. -/
def later (task : Nat) (pos : Ptr Link) : Bool :=
  (entryAll pos).any fun p => timespecCompare (m.expiry p) (m.expiry task) = 1

/-- The second part of `watch_create_poll_task`. -/
def queue (task : Nat) : Option PollMemory := do
  let empty ← listEmpty (.node .all) m.links
  let links ←
    if empty then listAdd (.node (.taskAll task)) (.node .all) m.links
    else do
      let pos ← getNext (.node .all) m.links
      listInsert (m.later task) (.node (.taskAll task)) (.node .all) m.links
        (m.queued.length + 1) pos
  some { m with queued := m.queued ++ [task], links := links }

/-- One round of the loop in `__watch_notify_tasks`. -/
def activate (task : Nat) : Option PollMemory := do
  let prev ← getPrev (.node (.taskActive task)) m.links
  if prev = .node (.taskActive task) then do
    let links ← listAddTail (.node (.taskActive task)) (.node .active) m.links
    some { m with links := links }
  else some m

/-- `get_first_task`. -/
def getFirstTask : Option (Option Nat) := do
  let empty ← listEmpty (.node .all) m.links
  if empty then some none
  else (getNext (.node .all) m.links).map entryAll

/-- `get_first_task_active`. -/
def getFirstTaskActive : Option (Option Nat) := do
  let empty ← listEmpty (.node .active) m.links
  if empty then some none
  else (getNext (.node .active) m.links).map entryActive

/-- `get_expired_task`. -/
def getExpiredTask : Option Timespec → Option (Option Nat)
  | none => some none
  | some now => do
      let first ← m.getFirstTask
      some (first.bind fun task =>
        if timespecCompare (m.expiry task) now ≤ 0 then some task else none)

/-- `poll_thread_task` dequeues a task. -/
def dequeue (task : Nat) : Option PollMemory := do
  let links ← listDel (.node (.taskActive task)) m.links
  let links ← listDel (.node (.taskAll task)) links
  some { m with links := links }

/-- The task that a poll thread finds. -/
def find (now : Option Timespec) : Option (Option Nat) := do
  let first ← m.getFirstTaskActive
  match first with
  | some task => some (some task)
  | none => m.getExpiredTask now

/-- What is done to the memory at a time; a poll thread that finds no task goes on waiting. -/
def step : PollBacklog.Event → Option PollMemory
  | .make now expiry => m.make now expiry
  | .queue task => m.queue task
  | .notify tasks => tasks.foldlM activate m
  | .take now => do
      let found ← m.find now
      match found with
      | some task => m.dequeue task
      | none => some m

/-- The tasks that `poll_backlog_dispose` finds left. -/
def pollBacklogDispose (fuel : Nat) : Option (List (Option Nat)) := do
  let pos ← getNext (.node .all) m.links
  let n ← getNext pos m.links
  let done ← listForEachSafe listDel (.node .all) fuel pos n m.links
  some (done.1.map entryAll)

end Steps

section Shown

/-- All rings of the backlog: its two queues, and the nodes that are in none of them. -/
def rings (listAll listActive : List Nat) (alone : List Link) : List (List (Ptr Link)) :=
  (.node .all :: listAll.map fun task => .node (.taskAll task)) ::
    (.node .active :: listActive.map fun task => .node (.taskActive task)) ::
      alone.map fun link => [.node link]

/-- The node of a task that has not been taken is in no queue. -/
inductive Alone (bl : PollBacklog) : Link → Prop
  | all
      {task : Nat}
      (hmade : task < bl.next)
      (htaken : task ∉ bl.taken)
      (hqueued : task ∉ bl.queued) :
      Alone bl (.taskAll task)
  | active
      {task : Nat}
      (hmade : task < bl.next)
      (htaken : task ∉ bl.taken)
      (hactive : task ∉ bl.listActive) :
      Alone bl (.taskActive task)

/-- What holds of the backlog besides its order. -/
structure Kept (bl : PollBacklog) : Prop where
  inOrder : PollBacklog.InOrder bl
  activeMade : ∀ task ∈ bl.listActive, task < bl.next
  activeLeft : ∀ task ∈ bl.listActive, task ∉ bl.taken
  takenMade : ∀ task ∈ bl.taken, task < bl.next
  waits : ∀ task ∈ bl.queued, task ∉ bl.taken → task ∈ bl.listAll

/-- The memory shows the backlog. -/
structure Shows (m : PollMemory) (bl : PollBacklog) : Prop where
  kept : Kept bl
  next : m.next = bl.next
  expiry : m.expiry = bl.expiry
  queued : m.queued = bl.queued
  lists : ∃ alone, Lists m.links (rings bl.listAll bl.listActive alone) ∧
    ∀ link, link ∈ alone ↔ Alone bl link
  poisoned : ∀ task ∈ bl.taken, m.links.prev (.node (.taskActive task)) = .poison2

end Shown

section Abstract

variable {bl : PollBacklog}

theorem kept_init : Kept PollBacklog.init := by
  refine ⟨PollBacklog.inOrder_init, ?_, ?_, ?_, ?_⟩ <;> intro task htask <;> cases htask

theorem Kept.make
    (h : Kept bl)
    (now : Timespec)
    (expiry : Int) :
    Kept (bl.make now expiry) :=
  ⟨h.inOrder.make now expiry, fun task ht => Nat.lt_succ_of_lt (h.activeMade task ht),
    h.activeLeft, fun task ht => Nat.lt_succ_of_lt (h.takenMade task ht), h.waits⟩

theorem mem_withTask
    {task p : Nat} :
    p ∈ bl.withTask task ↔ p = task ∨ p ∈ bl.listAll := by
  rw [PollBacklog.withTask_eq, StableQueue.mem_insert]

/-- The loop as one expression. -/
theorem withTask_split
    (task : Nat) :
    bl.withTask task =
      bl.listAll.takeWhile (bl.notLater task) ++
        task :: bl.listAll.dropWhile (bl.notLater task) := by
  have hsplit := List.takeWhile_append_dropWhile (p := bl.notLater task) (l := bl.listAll)
  unfold PollBacklog.withTask
  split
  · rename_i hempty
    simp [hempty]
  · split
    · rename_i hdrop
      rw [hdrop, List.append_nil] at hsplit
      rw [hdrop, hsplit]
    · rename_i pos rest hdrop
      rw [hdrop]

theorem Kept.queue
    {task : Nat}
    (h : Kept bl)
    (hmade : task < bl.next)
    (hnew : task ∉ bl.queued) :
    Kept (bl.queue task) := by
  refine ⟨h.inOrder.queue hmade hnew, h.activeMade, h.activeLeft, h.takenMade, ?_⟩
  intro p hp hleft
  rcases List.mem_append.mp hp with hp | hp
  · exact mem_withTask.mpr (.inr (h.waits p hp hleft))
  · exact mem_withTask.mpr (.inl (List.mem_singleton.mp hp))

theorem Kept.activate
    {task : Nat}
    (h : Kept bl)
    (hmade : task < bl.next) :
    Kept (bl.activate task) := by
  have horder := h.inOrder.activate task
  unfold PollBacklog.activate at horder ⊢
  split
  · exact h
  · rename_i hnot
    rw [if_neg hnot] at horder
    rw [not_or] at hnot
    refine ⟨horder, ?_, ?_, h.takenMade, h.waits⟩
    · intro p hp
      rcases List.mem_append.mp hp with hp | hp
      · exact h.activeMade p hp
      · exact List.mem_singleton.mp hp ▸ hmade
    · intro p hp
      rcases List.mem_append.mp hp with hp | hp
      · exact h.activeLeft p hp
      · exact List.mem_singleton.mp hp ▸ hnot.2

theorem Kept.dequeue
    {task : Nat}
    (h : Kept bl)
    (hmade : task < bl.next)
    (hactive : bl.listActive.Nodup) :
    Kept (bl.dequeue task) := by
  refine ⟨h.inOrder.dequeue task, ?_, ?_, ?_, ?_⟩
  · exact fun p hp => h.activeMade p (List.mem_of_mem_erase hp)
  · intro p hp
    obtain ⟨hne, hp⟩ := (List.Nodup.mem_erase_iff hactive).mp hp
    exact List.not_mem_cons_of_ne_of_not_mem hne (h.activeLeft p hp)
  · intro p hp
    rcases List.mem_cons.mp hp with rfl | hp
    · exact hmade
    · exact h.takenMade p hp
  · intro p hp hleft
    obtain ⟨hne, hleft⟩ := List.ne_and_not_mem_of_not_mem_cons hleft
    exact (List.mem_erase_of_ne hne).mpr (h.waits p hp hleft)

end Abstract

section Rings

variable {k : ListHeads Link} {listAll listActive : List Nat} {alone : List Link} {link : Link}

theorem mem_rings
    {a : Ptr Link} :
    a ∈ (rings listAll listActive alone).flatten ↔
      a = .node .all ∨ (∃ task ∈ listAll, a = .node (.taskAll task)) ∨
        a = .node .active ∨ (∃ task ∈ listActive, a = .node (.taskActive task)) ∨
          ∃ link ∈ alone, a = .node link := by
  simp only [rings, List.flatten_cons, List.mem_append, List.mem_cons, List.mem_map,
    List.mem_flatten, or_assoc]
  constructor
  · rintro (h | ⟨task, ht, rfl⟩ | h | ⟨task, ht, rfl⟩ | ⟨c, ⟨link, hl, rfl⟩, ha⟩)
    · exact .inl h
    · exact .inr (.inl ⟨task, ht, rfl⟩)
    · exact .inr (.inr (.inl h))
    · exact .inr (.inr (.inr (.inl ⟨task, ht, rfl⟩)))
    · exact .inr (.inr (.inr (.inr ⟨link, hl, List.mem_singleton.mp ha⟩)))
  · rintro (h | ⟨task, ht, rfl⟩ | h | ⟨task, ht, rfl⟩ | ⟨link, hl, rfl⟩)
    · exact .inl h
    · exact .inr (.inl ⟨task, ht, rfl⟩)
    · exact .inr (.inr (.inl h))
    · exact .inr (.inr (.inr (.inl ⟨task, ht, rfl⟩)))
    · exact .inr (.inr (.inr (.inr ⟨_, ⟨link, hl, rfl⟩, by simp⟩)))

/-- A node that is alone comes first. -/
theorem rings_cons :
    (rings listAll listActive (link :: alone)).Perm
      ([.node link] :: rings listAll listActive alone) :=
  List.Perm.trans (List.Perm.cons _ (List.Perm.swap _ _ _)) (List.Perm.swap _ _ _)

/-- A node that is alone is picked. -/
theorem rings_pick
    (hk : Lists k (rings listAll listActive alone))
    (hlink : link ∈ alone) :
    Lists k ([.node link] :: rings listAll listActive (alone.erase link)) := by
  refine hk.perm (List.Perm.trans ?_ rings_cons)
  exact ((List.perm_cons_erase hlink).map _).cons _ |>.cons _

/-- The queue of active tasks comes first. -/
theorem rings_swap :
    (rings listAll listActive alone).Perm
      ((.node .active :: listActive.map fun task => .node (.taskActive task)) ::
        (.node .all :: listAll.map fun task => .node (.taskAll task)) ::
          alone.map fun link => [.node link]) :=
  List.Perm.swap _ _ _

/-- No node is in two places. -/
theorem rings_nodup
    (hk : Lists k (rings listAll listActive alone)) :
    listAll.Nodup ∧ listActive.Nodup ∧ alone.Nodup := by
  have hall := hk.toHolds.head.2.1
  have hactive := (hk.perm rings_swap).toHolds.head.2.1
  refine ⟨(List.nodup_cons.mp hall).2.of_map _, (List.nodup_cons.mp hactive).2.of_map _, ?_⟩
  have hrest := hk.forget.forget.toHolds.nodup
  have hflat : (alone.map fun link => [Ptr.node link]).flatten = alone.map Ptr.node := by
    clear hall hactive hrest hk
    induction alone with
    | nil => rfl
    | cons x alone ih => simp [ih]
  rw [hflat] at hrest
  exact hrest.of_map _

/-- A node is not alone, or no longer. -/
theorem rings_erase
    (hk : Lists k (rings listAll listActive alone))
    (link : Link) :
    Lists k (rings listAll listActive (alone.erase link)) ∧ link ∉ alone.erase link := by
  refine ⟨?_, (rings_nodup hk).2.2.not_mem_erase⟩
  by_cases hmem : link ∈ alone
  · exact (rings_pick hk hmem).forget
  · rwa [List.erase_of_not_mem hmem]

theorem not_mem_rings_taskAll
    {task : Nat}
    (hall : task ∉ listAll)
    (halone : .taskAll task ∉ alone) :
    .node (.taskAll task) ∉ (rings listAll listActive alone).flatten := by
  rw [mem_rings]
  simp [hall, halone]

theorem not_mem_rings_taskActive
    {task : Nat}
    (hactive : task ∉ listActive)
    (halone : .taskActive task ∉ alone) :
    .node (.taskActive task) ∉ (rings listAll listActive alone).flatten := by
  rw [mem_rings]
  simp [hactive, halone]

/-- The node of a task is taken out of the queue of all tasks, or from where it is alone. -/
theorem del_taskAll
    {task : Nat}
    (hk : Lists k (rings listAll listActive alone))
    (hin : task ∈ listAll ∨ .taskAll task ∈ alone) :
    ∃ k', listDel (.node (.taskAll task)) k = some k' ∧
      Lists k' (rings (listAll.erase task) listActive (alone.erase (.taskAll task))) ∧
      ∀ p, k'.prev (.node (.taskActive p)) = k.prev (.node (.taskActive p)) := by
  rcases hin with hin | hin
  · have hnot : .taskAll task ∉ alone := fun hmem =>
      hk.toHolds.head.2.2 (.node (.taskAll task)) (by simpa using hin) (by simpa using hmem)
    have hnodup := (rings_nodup hk).1
    obtain ⟨l₁, l₂, rfl⟩ := List.append_of_mem hin
    have hfirst : task ∉ l₁ := fun hmem =>
      (List.nodup_append.mp hnodup).2.2 task hmem task (by simp) rfl
    have hk : Lists k
        (((.node .all :: l₁.map fun task => .node (.taskAll task)) ++
          .node (.taskAll task) :: l₂.map fun task => .node (.taskAll task)) ::
            (rings [] listActive alone).tail) := by
      simpa [rings] using hk
    obtain ⟨k', hdel, hlists, hsame, -⟩ := hk.del (by simp)
    refine ⟨k', hdel, ?_, fun p => (hsame _ (by simp)).2⟩
    rw [List.erase_append_right _ hfirst, List.erase_cons_head, List.erase_of_not_mem hnot]
    simpa [rings] using hlists
  · obtain ⟨k', hdel, hlists, hsame, -⟩ := (rings_pick hk hin).delAlone
    have hnot : task ∉ listAll := fun hmem =>
      hk.toHolds.head.2.2 (.node (.taskAll task)) (by simpa using hmem) (by simpa using hin)
    exact ⟨k', hdel, by rwa [List.erase_of_not_mem hnot], fun p => (hsame _ (by simp)).2⟩

/-- The same for the queue of active tasks. -/
theorem del_taskActive
    {task : Nat}
    (hk : Lists k (rings listAll listActive alone))
    (hin : task ∈ listActive ∨ .taskActive task ∈ alone) :
    ∃ k', listDel (.node (.taskActive task)) k = some k' ∧
      Lists k' (rings listAll (listActive.erase task) (alone.erase (.taskActive task))) ∧
      (∀ p, p ∉ listActive → p ≠ task →
        k'.prev (.node (.taskActive p)) = k.prev (.node (.taskActive p))) ∧
      k'.prev (.node (.taskActive task)) = .poison2 := by
  have hswap := hk.perm rings_swap
  have happart := hswap.toHolds.head.2.2 (.node (.taskActive task))
  rcases hin with hin | hin
  · have hnot : .taskActive task ∉ alone := fun hmem =>
      happart (by simpa using hin) (by simpa using hmem)
    have hnodup := (rings_nodup hk).2.1
    obtain ⟨l₁, l₂, rfl⟩ := List.append_of_mem hin
    have hfirst : task ∉ l₁ := fun hmem =>
      (List.nodup_append.mp hnodup).2.2 task hmem task (by simp) rfl
    have hswap : Lists k
        (((.node .active :: l₁.map fun task => .node (.taskActive task)) ++
          .node (.taskActive task) :: l₂.map fun task => .node (.taskActive task)) ::
            (.node .all :: listAll.map fun task => .node (.taskAll task)) ::
              alone.map fun link => [.node link]) := by
      simpa using hswap
    obtain ⟨k', hdel, hlists, hsame, hpoison⟩ := hswap.del (by simp)
    refine ⟨k', hdel, ?_, fun p hp hne => (hsame _ ?_).2, hpoison⟩
    · rw [List.erase_append_right _ hfirst, List.erase_cons_head, List.erase_of_not_mem hnot]
      exact Lists.perm (by simpa using hlists) rings_swap.symm
    · simpa [hne] using hp
  · obtain ⟨k', hdel, hlists, hsame, hpoison⟩ := (rings_pick hk hin).delAlone
    have hnot : task ∉ listActive := fun hmem =>
      happart (by simpa using hmem) (by simpa using hin)
    exact ⟨k', hdel, by rwa [List.erase_of_not_mem hnot],
      fun p _ hne => (hsame _ (by simpa using hne)).2, hpoison⟩

end Rings

section Simulation

variable {m : PollMemory} {bl : PollBacklog} {task : Nat}

theorem shows_init (links : ListHeads Link) :
    ∃ m, pollBacklogInit links = some m ∧ Shows m PollBacklog.init := by
  have hnone : Lists links [] := ⟨⟨by simp, List.nodup_nil⟩, by simp⟩
  obtain ⟨k₁, h₁, hl₁, -⟩ := hnone.init (h := .node .all) rfl (by simp)
  obtain ⟨k₂, h₂, hl₂, -⟩ := hl₁.init (h := .node .active) rfl (by simp)
  refine ⟨{ next := 0, expiry := fun _ => ⟨0, 0⟩, queued := [], links := k₂ },
    by simp only [pollBacklogInit, h₁, h₂, Option.bind_eq_bind, Option.bind_some], kept_init, rfl, rfl, rfl, ⟨[], hl₂.perm (List.Perm.swap _ _ _), ?_⟩, ?_⟩
  · intro link
    constructor
    · intro hlink
      cases hlink
    · rintro (⟨hmade, -, -⟩ | ⟨hmade, -, -⟩) <;> exact absurd hmade (Nat.not_lt_zero _)
  · intro task htask
    cases htask

theorem Shows.not_listAll
    (h : Shows m bl)
    (hqueued : task ∉ bl.queued) :
    task ∉ bl.listAll :=
  fun hmem => hqueued (h.kept.inOrder.queued task hmem)

theorem Shows.make
    (h : Shows m bl)
    (now : Timespec)
    (expiry : Int) :
    ∃ m', m.make now expiry = some m' ∧ Shows m' (bl.make now expiry) := by
  obtain ⟨alone, hk, halone⟩ := h.lists
  have hnot : bl.next ∉ bl.queued := fun hmem =>
    Nat.lt_irrefl _ (h.kept.inOrder.made _ hmem)
  have hall : .node (.taskAll bl.next) ∉ (rings bl.listAll bl.listActive alone).flatten := by
    refine not_mem_rings_taskAll (h.not_listAll hnot) fun hmem => ?_
    cases (halone _).mp hmem with
    | all hmade => exact Nat.lt_irrefl _ hmade
  have hactive : .node (.taskActive bl.next) ∉
      ([.node (.taskAll bl.next)] :: rings bl.listAll bl.listActive alone).flatten := by
    rw [List.flatten_cons, List.mem_append, not_or]
    refine ⟨by simp, not_mem_rings_taskActive ?_ fun hmem => ?_⟩
    · exact fun hmem => Nat.lt_irrefl _ (h.kept.activeMade _ hmem)
    · cases (halone _).mp hmem with
      | active hmade => exact Nat.lt_irrefl _ hmade
  obtain ⟨k₁, h₁, hl₁, hs₁⟩ := hk.init rfl hall
  obtain ⟨k₂, h₂, hl₂, hs₂⟩ := hl₁.init rfl hactive
  refine ⟨{ m with next := m.next + 1, links := k₂,
                   expiry := Function.update m.expiry m.next (pollExpiry now expiry) },
    ?_, h.kept.make now expiry, ?_, ?_, h.queued, ⟨.taskActive bl.next :: .taskAll bl.next :: alone, ?_, ?_⟩, ?_⟩
  · simp only [PollMemory.make, h.next, h₁, h₂, Option.bind_eq_bind, Option.bind_some]
  · simp [PollBacklog.make, h.next]
  · simp [PollBacklog.make, h.next, h.expiry]
  · exact hl₂.perm (rings_cons.trans (rings_cons.cons _)).symm
  · intro link
    rw [List.mem_cons, List.mem_cons, halone]
    have hless : ∀ {p}, p < bl.next + 1 → p ≠ bl.next → p < bl.next := by omega
    have htaken : bl.next ∉ bl.taken := fun hmem => Nat.lt_irrefl _ (h.kept.takenMade _ hmem)
    have hidle : bl.next ∉ bl.listActive := fun hmem =>
      Nat.lt_irrefl _ (h.kept.activeMade _ hmem)
    constructor
    · rintro (rfl | rfl | ⟨hmade, htaken, hqueued⟩ | ⟨hmade, htaken, hactive⟩)
      · exact .active (Nat.lt_succ_self _) htaken hidle
      · exact .all (Nat.lt_succ_self _) htaken hnot
      · exact .all (Nat.lt_succ_of_lt hmade) htaken hqueued
      · exact .active (Nat.lt_succ_of_lt hmade) htaken hactive
    · rintro (@⟨p, hmade, htaken, hqueued⟩ | @⟨p, hmade, htaken, hactive⟩)
      · by_cases hp : p = bl.next
        · exact .inr (.inl (hp ▸ rfl))
        · exact .inr (.inr (.all (hless hmade hp) htaken hqueued))
      · by_cases hp : p = bl.next
        · exact .inl (hp ▸ rfl)
        · exact .inr (.inr (.active (hless hmade hp) htaken hactive))
  · intro p hp
    have hne : p ≠ bl.next := Nat.ne_of_lt (h.kept.takenMade p hp)
    have hfirst := (hs₁ (.node (.taskActive p)) (by simp)).2
    have hsecond := (hs₂ (.node (.taskActive p)) (by simp [hne])).2
    exact hsecond.trans (hfirst.trans (h.poisoned p hp))

theorem later_entry
    (h : Shows m bl)
    (p : Nat) :
    (!m.later task (.node (.taskAll p))) = bl.notLater task p := by
  rw [later, h.expiry, PollBacklog.notLater]
  simp [entryAll]

theorem Shows.queue
    (h : Shows m bl)
    (hmade : task < bl.next)
    (hnew : task ∉ bl.queued) :
    ∃ m', m.queue task = some m' ∧ Shows m' (bl.queue task) := by
  obtain ⟨alone, hk, halone⟩ := h.lists
  obtain ⟨hk', hout⟩ := rings_erase hk (.taskAll task)
  have hfresh : .node (.taskAll task) ∉
      (rings bl.listAll bl.listActive (alone.erase (.taskAll task))).flatten :=
    not_mem_rings_taskAll (h.not_listAll hnew) hout
  have hseen := hk.seenAs.empty
  have hhead := hk.head
  have hkept := h.kept.queue hmade hnew
  -- what is left to show of the new pointers
  have hshows : ∀ k', Lists k' (rings (bl.withTask task) bl.listActive
      (alone.erase (.taskAll task))) →
      (∀ p, k'.prev (.node (.taskActive p)) = m.links.prev (.node (.taskActive p))) →
      Shows { m with queued := m.queued ++ [task], links := k' } (bl.queue task) := by
    intro k' hlists hsame
    refine ⟨hkept, h.next, h.expiry, congrArg (· ++ [task]) h.queued, ⟨_, hlists, ?_⟩,
      fun p hp => (hsame p).trans (h.poisoned p hp)⟩
    intro link
    rw [(rings_nodup hk).2.2.mem_erase_iff, halone]
    constructor
    · rintro ⟨hne, @⟨p, hmade, htaken, hqueued⟩ | ⟨hmade, htaken, hactive⟩⟩
      · refine .all hmade htaken fun hmem => ?_
        rcases List.mem_append.mp hmem with hmem | hmem
        · exact hqueued hmem
        · exact hne (congrArg Link.taskAll (List.mem_singleton.mp hmem))
      · exact .active hmade htaken hactive
    · rintro (@⟨p, hmade, htaken, hqueued⟩ | ⟨hmade, htaken, hactive⟩)
      · have hqueued : p ∉ bl.queued ∧ p ≠ task := by
          rwa [PollBacklog.queue, List.mem_append, not_or, List.mem_singleton] at hqueued
        exact ⟨fun heq => hqueued.2 (Link.taskAll.inj heq), .all hmade htaken hqueued.1⟩
      · exact ⟨by simp, .active hmade htaken hactive⟩
  by_cases hempty : bl.listAll = []
  · obtain ⟨k', hadd, hlists, hsame⟩ := Lists.add hk' rfl hfresh
    refine ⟨_, ?_, hshows k' ?_ fun p => (hsame _ (by simp [hempty])).2⟩
    · rw [PollMemory.queue, hseen]
      simp only [hempty, List.map_nil, decide_true, Option.bind_eq_bind, Option.bind_some,
        if_true, hadd]
    · have hone : bl.withTask task = [task] := if_pos hempty
      rw [hone]
      simpa [hempty, rings] using hlists
  · have hlen : bl.listAll.length ≤ bl.queued.length :=
      ((rings_nodup hk).1.subperm h.kept.inOrder.queued).length_le
    have hfuel : (bl.listAll.map fun task => Ptr.node (Link.taskAll task)).length <
        m.queued.length + 1 := by
      rw [List.length_map, h.queued]
      omega
    obtain ⟨k', hins, hlists, hsame⟩ :=
      listInsert_of_lists (m.later task) [] hk' rfl hfresh hfuel
    refine ⟨_, ?_, hshows k' ?_ fun p => (hsame _ (by simp)).2⟩
    · have hne : (bl.listAll.map fun task => Ptr.node (Link.taskAll task)) ≠ [] := by
        simpa using hempty
      rw [PollMemory.queue, hseen]
      simp only [hne, decide_false, Option.bind_eq_bind, Option.bind_some, getNext, if_pos hhead.1,
        hhead.2.1, hins, if_false, Bool.false_eq_true]
    · rw [withTask_split]
      simpa [rings, List.takeWhile_map, List.dropWhile_map, Function.comp_def, later_entry h]
        using hlists

theorem Shows.activate
    (h : Shows m bl)
    (hmade : task < bl.next) :
    ∃ m', m.activate task = some m' ∧ Shows m' (bl.activate task) := by
  obtain ⟨alone, hk, halone⟩ := h.lists
  have hswap := hk.perm rings_swap
  have hkept := h.kept.activate hmade
  rw [PollMemory.activate, getPrev, if_pos (show (Ptr.node _).valid = true from rfl),
    Option.bind_eq_bind, Option.bind_some]
  unfold PollBacklog.activate at hkept ⊢
  by_cases htaken : task ∈ bl.taken
  · have hne : m.links.prev (.node (.taskActive task)) ≠ .node (.taskActive task) := by
      simp [h.poisoned task htaken]
    rw [if_neg hne, if_pos (.inr htaken)]
    exact ⟨m, rfl, h⟩
  · by_cases hactive : task ∈ bl.listActive
    · have hne : m.links.prev (.node (.taskActive task)) ≠ .node (.taskActive task) := by
        obtain ⟨l₁, l₂, hsplit⟩ := List.append_of_mem hactive
        rw [hsplit, List.map_append, List.map_cons] at hswap
        rw [hswap.entry.2.2.2]
        intro heq
        have hnodup := hswap.toHolds.head.2.1
        have hmem := heq ▸ List.getLast_mem (List.cons_ne_nil (Ptr.node Link.active)
          (l₁.map fun task => .node (.taskActive task)))
        rw [← List.cons_append] at hnodup
        exact (List.nodup_append.mp hnodup).2.2 _ hmem _ (by simp) rfl
      rw [if_neg hne, if_pos (.inl hactive)]
      exact ⟨m, rfl, h⟩
    · have hin : .taskActive task ∈ alone := (halone _).mpr (.active hmade htaken hactive)
      have hpick := rings_pick hk hin
      have hself : m.links.prev (.node (.taskActive task)) = .node (.taskActive task) :=
        hpick.head.2.2
      obtain ⟨hk', hout⟩ := rings_erase hk (.taskActive task)
      have hfresh : .node (.taskActive task) ∉
          (rings bl.listAll bl.listActive (alone.erase (.taskActive task))).flatten :=
        not_mem_rings_taskActive hactive hout
      obtain ⟨k', hadd, hlists, hsame⟩ := (hk'.perm rings_swap).addTail rfl
        (fun hmem => hfresh (rings_swap.flatten.mem_iff.mpr hmem))
      have hnot : ¬ (task ∈ bl.listActive ∨ task ∈ bl.taken) := not_or.mpr ⟨hactive, htaken⟩
      rw [if_neg hnot] at hkept ⊢
      rw [if_pos hself, hadd]
      refine ⟨{ m with links := k' }, rfl, hkept, h.next, h.expiry, h.queued,
        ⟨alone.erase (.taskActive task), ?_, ?_⟩, ?_⟩
      · exact Lists.perm (by simpa using hlists) rings_swap.symm
      · intro link
        rw [(rings_nodup hk).2.2.mem_erase_iff, halone]
        constructor
        · rintro ⟨hne, ⟨hmade, htaken, hqueued⟩ | @⟨p, hmade, htaken, hactive⟩⟩
          · exact .all hmade htaken hqueued
          · refine .active hmade htaken fun hmem => ?_
            rcases List.mem_append.mp hmem with hmem | hmem
            · exact hactive hmem
            · exact hne (congrArg Link.taskActive (List.mem_singleton.mp hmem))
        · rintro (⟨hmade, htaken, hqueued⟩ | @⟨p, hmade, htaken, hactive⟩)
          · exact ⟨by simp, .all hmade htaken hqueued⟩
          · have hactive : p ∉ bl.listActive ∧ p ≠ task := by
              rwa [List.mem_append, not_or, List.mem_singleton] at hactive
            exact ⟨fun heq => hactive.2 (Link.taskActive.inj heq),
              .active hmade htaken hactive.1⟩
      · intro p hp
        have hne : p ≠ task := fun heq => htaken (heq ▸ hp)
        have hidle : p ∉ bl.listActive := fun hmem => h.kept.activeLeft p hmem hp
        exact (hsame _ (by simp [hne, hidle])).2.trans (h.poisoned p hp)

theorem Shows.notify
    {tasks : List Nat}
    (h : Shows m bl)
    (hmade : ∀ task ∈ tasks, task < bl.next) :
    ∃ m', tasks.foldlM PollMemory.activate m = some m' ∧
      Shows m' (tasks.foldl PollBacklog.activate bl) := by
  induction tasks generalizing m bl with
  | nil => exact ⟨m, rfl, h⟩
  | cons task tasks ih =>
      obtain ⟨m₁, hstep, h₁⟩ := h.activate (hmade task List.mem_cons_self)
      have hnext : (bl.activate task).next = bl.next := by
        unfold PollBacklog.activate
        split <;> rfl
      obtain ⟨m', hrest, h'⟩ := ih h₁ fun p hp => by
        rw [hnext]
        exact hmade p (List.mem_cons_of_mem _ hp)
      exact ⟨m', by rw [List.foldlM_cons, hstep]; exact hrest, h'⟩

theorem Shows.getFirstTask
    (h : Shows m bl) :
    m.getFirstTask = some bl.getFirstTask := by
  obtain ⟨alone, hk, -⟩ := h.lists
  rw [PollMemory.getFirstTask, hk.seenAs.empty, getNext, if_pos hk.head.1, hk.head.2.1]
  cases hall : bl.listAll with
  | nil => simp [PollBacklog.getFirstTask, hall]
  | cons task rest => simp [PollBacklog.getFirstTask, hall, entryAll]

theorem Shows.getFirstTaskActive
    (h : Shows m bl) :
    m.getFirstTaskActive = some bl.getFirstTaskActive := by
  obtain ⟨alone, hk, -⟩ := h.lists
  have hk := hk.perm rings_swap
  rw [PollMemory.getFirstTaskActive, hk.seenAs.empty, getNext, if_pos hk.head.1, hk.head.2.1]
  cases hactive : bl.listActive with
  | nil => simp [PollBacklog.getFirstTaskActive, hactive]
  | cons task rest => simp [PollBacklog.getFirstTaskActive, hactive, entryActive]

theorem Shows.find
    (h : Shows m bl)
    (now : Option Timespec) :
    m.find now = some (bl.getFirstTaskActive.orElse fun _ => bl.getExpiredTask now) := by
  rw [PollMemory.find, h.getFirstTaskActive]
  cases bl.getFirstTaskActive with
  | some task => rfl
  | none =>
      cases now with
      | none => rfl
      | some now =>
          simp [PollMemory.getExpiredTask, PollBacklog.getExpiredTask, h.getFirstTask, h.expiry]

/-- What a poll thread finds is in one of the queues. -/
theorem mem_of_find
    {now : Option Timespec}
    (hfind : (bl.getFirstTaskActive.orElse fun _ => bl.getExpiredTask now) = some task) :
    task ∈ bl.listActive ∨ task ∈ bl.listAll := by
  cases hactive : bl.getFirstTaskActive with
  | some first =>
      rw [hactive] at hfind
      cases hfind
      exact .inl (List.mem_of_mem_head? hactive)
  | none =>
      rw [hactive] at hfind
      cases now with
      | none => cases hfind
      | some now =>
          obtain ⟨first, hfirst, hdue⟩ := Option.bind_eq_some_iff.mp
            (show (bl.getFirstTask.bind _) = some task from hfind)
          split at hdue
          · cases hdue
            exact .inr (List.mem_of_mem_head? hfirst)
          · cases hdue

theorem Shows.dequeue
    (h : Shows m bl)
    (hmade : task < bl.next)
    (hleft : task ∉ bl.taken) :
    ∃ m', m.dequeue task = some m' ∧ Shows m' (bl.dequeue task) := by
  obtain ⟨alone, hk, halone⟩ := h.lists
  obtain ⟨k₁, h₁, hl₁, hs₁, hpoison⟩ := del_taskActive hk (by
    by_cases hactive : task ∈ bl.listActive
    · exact .inl hactive
    · exact .inr ((halone _).mpr (.active hmade hleft hactive)))
  obtain ⟨k₂, h₂, hl₂, hs₂⟩ := del_taskAll hl₁ (by
    by_cases hqueued : task ∈ bl.queued
    · exact .inl (h.kept.waits task hqueued hleft)
    · refine .inr (((rings_nodup hk).2.2.mem_erase_iff).mpr ⟨by simp, ?_⟩)
      exact (halone _).mpr (.all hmade hleft hqueued))
  refine ⟨{ m with links := k₂ }, ?_, h.kept.dequeue hmade (rings_nodup hk).2.1, h.next, h.expiry,
    h.queued, ⟨_, hl₂, ?_⟩, ?_⟩
  · simp only [PollMemory.dequeue, h₁, h₂, Option.bind_eq_bind, Option.bind_some]
  · intro link
    rw [(rings_nodup hl₁).2.2.mem_erase_iff, (rings_nodup hk).2.2.mem_erase_iff, halone]
    constructor
    · rintro ⟨hall, hactive, @⟨p, hmade, htaken, hqueued⟩ | @⟨p, hmade, htaken, hidle⟩⟩
      · have hne : p ≠ task := fun heq => hall (congrArg Link.taskAll heq)
        exact .all hmade (List.not_mem_cons_of_ne_of_not_mem hne htaken) hqueued
      · have hne : p ≠ task := fun heq => hactive (congrArg Link.taskActive heq)
        exact .active hmade (List.not_mem_cons_of_ne_of_not_mem hne htaken)
          fun hmem => hidle (List.mem_of_mem_erase hmem)
    · rintro (@⟨p, hmade, htaken, hqueued⟩ | @⟨p, hmade, htaken, hidle⟩)
      · obtain ⟨hne, htaken⟩ := List.ne_and_not_mem_of_not_mem_cons htaken
        exact ⟨fun heq => hne (Link.taskAll.inj heq), by simp, .all hmade htaken hqueued⟩
      · obtain ⟨hne, htaken⟩ := List.ne_and_not_mem_of_not_mem_cons htaken
        exact ⟨by simp, fun heq => hne (Link.taskActive.inj heq), .active hmade htaken
          fun hmem => hidle ((List.mem_erase_of_ne hne).mpr hmem)⟩
  · intro p hp
    refine (hs₂ p).trans ?_
    rcases List.mem_cons.mp hp with rfl | hp
    · exact hpoison
    · have hne : p ≠ task := fun heq => hleft (heq ▸ hp)
      have hidle : p ∉ bl.listActive := fun hmem => h.kept.activeLeft p hmem hp
      exact (hs₁ p hidle hne).trans (h.poisoned p hp)

/-- A task that has been taken cannot be taken again. -/
theorem Shows.dequeue_taken
    (h : Shows m bl)
    (htaken : task ∈ bl.taken) :
    m.dequeue task = none := by
  rw [PollMemory.dequeue, listDel_poisoned (h.poisoned task htaken)]
  rfl

/-- A poll thread finds a task that has been taken before. -/
def Retakes (bl : PollBacklog) : PollBacklog.Event → Bool
  | .take now =>
      (bl.getFirstTaskActive.orElse fun _ => bl.getExpiredTask now).any fun task =>
        task ∈ bl.taken
  | _ => false

/-- What one step does to the pointers. -/
theorem Shows.step
    {bl' : PollBacklog} {e : PollBacklog.Event}
    (h : Shows m bl)
    (hstep : bl.step e = some bl') :
    (Retakes bl e = true → m.step e = none) ∧
      (Retakes bl e = false → ∃ m', m.step e = some m' ∧ Shows m' bl') := by
  cases e with
  | make now expiry =>
      obtain rfl := Option.some.inj hstep
      exact ⟨fun hre => by (cases hre), fun _ => h.make now expiry⟩
  | queue task =>
      refine ⟨fun hre => by (cases hre), fun _ => ?_⟩
      rw [PollBacklog.step] at hstep
      split at hstep
      · rename_i hok
        obtain rfl := Option.some.inj hstep
        exact h.queue hok.1 hok.2
      · cases hstep
  | notify tasks =>
      refine ⟨fun hre => by (cases hre), fun _ => ?_⟩
      rw [PollBacklog.step] at hstep
      split at hstep
      · rename_i hok
        obtain rfl := Option.some.inj hstep
        exact h.notify hok
      · cases hstep
  | take now =>
      obtain ⟨task, hfind, rfl⟩ := Option.map_eq_some_iff.mp hstep
      have hmem := mem_of_find hfind
      have hmade : task < bl.next := hmem.elim (h.kept.activeMade task) fun hall =>
        h.kept.inOrder.made task (h.kept.inOrder.queued task hall)
      have hrun : m.step (.take now) = m.dequeue task := by
        rw [PollMemory.step, h.find, hfind]
        rfl
      rw [hrun, Retakes, hfind]
      simp only [Option.any_some, decide_eq_true_eq, decide_eq_false_iff_not]
      exact ⟨h.dequeue_taken, h.dequeue hmade⟩

/-- The loop of `poll_backlog_dispose` goes over all tasks that are queued. -/
theorem Shows.dispose
    {fuel : Nat}
    (h : Shows m bl)
    (hfuel : bl.listAll.length < fuel) :
    m.pollBacklogDispose fuel = some (bl.listAll.map some) := by
  obtain ⟨alone, hk, -⟩ := h.lists
  obtain ⟨k', hrun, -⟩ := listForEachSafe_del (fun _ => true) hk (by rwa [List.length_map])
  have hfirst : (m.links.next (.node .all)).valid = true := by
    rw [hk.head.2.1]
    cases bl.listAll <;> rfl
  have hdel : (fun pos k => if true = true then listDel pos k else some k) =
      (listDel : Ptr Link → ListHeads Link → _) := by
    funext pos k
    exact if_pos rfl
  rw [hdel] at hrun
  simp [pollBacklogDispose, getNext, hk.head.1, hfirst, hrun, Function.comp_def, entryAll]

/-- A run from the start of the server. -/
def run (links : ListHeads Link) (es : List PollBacklog.Event) : Option PollMemory :=
  (pollBacklogInit links).bind fun m => Runs.exec PollMemory.step m es

/-- The pointers are those of the queues. -/
structure Pointing (m : PollMemory) (bl : PollBacklog) : Prop where
  expiry : m.expiry = bl.expiry
  listAll : SeenAs m.links (.node .all) (bl.listAll.map fun task => .node (.taskAll task))
  listActive :
    SeenAs m.links (.node .active) (bl.listActive.map fun task => .node (.taskActive task))
  dispose : ∀ fuel, bl.listAll.length < fuel →
    m.pollBacklogDispose fuel = some (bl.listAll.map some)

theorem Shows.pointing
    (h : Shows m bl) :
    Pointing m bl := by
  obtain ⟨alone, hk, -⟩ := h.lists
  exact ⟨h.expiry, hk.seenAs, (hk.perm rings_swap).seenAs, fun _ => h.dispose⟩

/-- What a run does to the pointers. -/
theorem Shows.exec
    {bl' : PollBacklog}
    (h : Shows m bl)
    (es : List PollBacklog.Event)
    (hrun : Runs.exec PollBacklog.step bl es = some bl') :
    ((Runs.exec PollMemory.step m es).isSome = true ↔
        Runs.meets PollBacklog.step (fun bl e => !Retakes bl e) bl es = true) ∧
      ∀ m', Runs.exec PollMemory.step m es = some m' → Shows m' bl' := by
  induction es generalizing m bl with
  | nil =>
      cases hrun
      exact ⟨by simp [Runs.exec, Runs.meets], fun m' hm => by cases hm; exact h⟩
  | cons e es ih =>
      obtain ⟨bl₁, hstep, hrest⟩ := Option.bind_eq_some_iff.mp hrun
      obtain ⟨hfault, hgood⟩ := h.step hstep
      have hcons : Runs.exec PollMemory.step m (e :: es) = (m.step e).bind fun m => Runs.exec PollMemory.step m es := rfl
      rw [hcons, Runs.meets, hstep, Option.all_some]
      cases hre : Retakes bl e with
      | true =>
          rw [hfault hre]
          exact ⟨by simp, fun m' hm => by cases hm⟩
      | false =>
          obtain ⟨m₁, hm₁, h₁⟩ := hgood hre
          rw [hm₁]
          simpa using ih h₁ hrest

/-- In every run the pointers are those of the queues of the backlog, and the run ends in a page
fault exactly if a poll thread finds a task that has been taken before. -/
theorem pollMemory_run
    (links : ListHeads Link)
    (es : List PollBacklog.Event)
    (hrun : Runs.exec PollBacklog.step PollBacklog.init es = some bl) :
    ((run links es).isSome = true ↔
        Runs.meets PollBacklog.step (fun bl e => !Retakes bl e) PollBacklog.init es = true) ∧
      ∀ m, run links es = some m → Pointing m bl := by
  obtain ⟨m₀, hinit, h₀⟩ := shows_init links
  obtain ⟨hiff, hend⟩ := h₀.exec es hrun
  rw [run, hinit]
  exact ⟨hiff, fun m hm => (hend m hm).pointing⟩

/-- A task that is taken before it is queued, and that a poll thread finds again when it
expires. -/
def takenEarly : List PollBacklog.Event :=
  [.make ⟨100, 0⟩ 5000, .notify [0], .take none, .queue 0, .make ⟨101, 0⟩ 1000, .queue 1,
    .take (some ⟨103, 0⟩), .take (some ⟨106, 0⟩)]

theorem pollMemory_run_takenEarly :
    ∃ bl, Runs.exec PollBacklog.step PollBacklog.init takenEarly = some bl ∧
      Runs.meets PollBacklog.step (fun bl e => !Retakes bl e) PollBacklog.init takenEarly = false ∧
      ((run ⟨id, id⟩ takenEarly).isSome = true ↔
        Runs.meets PollBacklog.step (fun bl e => !Retakes bl e) PollBacklog.init takenEarly =
          true) ∧
      ∀ m, run ⟨id, id⟩ takenEarly = some m → Pointing m bl :=
  ⟨_, rfl, by decide, pollMemory_run ⟨id, id⟩ takenEarly rfl⟩

end Simulation

section Orderly

variable {bl bl' : PollBacklog} {e : PollBacklog.Event}

/-- Tasks are notified when they have been queued. -/
def Orderly (bl : PollBacklog) : PollBacklog.Event → Bool
  | .notify tasks => tasks.all fun task => task ∈ bl.queued
  | _ => true

/-- A task that has been taken is in no queue. -/
structure Parted (bl : PollBacklog) : Prop where
  kept : Kept bl
  nodup : bl.listAll.Nodup ∧ bl.listActive.Nodup
  activeQueued : ∀ task ∈ bl.listActive, task ∈ bl.queued
  takenQueued : ∀ task ∈ bl.taken, task ∈ bl.queued
  left : ∀ task ∈ bl.listAll, task ∉ bl.taken

theorem Parted.activate
    {task : Nat}
    (h : Parted bl)
    (hqueued : task ∈ bl.queued) :
    Parted (bl.activate task) := by
  have hkept := h.kept.activate (h.kept.inOrder.made task hqueued)
  unfold PollBacklog.activate at hkept ⊢
  split
  · exact h
  · rename_i hnot
    rw [if_neg hnot] at hkept
    rw [not_or] at hnot
    refine ⟨hkept, ⟨h.nodup.1, ?_⟩, ?_, h.takenQueued, h.left⟩
    · exact List.nodup_append_comm.mp (List.nodup_cons.mpr ⟨hnot.1, h.nodup.2⟩)
    · intro p hp
      rcases List.mem_append.mp hp with hp | hp
      · exact h.activeQueued p hp
      · exact List.mem_singleton.mp hp ▸ hqueued

theorem Parted.notify
    {tasks : List Nat}
    (h : Parted bl)
    (hqueued : ∀ task ∈ tasks, task ∈ bl.queued) :
    Parted (tasks.foldl PollBacklog.activate bl) := by
  induction tasks generalizing bl with
  | nil => exact h
  | cons task tasks ih =>
      refine ih (h.activate (hqueued task List.mem_cons_self)) fun p hp => ?_
      have hsame : (bl.activate task).queued = bl.queued := by
        unfold PollBacklog.activate
        split <;> rfl
      rw [hsame]
      exact hqueued p (List.mem_cons_of_mem _ hp)

/-- An orderly step keeps what has been taken apart from the queues, and finds none of it. -/
theorem Parted.step
    (h : Parted bl)
    (horderly : Orderly bl e = true)
    (hstep : bl.step e = some bl') :
    Retakes bl e = false ∧ Parted bl' := by
  cases e with
  | make now expiry =>
      obtain rfl := Option.some.inj hstep
      exact ⟨rfl, h.kept.make now expiry, h.nodup, h.activeQueued, h.takenQueued, h.left⟩
  | queue task =>
      rw [PollBacklog.step] at hstep
      split at hstep
      · rename_i hok
        obtain rfl := Option.some.inj hstep
        have hlist : task ∉ bl.listAll := fun hmem => hok.2 (h.kept.inOrder.queued task hmem)
        refine ⟨rfl, h.kept.queue hok.1 hok.2, ⟨?_, h.nodup.2⟩, ?_, ?_, ?_⟩
        · change (bl.withTask task).Nodup
          have hperm : (bl.withTask task).Perm (task :: bl.listAll) := by
            rw [withTask_split]
            refine List.perm_middle.trans (List.Perm.cons _ ?_)
            rw [List.takeWhile_append_dropWhile]
          exact hperm.nodup_iff.mpr (List.nodup_cons.mpr ⟨hlist, h.nodup.1⟩)
        · exact fun p hp => List.mem_append_left _ (h.activeQueued p hp)
        · exact fun p hp => List.mem_append_left _ (h.takenQueued p hp)
        · intro p hp
          rcases mem_withTask.mp hp with rfl | hp
          · exact fun htaken => hok.2 (h.takenQueued p htaken)
          · exact h.left p hp
      · cases hstep
  | notify tasks =>
      rw [PollBacklog.step] at hstep
      split at hstep
      · obtain rfl := Option.some.inj hstep
        exact ⟨rfl, h.notify fun task ht => by simpa using List.all_eq_true.mp horderly task ht⟩
      · cases hstep
  | take now =>
      obtain ⟨task, hfind, rfl⟩ := Option.map_eq_some_iff.mp hstep
      have hmem := mem_of_find hfind
      have hqueued : task ∈ bl.queued :=
        hmem.elim (h.activeQueued task) (h.kept.inOrder.queued task)
      have hleft : task ∉ bl.taken := hmem.elim (h.kept.activeLeft task) (h.left task)
      refine ⟨?_, h.kept.dequeue (h.kept.inOrder.made task hqueued) h.nodup.2,
        ⟨h.nodup.1.erase task, h.nodup.2.erase task⟩,
        fun p hp => h.activeQueued p (List.mem_of_mem_erase hp), ?_, ?_⟩
      · rw [Retakes, hfind]
        simpa using hleft
      · intro p hp
        rcases List.mem_cons.mp hp with rfl | hp
        · exact hqueued
        · exact h.takenQueued p hp
      · intro p hp
        obtain ⟨hne, hp⟩ := h.nodup.1.mem_erase_iff.mp hp
        exact List.not_mem_cons_of_ne_of_not_mem hne (h.left p hp)

/-- No page fault in a run in which every task is queued before it is notified. -/
theorem pollMemory_orderly
    (links : ListHeads Link)
    (es : List PollBacklog.Event)
    (hrun : Runs.exec PollBacklog.step PollBacklog.init es = some bl)
    (horderly : Runs.meets PollBacklog.step Orderly PollBacklog.init es = true) :
    (run links es).isSome = true := by
  obtain ⟨m₀, hinit, h₀⟩ := shows_init links
  rw [run, hinit]
  refine (h₀.exec es hrun).1.mpr ?_
  suffices hall : ∀ start, Parted start → Runs.exec PollBacklog.step start es = some bl →
      Runs.meets PollBacklog.step Orderly start es = true →
      Runs.meets PollBacklog.step (fun bl e => !Retakes bl e) start es = true by
    refine hall _ ⟨kept_init, ⟨List.nodup_nil, List.nodup_nil⟩, ?_, ?_, ?_⟩ hrun horderly <;>
      intro task htask <;> cases htask
  clear hrun horderly h₀ hinit m₀
  intro start hstart hrun horderly
  induction es generalizing start with
  | nil => rfl
  | cons e es ih =>
      obtain ⟨bl₁, hstep, hrest⟩ := Option.bind_eq_some_iff.mp hrun
      rw [Runs.meets, hstep, Option.all_some, Bool.and_eq_true] at horderly ⊢
      obtain ⟨hfound, hparted⟩ := hstart.step horderly.1 hstep
      exact ⟨by rw [hfound]; rfl, ih bl₁ hparted hrest horderly.2⟩

/-- Two tasks that are queued at once. -/
theorem pollMemory_orderly_two :
    (run ⟨id, id⟩ [.make ⟨100, 0⟩ 5000, .queue 0, .make ⟨101, 0⟩ 1000, .queue 1, .notify [0],
      .take none, .take (some ⟨103, 0⟩)]).isSome = true :=
  pollMemory_orderly ⟨id, id⟩ _ rfl rfl

end Orderly

end PollMemory

end Obix
