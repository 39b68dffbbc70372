import Obix.Utils.PtaskCycle

/-!
# Runs without cancelled tasks

When no task is cancelled, only the worker frees tasks, and the task that it waits for or
executes is always there.  What each step does then is said once, as a relation.
-/

namespace Obix

/-- The task that the worker has a pointer to. -/
def Worker.task : Worker → Option Nat
  | .idle => none
  | .timedWait p _ => some p
  | .executing p => some p

namespace TaskCycle

/-- `ptask_cancel` is not called. -/
def noCancel : CycleOp → Bool
  | .cancel _ _ => false
  | _ => true

/-- What holds in runs without `ptask_cancel`. -/
structure Undisturbed (s : TaskCycle) : Prop where
  held : ∃ l, s.thread.Held l
  unmarked : ∀ p ptask, s.thread.heap p = some ptask → ptask.isCancelled = false
  unawaited : s.thread.waiting = []
  current : ∀ p, s.thread.worker.task = some p → s.thread.heap p ≠ none

/-- The worker has taken a task. -/
def taken (s : TaskCycle) (p : Nat) (next : Timespec) : TaskCycle :=
  { s with
    thread := { s.thread with worker := .timedWait p next }
    waitState := .waiting }

/-- What a step does. -/
inductive Move (s : TaskCycle) : CycleOp → TaskCycle → Prop
  | tick
      {now : Timespec}
      (hvalid : timespecNonneg now = true)
      (hnsec : now.nsec < 1000000000)
      (hle : timespecCmp s.thread.clock now ≠ 1) :
      Move s (.tick now) { s with thread := { s.thread with clock := now } }
  /-- A call that fails. -/
  | refused {op : CycleOp} : Move s op s
  | schedule
      {period executeTimes : Int} {t : TaskThread}
      (hgood : 0 < executeTimes ∨ executeTimes = executeIndefinite)
      (hheld : ∃ l, t.Held l)
      (hmade : Relinked (s.thread.allocated (s.thread.newTask period executeTimes)) t) :
      Move s (.schedule period executeTimes)
        { s.signal true with
          thread := t
          asked := Function.update s.asked s.thread.brk (some executeTimes) }
  | reset
      {id p : Nat} {ptask : PeriodicTask} {t : TaskThread}
      (hhit : s.thread.resets id = some p)
      (hp : s.thread.heap p = some ptask)
      (hwrote : s.thread.Wrote t p (ptask.dueAfter s.thread.clock)) :
      Move s (.reset id) { s.signal true with thread := t }
  | reschedule
      {id p : Nat} {period executeTimes : Int} {add : Bool} {ptask : PeriodicTask}
      {t : TaskThread}
      (hhit : s.thread.reschedules id period executeTimes add = some p)
      (hp : s.thread.heap p = some ptask)
      (hwrote : s.thread.Wrote t p
        (ptask.rescheduled s.thread.clock period executeTimes add)) :
      Move s (.reschedule id period executeTimes add) { s.signal true with thread := t }
  | take
      {p : Nat} {ptask : PeriodicTask}
      (hworker : s.thread.worker = .idle)
      (hp : s.thread.heap p = some ptask) :
      Move s .take (s.taken p ptask.nextScheduledTime)
  /-- The wait fails with `EINVAL`. -/
  | takeNow
      {p : Nat} {ptask : PeriodicTask}
      (hworker : s.thread.worker = .idle)
      (hp : s.thread.heap p = some ptask)
      (hinvalid : ptask.nextScheduledTime.nsec < 0 ∨
        1000000000 ≤ ptask.nextScheduledTime.nsec) :
      Move s .take ((s.taken p ptask.nextScheduledTime).execute p)
  | timeOut
      {p : Nat} {next : Timespec}
      (hworker : s.thread.worker = .timedWait p next)
      (hstate : s.waitState = .waiting)
      (hle : timespecCmp next s.thread.clock ≠ 1) :
      Move s .timeOut { s with waitState := .timedOut }
  | wake
      {p : Nat} {next : Timespec}
      (hworker : s.thread.worker = .timedWait p next) :
      Move s .wake { s with thread := { s.thread with worker := .idle } }
  | begin
      {p : Nat} {next : Timespec} {ptask : PeriodicTask}
      (hworker : s.thread.worker = .timedWait p next)
      (hstate : s.waitState = .timedOut)
      (hp : s.thread.heap p = some ptask) :
      Move s .begin (s.execute p)
  /-- The last execution of a task ends. -/
  | finishLast
      {p : Nat} {ptask : PeriodicTask} {t : TaskThread}
      (hworker : s.thread.worker = .executing p)
      (hp : s.thread.heap p = some ptask)
      (hlast : ptask.lastTime = true)
      (hfreed : TaskThread.Freed { s.thread with worker := .idle } t p) :
      Move s .finish
        { s with
          thread := t
          completed := Function.update s.completed p (s.completed p + 1)
          freed := s.freed ++ [p] }
  /-- Another execution ends. -/
  | finish
      {p : Nat} {ptask : PeriodicTask} {t : TaskThread}
      (hworker : s.thread.worker = .executing p)
      (hp : s.thread.heap p = some ptask)
      (hmore : ptask.lastTime = false)
      (hwrote : TaskThread.Wrote { s.thread with worker := .idle } t p ptask.executed) :
      Move s .finish
        { s with
          thread := t
          completed := Function.update s.completed p (s.completed p + 1) }

end TaskCycle

section Inversion

variable {s u : TaskCycle} {op : CycleOp} {p : Nat}

theorem signal_false : s.signal false = s := by
  simp [TaskCycle.signal]

theorem execute_of_live
    {ptask : PeriodicTask}
    (hp : s.thread.heap p = some ptask) :
    s.execute p =
      { s with
        started := Function.update s.started p (s.started p + 1)
        early :=
          if timespecCmp ptask.nextScheduledTime s.thread.clock = 1 then p :: s.early
          else s.early
        thread :=
          { s.thread.written p { ptask with isExecuting := true } with worker := .executing p } } := by
  simp [TaskCycle.execute, hp, TaskThread.due]

/-- Every step is one of these. -/
theorem TaskCycle.Undisturbed.move
    (h : s.Undisturbed)
    (hop : TaskCycle.noCancel op = true)
    (hstep : s.step op = some u) :
    s.Move op u := by
  obtain ⟨l, hheld⟩ := h.held
  cases op with
  | tick now =>
      obtain ⟨t, ht, rfl⟩ := Option.map_eq_some_iff.mp hstep
      unfold TaskThread.tick at ht
      split at ht
      · rename_i hnow
        cases ht
        exact .tick hnow.1 hnow.2.1 hnow.2.2
      · cases ht
  | schedule period executeTimes =>
      simp only [TaskCycle.step, TaskCycle.schedule] at hstep
      split at hstep
      · cases hstep
        exact .refused
      · rename_i hgood
        obtain ⟨t, ht, hheld', ⟨hle, hne, -⟩ | ⟨-, hmade⟩⟩ := hheld.schedule period executeTimes
        · exact absurd ⟨hle, hne⟩ hgood
        · rw [ht] at hstep
          cases hstep
          refine .schedule ?_ hheld' hmade
          by_cases hpos : 0 < executeTimes
          · exact .inl hpos
          · exact .inr (not_not.mp fun hne => hgood ⟨not_lt.mp hpos, hne⟩)
  | reschedule id period executeTimes add =>
      obtain ⟨t, ht, hcase⟩ := hheld.reschedule id period executeTimes add
      simp only [TaskCycle.step, TaskCycle.reschedule, ht, Option.map_some, Option.some_inj] at hstep
      rcases hcase with ⟨hnone, rfl⟩ | ⟨p, ptask, hhit, hp, hwrote⟩
      · rw [hnone, Option.isSome_none, signal_false] at hstep
        rw [← hstep]
        exact .refused
      · rw [hhit, Option.isSome_some] at hstep
        rw [← hstep]
        exact .reschedule hhit hp hwrote
  | reset id =>
      obtain ⟨t, ht, hcase⟩ := hheld.reset id
      simp only [TaskCycle.step, TaskCycle.reset, ht, Option.map_some, Option.some_inj] at hstep
      rcases hcase with ⟨hnone, rfl⟩ | ⟨p, ptask, hhit, hp, hwrote⟩
      · rw [hnone, Option.isSome_none, signal_false] at hstep
        rw [← hstep]
        exact .refused
      · rw [hhit, Option.isSome_some] at hstep
        rw [← hstep]
        exact .reset hhit hp hwrote
  | cancel id wait => cases hop
  | cancelled p =>
      simp [TaskCycle.step, TaskCycle.cancelled, h.unawaited] at hstep
  | take =>
      obtain ⟨t, ht, hu⟩ := Option.map_eq_some_iff.mp hstep
      unfold TaskThread.take at ht
      split at ht
      · rename_i p hworker hlist
        obtain ⟨ptask, hp, rfl⟩ := Option.map_eq_some_iff.mp ht
        dsimp only at hu
        split at hu
        · rename_i hinvalid
          rw [← hu]
          exact .takeNow hworker hp hinvalid
        · rw [← hu]
          exact .take hworker hp
      · cases ht
  | timeOut =>
      simp only [TaskCycle.step, TaskCycle.timeOut] at hstep
      split at hstep
      · rename_i p next hworker hstate
        split at hstep
        · cases hstep
        · rename_i hle
          cases hstep
          exact .timeOut hworker hstate hle
      · cases hstep
  | wake =>
      simp only [TaskCycle.step, TaskCycle.wake] at hstep
      split at hstep
      · cases hstep
      · obtain ⟨t, ht, rfl⟩ := Option.map_eq_some_iff.mp hstep
        unfold TaskThread.wake at ht
        split at ht
        · rename_i hworker
          cases ht
          exact .wake hworker
        · cases ht
  | begin =>
      simp only [TaskCycle.step, TaskCycle.begin] at hstep
      split at hstep
      · rename_i p next hworker hstate
        cases hstep
        obtain ⟨ptask, hp⟩ :=
          Option.ne_none_iff_exists'.mp (h.current p (by rw [hworker]; rfl))
        exact .begin hworker hstate hp
      · cases hstep
  | finish =>
      simp only [TaskCycle.step, TaskCycle.finish] at hstep
      split at hstep
      · rename_i p hworker
        obtain ⟨ptask, hp⟩ :=
          Option.ne_none_iff_exists'.mp (h.current p (by rw [hworker]; rfl))
        have hcancelled := h.unmarked p ptask hp
        obtain ⟨t, ht, ⟨hmarked, -⟩ | ⟨-, hlast, hfreed⟩ | ⟨-, hmore, hwrote⟩⟩ :=
          hheld.finish hworker hp
        · rw [hcancelled] at hmarked
          cases hmarked
        · simp only [hp, ht, hcancelled, hlast, Option.map_some, Option.some_inj, Bool.not_false,
            Bool.true_and, if_true] at hstep
          rw [← hstep]
          exact .finishLast hworker hp hlast hfreed
        · simp only [hp, ht, hcancelled, hmore, Option.map_some, Option.some_inj, Bool.not_false,
            Bool.and_false, Bool.false_eq_true, if_false] at hstep
          rw [← hstep]
          exact .finish hworker hp hmore hwrote
      · cases hstep

end Inversion

section Kept

variable {s u : TaskCycle} {op : CycleOp} {p : Nat}

/-- Another task may have been written to, but not in its mark, and the worker has gone on. -/
theorem TaskCycle.Undisturbed.of_mark
    (hheld : ∃ l, u.thread.Held l)
    (hmark : ∀ q, (u.thread.heap q).map PeriodicTask.isCancelled ≠ some true)
    (hwaiting : u.thread.waiting = [])
    (hcurrent : ∀ q, u.thread.worker.task = some q → u.thread.heap q ≠ none) :
    u.Undisturbed := by
  refine ⟨hheld, ?_, hwaiting, hcurrent⟩
  intro q qtask hq
  have hnot := hmark q
  rw [hq, Option.map_some] at hnot
  simpa using hnot

theorem TaskCycle.Undisturbed.mark
    (h : s.Undisturbed)
    (q : Nat) :
    (s.thread.heap q).map PeriodicTask.isCancelled ≠ some true := by
  intro hmark
  obtain ⟨qtask, hq, hcancelled⟩ := Option.map_eq_some_iff.mp hmark
  rw [h.unmarked q qtask hq] at hcancelled
  cases hcancelled

/-- The worker starts a task. -/
theorem TaskCycle.Undisturbed.execute
    {ptask : PeriodicTask}
    (h : s.Undisturbed)
    (hp : s.thread.heap p = some ptask) :
    (s.execute p).Undisturbed := by
  obtain ⟨l, hheld⟩ := h.held
  have hwrote : s.thread.Wrote (s.thread.written p { ptask with isExecuting := true }) p
      { ptask with isExecuting := true } :=
    ⟨⟨l, hheld.written hp rfl rfl⟩, fun _ => rfl, rfl⟩
  obtain ⟨l', hwritten⟩ := hwrote.held
  rw [execute_of_live hp]
  refine .of_mark ⟨l', hwritten.threads, hwritten.live, hwritten.bound⟩ ?_ h.unawaited ?_
  · intro q
    have hmap := hwrote.map (f := PeriodicTask.isCancelled) (fun _ => rfl) q
    dsimp only
    rw [hmap]
    split
    · simp [h.unmarked p ptask hp]
    · exact h.mark q
  · rintro q ⟨⟩
    simp

theorem TaskCycle.Undisturbed.taken
    {ptask : PeriodicTask} {next : Timespec}
    (h : s.Undisturbed)
    (hp : s.thread.heap p = some ptask) :
    (s.taken p next).Undisturbed := by
  obtain ⟨l, hheld⟩ := h.held
  refine ⟨⟨l, hheld.threads, hheld.live, hheld.bound⟩, h.unmarked, h.unawaited, ?_⟩
  rintro q ⟨⟩ hnone
  rw [show s.thread.heap p = none from hnone] at hp
  cases hp

/-- The worker has no task, and marks are the same. -/
theorem TaskCycle.Undisturbed.of_idle
    (hheld : ∃ l, u.thread.Held l)
    (hmark : ∀ q, (u.thread.heap q).map PeriodicTask.isCancelled ≠ some true)
    (hwaiting : u.thread.waiting = [])
    (hworker : u.thread.worker = .idle) :
    u.Undisturbed := by
  refine .of_mark hheld hmark hwaiting ?_
  intro q hq
  rw [hworker] at hq
  cases hq

theorem TaskCycle.Undisturbed.of_move
    (h : s.Undisturbed)
    (hmove : s.Move op u) :
    u.Undisturbed := by
  obtain ⟨l, hheld⟩ := h.held
  cases hmove with
  | tick => exact ⟨⟨l, hheld.threads, hheld.live, hheld.bound⟩, h.unmarked, h.unawaited, h.current⟩
  | refused => exact h
  | schedule hgood hheld' hmade =>
      obtain ⟨hworker, hwaiting, -, -⟩ := hmade.fields
      refine .of_mark hheld' ?_ (hwaiting.trans h.unawaited) ?_
      · intro q
        rw [hmade.map_allocated (f := PeriodicTask.isCancelled) (fun _ => rfl)]
        split
        · simp [TaskThread.newTask]
        · exact h.mark q
      · intro q hq hnone
        have hlive := h.current q (hworker ▸ hq)
        exact hlive ((hmade.live_allocated q).mp hnone).2
  | reset hhit hp hwrote =>
      obtain ⟨hworker, hwaiting, -, -⟩ := hwrote.relinked.fields
      refine .of_mark hwrote.held ?_ (hwaiting.trans h.unawaited) ?_
      · intro q
        rw [hwrote.map (f := PeriodicTask.isCancelled) (fun _ => rfl)]
        split
        · simp [PeriodicTask.dueAfter, h.unmarked _ _ hp]
        · exact h.mark q
      · intro q hq hnone
        exact h.current q (hworker ▸ hq) ((hwrote.live hp q).mp hnone)
  | @reschedule id p period executeTimes add ptask t hhit hp hwrote =>
      obtain ⟨hworker, hwaiting, -, -⟩ := hwrote.relinked.fields
      refine .of_mark hwrote.held ?_ (hwaiting.trans h.unawaited) ?_
      · intro q
        rw [hwrote.map (f := PeriodicTask.isCancelled) (fun _ => rfl)]
        split
        · have hsame : (ptask.rescheduled s.thread.clock period executeTimes add).isCancelled =
              ptask.isCancelled := by
            cases add <;> rfl
          simp [hsame, h.unmarked _ _ hp]
        · exact h.mark q
      · intro q hq hnone
        exact h.current q (hworker ▸ hq) ((hwrote.live hp q).mp hnone)
  | take hworker hp => exact h.taken hp
  | takeNow hworker hp hinvalid => exact (h.taken hp).execute hp
  | timeOut => exact ⟨⟨l, hheld⟩, h.unmarked, h.unawaited, h.current⟩
  | wake =>
      exact ⟨⟨l, hheld.threads, hheld.live, hheld.bound⟩, h.unmarked, h.unawaited, by
        rintro q ⟨⟩⟩
  | begin hworker hstate hp => exact h.execute hp
  | finishLast hworker hp hlast hfreed =>
      obtain ⟨hidle, hwaiting, -, -⟩ := hfreed.relinked.fields
      refine .of_idle hfreed.held ?_ (hwaiting.trans h.unawaited) hidle
      intro q
      rw [hfreed.map (f := PeriodicTask.isCancelled) (fun _ => rfl)]
      split
      · simp
      · exact h.mark q
  | finish hworker hp hmore hwrote =>
      obtain ⟨hidle, hwaiting, -, -⟩ := hwrote.relinked.fields
      refine .of_idle hwrote.held ?_ (hwaiting.trans h.unawaited) hidle
      intro q
      rw [hwrote.map (f := PeriodicTask.isCancelled) (fun _ => rfl)]
      split
      · simp [PeriodicTask.executed, PeriodicTask.dueAfter, h.unmarked _ _ hp]
      · exact h.mark q

theorem TaskCycle.undisturbed_init (clock : Timespec) : (TaskCycle.init clock).Undisturbed where
  held := ⟨[], held_init clock⟩
  unmarked := by simp [TaskCycle.init, TaskThread.init]
  unawaited := rfl
  current := by
    rintro p ⟨⟩

end Kept

end Obix
