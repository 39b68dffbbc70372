import Obix.Lib.Runs
import Obix.Utils.PtaskCycle

/-!
# Cancelled tasks

`ptask_cancel` frees a task unless it is being executed.  The task whose timed wait is over is not
marked as being executed before the worker has got the mutex back, so that it can be freed then,
and the worker executes it.  As long as no call frees the task that the worker is about to
execute, the worker comes upon no freed task, none is freed twice, and a task is not executed any
more after a `ptask_cancel` that waits has returned (`cancelled_tasks_rest`).
-/

namespace Obix

namespace TaskCycle

variable (s : TaskCycle)

/-- `ptask_cancel` is called with `wait` only. -/
def waits : CycleOp → Bool
  | .cancel _ wait => wait
  | _ => true

/-- No call frees the task whose wait is over and which the worker has not started. -/
def sparesTimedOut : CycleOp → Bool
  | .cancel id wait =>
      match s.thread.worker, s.waitState with
      | .timedWait p _, .timedOut => s.thread.cancelFrees id wait ≠ some p
      | _, _ => true
  | _ => true

/-- What holds in every state: the worker has come upon no freed task, none has been freed twice,
no task is executed whose `ptask_cancel` has returned, and all calls find only tasks. -/
structure Safe (s : TaskCycle) : Prop where
  unharmed : s.stale = []
  once : s.freed.Nodup
  rest : ∀ p ∈ s.returned, s.thread.worker ≠ .executing p
  calls : ∀ (id : Nat) (wait add : Bool) (period executeTimes : Int),
    (s.cancel id wait).isSome ∧ (s.reset id).isSome ∧ (s.schedule period executeTimes).isSome ∧
      (s.reschedule id period executeTimes add).isSome

end TaskCycle

section Flags

variable {s s' : TaskThread} {p q : Nat} {ptask ptask' : PeriodicTask}

/-- The marks of a task. -/
def PeriodicTask.flags (ptask : PeriodicTask) : Bool × Bool :=
  (ptask.isExecuting, ptask.isCancelled)

/-- A task is written to, but not in its marks. -/
theorem TaskThread.Wrote.flags
    (h : s.Wrote s' p ptask')
    (hp : s.heap p = some ptask)
    (hflags : ptask'.flags = ptask.flags)
    (q : Nat) :
    (s'.heap q).map PeriodicTask.flags = (s.heap q).map PeriodicTask.flags := by
  rw [h.map (f := PeriodicTask.flags) (fun _ => rfl)]
  split
  · rename_i hq
    rw [hq, hp, Option.map_some, hflags]
  · rfl

theorem TaskThread.Freed.flags
    (h : s.Freed s' p)
    (hq : q ≠ p) :
    (s'.heap q).map PeriodicTask.flags = (s.heap q).map PeriodicTask.flags := by
  rw [h.map (f := PeriodicTask.flags) (fun _ => rfl), if_neg hq]

theorem TaskThread.Freed.heap_self (h : s.Freed s' p) : s'.heap p = none :=
  (h.live p).mpr (.inl rfl)

theorem flags_live
    (h : (s'.heap q).map PeriodicTask.flags = (s.heap q).map PeriodicTask.flags) :
    s'.heap q = none ↔ s.heap q = none := by
  have hnone := congrArg (fun r : Option (Bool × Bool) => r = none) h
  simpa using hnone

end Flags

section Guard

variable {s u : TaskCycle} {p : Nat}

/-- What allowed steps keep.  The worker is about to execute, or executes, a task that has not
been freed; whoever waits for the end of an execution waits for a task that is marked. -/
structure TaskCycle.Guarded (s : TaskCycle) : Prop where
  held : ∃ l, s.thread.Held l
  unharmed : s.stale = []
  dead : ∀ p ∈ s.freed, s.thread.heap p = none ∧ p < s.thread.brk
  once : s.freed.Nodup
  returned : ∀ p ∈ s.returned, p ∈ s.freed
  running : ∀ p, s.thread.worker = .executing p →
    ∃ ptask, s.thread.heap p = some ptask ∧ ptask.isExecuting = true
  ready : ∀ p next, s.thread.worker = .timedWait p next → s.waitState ≠ .signalled →
    s.thread.heap p ≠ none
  awaited : ∀ p ∈ s.thread.waiting,
    (s.thread.heap p).map PeriodicTask.flags = some (true, true)

theorem TaskCycle.Guarded.bound
    (h : s.Guarded)
    (hp : s.thread.heap p ≠ none) :
    p < s.thread.brk := by
  obtain ⟨l, hheld⟩ := h.held
  exact hheld.bound p ((hheld.live p).mp hp)

/-- A task that has not been freed is not in the record. -/
theorem TaskCycle.Guarded.not_freed
    (h : s.Guarded)
    (hp : s.thread.heap p ≠ none) :
    p ∉ s.freed :=
  fun hmem => hp (h.dead p hmem).1

/-- Other data of the tasks change, tasks are made, and the worker may be woken up. -/
theorem TaskCycle.Guarded.keep
    (h : s.Guarded)
    (hheld : ∃ l, u.thread.Held l)
    (hflags : ∀ q, q < s.thread.brk →
      (u.thread.heap q).map PeriodicTask.flags = (s.thread.heap q).map PeriodicTask.flags)
    (hbrk : s.thread.brk ≤ u.thread.brk)
    (hworker : u.thread.worker = s.thread.worker)
    (hwaiting : u.thread.waiting = s.thread.waiting)
    (hstate : u.waitState = .signalled ∨ u.waitState = s.waitState)
    (hstale : u.stale = s.stale)
    (hfreed : u.freed = s.freed)
    (hreturned : u.returned = s.returned) :
    u.Guarded := by
  refine ⟨hheld, hstale.trans h.unharmed, ?_, hfreed ▸ h.once, ?_, ?_, ?_, ?_⟩
  · intro p hp
    obtain ⟨hnone, hlt⟩ := h.dead p (hfreed ▸ hp)
    exact ⟨(flags_live (hflags p hlt)).mpr hnone, Nat.lt_of_lt_of_le hlt hbrk⟩
  · rw [hreturned, hfreed]
    exact h.returned
  · intro p hp
    obtain ⟨ptask, htask, hexec⟩ := h.running p (hworker ▸ hp)
    have hsame := hflags p (h.bound (by simp [htask]))
    rw [htask, Option.map_some] at hsame
    obtain ⟨ptask', htask', hflags'⟩ := Option.map_eq_some_iff.mp hsame
    exact ⟨ptask', htask', (congrArg Prod.fst hflags').trans hexec⟩
  · intro p next hp hnot
    have hlive := h.ready p next (hworker ▸ hp)
      (by
        rcases hstate with hsignalled | hsame
        · exact absurd hsignalled hnot
        · rwa [← hsame])
    exact fun hnone => hlive ((flags_live (hflags p (h.bound hlive))).mp hnone)
  · intro p hp
    have hmarked := h.awaited p (hwaiting ▸ hp)
    have hlive : s.thread.heap p ≠ none := by
      intro hnone
      simp [hnone] at hmarked
    rw [hflags p (h.bound hlive), hmarked]

theorem TaskCycle.Guarded.tick
    {now : Timespec}
    (h : s.Guarded)
    (hstep : s.tick now = some u) :
    u.Guarded := by
  obtain ⟨t, ht, rfl⟩ := Option.map_eq_some_iff.mp hstep
  unfold TaskThread.tick at ht
  split at ht
  · cases ht
    obtain ⟨l, hheld⟩ := h.held
    exact h.keep ⟨l, hheld.threads, hheld.live, hheld.bound⟩ (fun _ _ => rfl) le_rfl rfl rfl
      (.inr rfl) rfl rfl rfl
  · cases ht

theorem TaskCycle.Guarded.schedule
    {period executeTimes : Int}
    (h : s.Guarded)
    (hstep : s.schedule period executeTimes = some u) :
    u.Guarded := by
  obtain ⟨l, hheld⟩ := h.held
  unfold TaskCycle.schedule at hstep
  split at hstep
  · cases hstep
    exact h
  · rename_i hgood
    obtain ⟨t, ht, hheld', hcase⟩ := hheld.schedule period executeTimes
    rw [ht] at hstep
    cases hstep
    rcases hcase with ⟨hle, hne, -⟩ | ⟨-, hrelinked⟩
    · exact absurd ⟨hle, hne⟩ hgood
    · obtain ⟨hworker, hwaiting, hbrk, -⟩ := hrelinked.fields
      refine h.keep hheld' ?_ (hbrk ▸ Nat.le_succ _) hworker hwaiting (signal_waitState true)
        (signal_stale true) (signal_freed true) (signal_returned true)
      intro q hq
      rw [hrelinked.map_allocated (f := PeriodicTask.flags) (fun _ => rfl),
        if_neg (Nat.ne_of_lt hq)]

/-- One task is written to, and not in its marks. -/
theorem TaskCycle.Guarded.wrote
    {t : TaskThread} {ptask ptask' : PeriodicTask}
    (h : s.Guarded)
    (hp : s.thread.heap p = some ptask)
    (hflags : ptask'.flags = ptask.flags)
    (hwrote : s.thread.Wrote t p ptask')
    (r : Bool) :
    TaskCycle.Guarded { s.signal r with thread := t } := by
  obtain ⟨hworker, hwaiting, hbrk, -⟩ := hwrote.relinked.fields
  exact h.keep hwrote.held (fun q _ => hwrote.flags hp hflags q) (hbrk ▸ le_rfl) hworker hwaiting
    (signal_waitState r) (signal_stale r) (signal_freed r) (signal_returned r)

/-- Nothing but a signal. -/
theorem TaskCycle.Guarded.signalled
    (h : s.Guarded)
    (r : Bool) :
    TaskCycle.Guarded { s.signal r with thread := s.thread } :=
  h.keep h.held (fun _ _ => rfl) le_rfl rfl rfl (signal_waitState r) (signal_stale r)
    (signal_freed r) (signal_returned r)

theorem TaskCycle.Guarded.reset
    {id : Nat}
    (h : s.Guarded)
    (hstep : s.reset id = some u) :
    u.Guarded := by
  obtain ⟨l, hheld⟩ := h.held
  obtain ⟨t, ht, hcase⟩ := hheld.reset id
  rw [TaskCycle.reset, ht] at hstep
  cases hstep
  rcases hcase with ⟨-, rfl⟩ | ⟨p, ptask, -, hp, hwrote⟩
  · exact h.signalled _
  · have hflags : (ptask.dueAfter s.thread.clock).flags = ptask.flags := rfl
    exact h.wrote hp hflags hwrote _

theorem TaskCycle.Guarded.reschedule
    {id : Nat} {period executeTimes : Int} {add : Bool}
    (h : s.Guarded)
    (hstep : s.reschedule id period executeTimes add = some u) :
    u.Guarded := by
  obtain ⟨l, hheld⟩ := h.held
  obtain ⟨t, ht, hcase⟩ := hheld.reschedule id period executeTimes add
  rw [TaskCycle.reschedule, ht] at hstep
  cases hstep
  rcases hcase with ⟨-, rfl⟩ | ⟨p, ptask, -, hp, hwrote⟩
  · exact h.signalled _
  · refine h.wrote hp ?_ hwrote _
    cases add <;> rfl

/-- A task is freed that the worker is neither about to execute nor executes. -/
theorem TaskCycle.Guarded.freed
    {t : TaskThread}
    (h : s.Guarded)
    (hp : s.thread.heap p ≠ none)
    (hfreed : s.thread.Freed t p)
    (hmarks : (s.thread.heap p).map PeriodicTask.flags ≠ some (true, true))
    (hworker : s.thread.worker ≠ .executing p)
    (hready : ∀ next, s.thread.worker = .timedWait p next → u.waitState = .signalled)
    (hthread : u.thread = t)
    (hstate : u.waitState = .signalled ∨ u.waitState = s.waitState)
    (hstale : u.stale = s.stale)
    (hrecord : u.freed = s.freed ++ [p])
    (hreturned : ∀ q ∈ u.returned, q = p ∨ q ∈ s.returned) :
    u.Guarded := by
  obtain ⟨hworker', hwaiting, hbrk, -⟩ := hfreed.relinked.fields
  have hother : ∀ q, q ≠ p → s.thread.heap q ≠ none → u.thread.heap q ≠ none := by
    intro q hq hlive hnone
    rw [hthread] at hnone
    exact hlive ((flags_live (hfreed.flags hq)).mp hnone)
  refine ⟨hthread ▸ hfreed.held, hstale.trans h.unharmed, ?_, ?_, ?_, ?_, ?_, ?_⟩
  · intro q hq
    rw [hthread, hbrk]
    rw [hrecord] at hq
    rcases List.mem_append.mp hq with hq | hq
    · obtain ⟨hnone, hlt⟩ := h.dead q hq
      have hqp : q ≠ p := by
        rintro rfl
        exact hp hnone
      exact ⟨(flags_live (hfreed.flags hqp)).mpr hnone, hlt⟩
    · obtain rfl := List.mem_singleton.mp hq
      exact ⟨hfreed.heap_self, h.bound hp⟩
  · rw [hrecord]
    exact List.nodup_append.mpr ⟨h.once, List.nodup_singleton p, by
      intro q hq r hr hqr
      obtain rfl := List.mem_singleton.mp hr
      exact h.not_freed hp (hqr ▸ hq)⟩
  · intro q hq
    rw [hrecord]
    rcases hreturned q hq with rfl | hq
    · simp
    · exact List.mem_append_left _ (h.returned q hq)
  · intro q hq
    rw [hthread, hworker'] at hq
    obtain ⟨ptask, htask, hexec⟩ := h.running q hq
    have hqp : q ≠ p := by
      rintro rfl
      exact hworker hq
    have hsame := hfreed.flags hqp
    rw [htask, Option.map_some] at hsame
    obtain ⟨ptask', htask', hflags'⟩ := Option.map_eq_some_iff.mp hsame
    exact ⟨ptask', hthread ▸ htask', (congrArg Prod.fst hflags').trans hexec⟩
  · intro q next hq hnot
    rw [hthread, hworker'] at hq
    have hqp : q ≠ p := by
      rintro rfl
      exact hnot (hready next hq)
    refine hother q hqp (h.ready q next hq ?_)
    rcases hstate with hsignalled | hsame
    · exact absurd hsignalled hnot
    · rwa [← hsame]
  · intro q hq
    rw [hthread, hwaiting] at hq
    have hmarked := h.awaited q hq
    have hqp : q ≠ p := by
      rintro rfl
      exact hmarks hmarked
    rw [hthread, hfreed.flags hqp, hmarked]

/-- The marks of a task change. -/
theorem TaskCycle.Guarded.mark
    {ptask ptask' : PeriodicTask} {w : Worker} {ws : List Nat}
    (h : s.Guarded)
    (hp : s.thread.heap p = some ptask)
    (hprev : ptask'.prev = ptask.prev)
    (hnext : ptask'.next = ptask.next)
    (hrun : ∀ q, w = .executing q →
      (q = p ∧ ptask'.isExecuting = true) ∨ (q ≠ p ∧ s.thread.worker = .executing q))
    (hready : ∀ q next, w = .timedWait q next → s.thread.worker = .timedWait q next)
    (hawaited : ∀ q ∈ ws,
      (q = p ∧ ptask'.flags = (true, true)) ∨ (q ≠ p ∧ q ∈ s.thread.waiting)) :
    TaskCycle.Guarded { s with
      thread := { s.thread.written p ptask' with worker := w, waiting := ws } } := by
  obtain ⟨l, hheld⟩ := h.held
  have hwritten : (s.thread.written p ptask').Held l := hheld.written hp hprev hnext
  have hself : (s.thread.written p ptask').heap p = some ptask' := heap_written_self
  have hlive : ∀ q, (s.thread.written p ptask').heap q = none ↔ s.thread.heap q = none := by
    intro q
    by_cases hq : q = p
    · subst hq
      simp [hp]
    · rw [heap_written_of_ne hq]
  refine ⟨⟨l, hwritten.threads, hwritten.live, hwritten.bound⟩, h.unharmed, ?_, h.once, h.returned,
    ?_, ?_, ?_⟩
  · intro q hq
    exact ⟨(hlive q).mpr (h.dead q hq).1, (h.dead q hq).2⟩
  · intro q hworker
    rcases hrun q hworker with ⟨rfl, hexec⟩ | ⟨hq, hworker⟩
    · exact ⟨ptask', hself, hexec⟩
    · obtain ⟨qtask, hqtask, hqexec⟩ := h.running q hworker
      exact ⟨qtask, (heap_written_of_ne hq).trans hqtask, hqexec⟩
  · intro q next hworker hnot hnone
    exact h.ready q next (hready q next hworker) hnot ((hlive q).mp hnone)
  · intro q hq
    dsimp only
    rcases hawaited q hq with ⟨rfl, hflags⟩ | ⟨hq, hmem⟩
    · rw [hself, Option.map_some, hflags]
    · rw [heap_written_of_ne hq]
      exact h.awaited q hmem

/-- A caller begins to wait for the end of an execution. -/
theorem TaskCycle.Guarded.await
    {ptask : PeriodicTask}
    (h : s.Guarded)
    (hp : s.thread.heap p = some ptask)
    (hexec : ptask.isExecuting = true) :
    TaskCycle.Guarded { s with
      thread := { s.thread.written p { ptask with isCancelled := true } with
        waiting := p :: s.thread.waiting } } := by
  refine h.mark (w := s.thread.worker) hp rfl rfl ?_ (fun q next hq => hq) ?_
  · intro q hq
    by_cases hqp : q = p
    · exact .inl ⟨hqp, hexec⟩
    · exact .inr ⟨hqp, hq⟩
  · intro q hq
    by_cases hqp : q = p
    · exact .inl ⟨hqp, by simp [PeriodicTask.flags, hexec]⟩
    · exact .inr ⟨hqp, (List.mem_cons.mp hq).resolve_left hqp⟩

theorem TaskCycle.Guarded.cancel
    {id : Nat} {wait : Bool}
    (h : s.Guarded)
    (hwait : wait = true)
    (hspares : s.sparesTimedOut (.cancel id wait) = true)
    (hstep : s.cancel id wait = some u) :
    u.Guarded := by
  obtain ⟨l, hheld⟩ := h.held
  obtain ⟨t, ht, hcase⟩ := hheld.cancel id wait
  rw [TaskCycle.cancel, ht] at hstep
  rcases hcase with ⟨hnone, rfl⟩ | ⟨hnone, p, ptask, hp, hcancelled, hexec, -, rfl⟩ |
    ⟨p, ptask, hfrees, hp, hcancelled, hidle, hfreed⟩
  · rw [hnone] at hstep
    cases hstep
    exact h
  · -- the task is being executed, and the caller begins to wait
    rw [hnone] at hstep
    cases hstep
    exact h.await hp hexec
  · rw [hfrees] at hstep
    cases hstep
    subst hwait
    have hmarks : ptask.isExecuting = false := by simpa using hidle
    refine h.freed (by simp [hp]) hfreed (by simp [hp, PeriodicTask.flags, hcancelled]) ?_ ?_ rfl
      (signal_waitState true) (signal_stale true) rfl (by simp)
    · intro hworker
      obtain ⟨ptask', hp', hexec⟩ := h.running p hworker
      rw [hp] at hp'
      cases hp'
      rw [hmarks] at hexec
      cases hexec
    · intro next hworker
      have hnot : s.waitState ≠ .timedOut := by
        intro htimed
        simp [TaskCycle.sparesTimedOut, hworker, htimed, hfrees] at hspares
      rcases signal_waitState (s := s) true with hsignalled | hsame
      · exact hsignalled
      · cases hstate : s.waitState with
        | waiting => exact absurd (hsame.trans hstate) signal_true_ne_waiting
        | signalled => exact hsame.trans hstate
        | timedOut => exact absurd hstate hnot

/-- Nobody comes behind the waiting loop: the mark of the execution is not cleared any more. -/
theorem TaskCycle.Guarded.cancelled
    (h : s.Guarded)
    (hstep : s.cancelled p = some u) :
    False := by
  unfold TaskCycle.cancelled at hstep
  split at hstep
  · rename_i hp
    obtain ⟨ptask, htask, hflags⟩ := Option.map_eq_some_iff.mp (h.awaited p hp)
    have hexec : ptask.isExecuting = true := congrArg Prod.fst hflags
    simp [htask, TaskThread.cancelled, hexec] at hstep
  · cases hstep

/-- The worker starts a task that has not been freed. -/
theorem TaskCycle.Guarded.execute
    (h : s.Guarded)
    (hp : s.thread.heap p ≠ none) :
    (s.execute p).Guarded := by
  obtain ⟨ptask, htask⟩ := Option.ne_none_iff_exists'.mp hp
  simp only [TaskCycle.execute, htask]
  have hmarked : TaskCycle.Guarded { s with
      thread := { s.thread.written p { ptask with isExecuting := true } with
        worker := .executing p, waiting := s.thread.waiting } } := h.mark htask rfl rfl
    (by
      rintro q ⟨⟩
      exact .inl ⟨rfl, rfl⟩)
    (by
      rintro q next ⟨⟩)
    (by
      intro q hq
      by_cases hqp : q = p
      · have hwas := h.awaited q hq
        rw [hqp, htask, Option.map_some, Option.some_inj] at hwas
        have hcancelled : ptask.isCancelled = true := congrArg Prod.snd hwas
        exact .inl ⟨hqp, by rw [PeriodicTask.flags, hcancelled]⟩
      · exact .inr ⟨hqp, hq⟩)
  exact ⟨hmarked.held, hmarked.unharmed, hmarked.dead, hmarked.once, hmarked.returned,
    hmarked.running, hmarked.ready, hmarked.awaited⟩

/-- The worker is somewhere else, and the tasks are the same. -/
theorem TaskCycle.Guarded.worker
    {w : Worker} {waitState : WaitState}
    (h : s.Guarded)
    (hnot : ∀ p, w ≠ .executing p)
    (hready : ∀ p next, w = .timedWait p next → waitState ≠ .signalled →
      s.thread.heap p ≠ none) :
    TaskCycle.Guarded { s with
      thread := { s.thread with worker := w }
      waitState := waitState } := by
  obtain ⟨l, hheld⟩ := h.held
  exact ⟨⟨l, hheld.threads, hheld.live, hheld.bound⟩, h.unharmed, h.dead, h.once, h.returned,
    fun p hp => absurd hp (hnot p), hready, h.awaited⟩

theorem TaskCycle.Guarded.take
    (h : s.Guarded)
    (hstep : s.take = some u) :
    u.Guarded := by
  obtain ⟨t, ht, hu⟩ := Option.map_eq_some_iff.mp hstep
  unfold TaskThread.take at ht
  split at ht
  · rename_i p hworker hlist
    obtain ⟨ptask, hp, rfl⟩ := Option.map_eq_some_iff.mp ht
    have hlive : s.thread.heap p ≠ none := by simp [hp]
    have htaken := @TaskCycle.Guarded.worker s (.timedWait p ptask.nextScheduledTime) .waiting h
      (by simp) (by
        rintro q next ⟨⟩ -
        exact hlive)
    dsimp only at hu
    split at hu
    · rw [← hu]
      exact htaken.execute hlive
    · rw [← hu]
      exact htaken
  · cases ht

theorem TaskCycle.Guarded.timeOut
    (h : s.Guarded)
    (hstep : s.timeOut = some u) :
    u.Guarded := by
  unfold TaskCycle.timeOut at hstep
  split at hstep
  · rename_i p next hworker hstate
    split at hstep
    · cases hstep
    · cases hstep
      have hkept := @TaskCycle.Guarded.worker s s.thread.worker .timedOut h (by simp [hworker])
        (fun q next hq _ => h.ready q next hq (by simp [hstate]))
      exact hkept
  · cases hstep

theorem TaskCycle.Guarded.wake
    (h : s.Guarded)
    (hstep : s.wake = some u) :
    u.Guarded := by
  unfold TaskCycle.wake at hstep
  split at hstep
  · cases hstep
  · obtain ⟨t, ht, rfl⟩ := Option.map_eq_some_iff.mp hstep
    unfold TaskThread.wake at ht
    split at ht
    · cases ht
      exact h.worker (by simp) (by simp)
    · cases ht

theorem TaskCycle.Guarded.begin
    (h : s.Guarded)
    (hstep : s.begin = some u) :
    u.Guarded := by
  unfold TaskCycle.begin at hstep
  split at hstep
  · rename_i p next hworker hstate
    cases hstep
    exact h.execute (h.ready p next hworker (by simp [hstate]))
  · cases hstep

theorem TaskCycle.Guarded.finish
    (h : s.Guarded)
    (hstep : s.finish = some u) :
    u.Guarded := by
  unfold TaskCycle.finish at hstep
  split at hstep
  · rename_i p hworker
    obtain ⟨ptask, hp, hexec⟩ := h.running p hworker
    obtain ⟨l, hheld⟩ := h.held
    obtain ⟨t, ht, hcase⟩ := hheld.finish hworker hp
    have hidle : TaskCycle.Guarded { s with
        thread := { s.thread with worker := .idle }
        waitState := s.waitState
        completed := Function.update s.completed p (s.completed p + 1) } := by
      have hkept := @TaskCycle.Guarded.worker s .idle s.waitState h (by simp) (by simp)
      exact ⟨hkept.held, hkept.unharmed, hkept.dead, hkept.once, hkept.returned, hkept.running,
        hkept.ready, hkept.awaited⟩
    simp only [hp, ht, Option.map_some, Option.some_inj] at hstep
    subst hstep
    rcases hcase with ⟨hcancelled, rfl⟩ | ⟨hcancelled, hlast, hfreed⟩ | ⟨hcancelled, hlast, hwrote⟩
    · simp only [hcancelled, Bool.not_true, Bool.false_and, Bool.false_eq_true, if_false]
      exact hidle
    · simp only [hcancelled, hlast, Bool.not_false, Bool.true_and, if_true]
      exact hidle.freed (p := p) (by simp [hp]) hfreed (by simp [hp, PeriodicTask.flags, hcancelled])
        (by simp) (by simp) rfl (.inr rfl) rfl rfl (fun q hq => .inr hq)
    · simp only [hcancelled, hlast, Bool.not_false, Bool.and_false, Bool.false_eq_true, if_false]
      have hstopped : TaskCycle.Guarded { s with
          thread := { TaskThread.written { s.thread with worker := .idle } p
              { ptask with isExecuting := false } with
            worker := .idle, waiting := s.thread.waiting }
          completed := Function.update s.completed p (s.completed p + 1) } := hidle.mark hp rfl rfl
        (by simp) (by simp) (by
          intro q hq
          refine .inr ⟨?_, hq⟩
          rintro rfl
          have hmarked := h.awaited q hq
          simp [hp, PeriodicTask.flags, hcancelled] at hmarked)
      have hwrote' : (TaskThread.written { s.thread with worker := .idle } p
          { ptask with isExecuting := false }).Wrote t p ptask.executed :=
        ⟨hwrote.held, by rw [written_written]; exact hwrote.relinked⟩
      exact hstopped.wrote heap_written_self (by simp [PeriodicTask.flags, PeriodicTask.executed,
        PeriodicTask.dueAfter]) hwrote' false
  · cases hstep

theorem TaskCycle.Guarded.step
    {op : CycleOp}
    (h : s.Guarded)
    (hwait : TaskCycle.waits op = true)
    (hspares : s.sparesTimedOut op = true)
    (hstep : s.step op = some u) :
    u.Guarded := by
  cases op with
  | tick now => exact h.tick hstep
  | schedule period executeTimes => exact h.schedule hstep
  | reschedule id period executeTimes add => exact h.reschedule hstep
  | reset id => exact h.reset hstep
  | cancel id wait => exact h.cancel hwait hspares hstep
  | cancelled p => exact (h.cancelled hstep).elim
  | take => exact h.take hstep
  | timeOut => exact h.timeOut hstep
  | wake => exact h.wake hstep
  | begin => exact h.begin hstep
  | finish => exact h.finish hstep

theorem TaskCycle.guarded_init (clock : Timespec) : (TaskCycle.init clock).Guarded where
  held := ⟨[], held_init clock⟩
  unharmed := rfl
  dead := by simp [TaskCycle.init]
  once := List.nodup_nil
  returned := by simp [TaskCycle.init]
  running := by simp [TaskCycle.init, TaskThread.init]
  ready := by simp [TaskCycle.init, TaskThread.init]
  awaited := by simp [TaskCycle.init, TaskThread.init]

theorem TaskCycle.Guarded.safe (h : s.Guarded) : s.Safe := by
  refine ⟨h.unharmed, h.once, ?_, ?_⟩
  · intro p hp hworker
    obtain ⟨ptask, htask, -⟩ := h.running p hworker
    exact h.not_freed (by simp [htask]) (h.returned p hp)
  · intro id wait add period executeTimes
    obtain ⟨l, hheld⟩ := h.held
    obtain ⟨t₁, hcancel, -⟩ := hheld.cancel id wait
    obtain ⟨t₂, hreset, -⟩ := hheld.reset id
    obtain ⟨t₃, hschedule, -⟩ := hheld.schedule period executeTimes
    obtain ⟨t₄, hreschedule, -⟩ := hheld.reschedule id period executeTimes add
    refine ⟨?_, ?_, ?_, ?_⟩
    · simp [TaskCycle.cancel, hcancel]
    · simp [TaskCycle.reset, hreset]
    · unfold TaskCycle.schedule
      split
      · rfl
      · simp [hschedule]
    · simp [TaskCycle.reschedule, hreschedule]

end Guard

section Runs

/-- Cancelling is safe in every run in which no call frees the task that the worker is about to
execute. -/
theorem cancelled_tasks_rest
    {clock : Timespec}
    (s : TaskCycle)
    (hs : Runs.Reaches TaskCycle.step
      (fun s op => (TaskCycle.waits op && s.sparesTimedOut op) = true) (.init clock) s) :
    s.Safe := by
  refine TaskCycle.Guarded.safe (hs.invariant ?_ (TaskCycle.guarded_init clock))
  intro s op u h hok hstep
  obtain ⟨hwait, hspares⟩ := (Bool.and_eq_true _ _).mp hok
  exact h.step hwait hspares hstep

/-- A task is cancelled while the worker waits for it, and another one while it is executed. -/
def cancelOps : List CycleOp :=
  [.schedule 1000 (-1), .take, .cancel 1 true, .wake, .schedule 2000 (-1), .take,
    .tick ⟨102, 0⟩, .timeOut, .begin, .cancel 2 true, .finish]

theorem cancelled_tasks_rest_sample :
    ∃ s, Runs.exec TaskCycle.step (.init ⟨100, 0⟩) cancelOps = some s ∧
      s.freed = [3145728] ∧ s.Safe := by
  have heval : (Runs.exec TaskCycle.step (.init ⟨100, 0⟩) cancelOps).map TaskCycle.freed =
      some [3145728] := by
    decide +kernel
  obtain ⟨s, hexec, hfreed⟩ := Option.map_eq_some_iff.mp heval
  have hmeets : Runs.meets TaskCycle.step
      (fun s op => TaskCycle.waits op && s.sparesTimedOut op) (.init ⟨100, 0⟩) cancelOps = true := by
    decide +kernel
  exact ⟨s, hexec, hfreed, cancelled_tasks_rest s (Runs.Reaches.refl.exec cancelOps hmeets hexec)⟩

/-- A task is cancelled when its wait is over. -/
def cancelLateOps : List CycleOp :=
  [.schedule 1000 (-1), .take, .tick ⟨101, 0⟩, .timeOut, .cancel 1 true, .begin]

/-- The worker executes a freed task. -/
theorem cancelled_task_executed :
    ∃ s, Runs.exec TaskCycle.step (.init ⟨100, 0⟩) cancelLateOps = some s ∧
      s.stale = [3145728] ∧ 3145728 ∈ s.returned ∧ s.thread.worker = .executing 3145728 ∧
      ¬ s.Safe := by
  have heval : (Runs.exec TaskCycle.step (.init ⟨100, 0⟩) cancelLateOps).map (fun s =>
      (s.stale, s.returned, s.thread.worker)) =
      some ([3145728], [3145728], .executing 3145728) := by
    decide +kernel
  obtain ⟨s, hexec, hresult⟩ := Option.map_eq_some_iff.mp heval
  simp only [Prod.mk.injEq] at hresult
  obtain ⟨hstale, hreturned, hworker⟩ := hresult
  refine ⟨s, hexec, hstale, by simp [hreturned], hworker, ?_⟩
  intro hsafe
  exact hsafe.rest 3145728 (by simp [hreturned]) hworker

end Runs

end Obix
