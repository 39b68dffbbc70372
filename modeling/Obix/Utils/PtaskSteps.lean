import Obix.Utils.PtaskLinks

/-!
# What calls do to the tasks

One lemma for each call and for the end of an execution: on a well formed list it goes through,
leaves a well formed list behind, and writes to one task, makes one or frees one.
-/

namespace Obix

section Data

variable {s s' : TaskThread} {p q : Nat} {ptask ptask' : PeriodicTask}

theorem heap_written_of_ne
    (hq : q ≠ p) :
    (s.written p ptask).heap q = s.heap q := by
  simp [TaskThread.written, hq]

@[simp] theorem heap_without_self : (s.without p).heap p = none := by
  simp [TaskThread.without]

/-- What is not a pointer stays. -/
theorem Relinked.fields
    (h : Relinked s s') :
    s'.worker = s.worker ∧ s'.waiting = s.waiting ∧ s'.brk = s.brk ∧ s'.clock = s.clock := by
  rw [h.rest]
  exact ⟨rfl, rfl, rfl, rfl⟩

theorem written_without : (s.written p ptask).without p = s.without p := by
  simp [TaskThread.written, TaskThread.without]

end Data

section Search

namespace TaskThread

variable (s : TaskThread)

/-- The task with an id, if there is one and it passes a test. -/
def found (id : Nat) (f : PeriodicTask → Bool) : Option Nat :=
  (s.get id).join.filter fun p => (s.heap p).any f

/-- The task that `ptask_reset` writes to. -/
def resets (id : Nat) : Option Nat := s.found id fun _ => true

/-- The task that `ptask_reschedule` writes to; `timespec_add` or the test of the period may
fail. -/
def reschedules (id : Nat) (period executeTimes : Int) (add : Bool) : Option Nat :=
  if executeTimes = 0 then none
  else
    s.found id fun ptask =>
      if add then timespecNonneg (timespecAdd ptask.period (timespecFromMillis period))
      else 0 ≤ period

/-- The task that `ptask_cancel` frees at once. -/
def cancelFrees (id : Nat) (wait : Bool) : Option Nat :=
  s.found id fun ptask => !ptask.isCancelled && !(ptask.isExecuting && wait)

end TaskThread

variable {t : TaskThread} {p : Nat} {ptask : PeriodicTask} {id : Nat} {f : PeriodicTask → Bool}

theorem found_eq_some
    (hget : t.get id = some (some p))
    (hp : t.heap p = some ptask)
    (hf : f ptask = true) :
    t.found id f = some p := by
  simp [TaskThread.found, hget, hp, hf]

theorem found_eq_none
    (hget : t.get id = some (some p))
    (hp : t.heap p = some ptask)
    (hf : f ptask = false) :
    t.found id f = none := by
  simp [TaskThread.found, hget, hp, hf]

theorem found_none
    (hget : t.get id = some none) :
    t.found id f = none := by
  simp [TaskThread.found, hget]

end Search

section Calls

variable {s s' : TaskThread} {p : Nat} {l : List Nat} {ptask ptask' : PeriodicTask}

/-- A task is written to and moved to its place. -/
structure TaskThread.Wrote (s s' : TaskThread) (p : Nat) (ptask' : PeriodicTask) : Prop where
  held : ∃ l, s'.Held l
  relinked : Relinked (s.written p ptask') s'

/-- A task is taken out and freed. -/
structure TaskThread.Freed (s s' : TaskThread) (p : Nat) : Prop where
  held : ∃ l, s'.Held l
  relinked : Relinked (s.without p) s'

section Maps

variable {β : Type} {f : PeriodicTask → β}

/-- What does not depend on the pointers of a task stays. -/
theorem Relinked.map
    (h : Relinked s s')
    (hf : ∀ task : PeriodicTask, f task.bare = f task)
    (q : Nat) :
    (s'.heap q).map f = (s.heap q).map f := by
  have hbare := congrArg (Option.map f) (h.bare q)
  rw [Option.map_map, Option.map_map] at hbare
  have hcomp : f ∘ PeriodicTask.bare = f := funext hf
  rwa [hcomp] at hbare

theorem TaskThread.Wrote.map
    (h : s.Wrote s' p ptask')
    (hf : ∀ task : PeriodicTask, f task.bare = f task)
    (q : Nat) :
    (s'.heap q).map f = if q = p then some (f ptask') else (s.heap q).map f := by
  rw [h.relinked.map hf]
  split
  · rename_i hq
    subst hq
    rw [heap_written_self, Option.map_some]
  · rename_i hq
    rw [heap_written_of_ne hq]

theorem TaskThread.Freed.map
    (h : s.Freed s' p)
    (hf : ∀ task : PeriodicTask, f task.bare = f task)
    (q : Nat) :
    (s'.heap q).map f = if q = p then none else (s.heap q).map f := by
  rw [h.relinked.map hf]
  split
  · rename_i hq
    subst hq
    rw [heap_without_self, Option.map_none]
  · rename_i hq
    rw [heap_without_of_ne hq]

theorem Relinked.map_allocated
    (h : Relinked (s.allocated ptask) s')
    (hf : ∀ task : PeriodicTask, f task.bare = f task)
    (q : Nat) :
    (s'.heap q).map f = if q = s.brk then some (f ptask) else (s.heap q).map f := by
  rw [h.map hf]
  split
  · rename_i hq
    subst hq
    rw [heap_allocated_self, Option.map_some]
  · rename_i hq
    rw [heap_allocated_of_ne hq]

end Maps

/-- The task that is written to is there, and so are the others. -/
theorem TaskThread.Wrote.live
    (h : s.Wrote s' p ptask')
    (hp : s.heap p = some ptask)
    (q : Nat) :
    s'.heap q = none ↔ s.heap q = none := by
  rw [← not_iff_not, ← ne_eq, h.relinked.live]
  by_cases hq : q = p
  · subst hq
    simp [hp]
  · rw [heap_written_of_ne hq]

theorem TaskThread.Freed.live
    (h : s.Freed s' p)
    (q : Nat) :
    s'.heap q = none ↔ q = p ∨ s.heap q = none := by
  rw [← not_iff_not, ← ne_eq, h.relinked.live]
  by_cases hq : q = p
  · subst hq
    simp
  · rw [heap_without_of_ne hq]
    simp [hq]

theorem Relinked.live_allocated
    (h : Relinked (s.allocated ptask) s')
    (q : Nat) :
    s'.heap q = none ↔ q ≠ s.brk ∧ s.heap q = none := by
  rw [← not_iff_not, ← ne_eq, h.live]
  by_cases hq : q = s.brk
  · subst hq
    simp
  · rw [heap_allocated_of_ne hq]
    simp [hq]

theorem TaskThread.Held.generateNextExecTime
    (h : s.Held l)
    (hp : s.heap p = some ptask) :
    ∃ s', s.generateNextExecTime p false = some s' ∧
      s.Wrote s' p (ptask.dueAfter ptask.nextScheduledTime) := by
  obtain ⟨l₁, l₂, rfl⟩ := h.split hp
  obtain ⟨s', hs', hrelinked, hthreads⟩ := generateNextExecTime_links h hp
  have hwritten : (s.written p (ptask.dueAfter ptask.nextScheduledTime)).Held (l₁ ++ p :: l₂) :=
    h.written hp rfl rfl
  have hheld := hwritten.relinked hrelinked hthreads (placed_perm.trans List.perm_middle.symm)
  exact ⟨s', hs', ⟨_, hheld⟩, hrelinked⟩

theorem TaskThread.Held.resetExecTime
    (h : s.Held l)
    (hp : s.heap p = some ptask) :
    ∃ s', s.resetExecTime p false = some s' ∧ s.Wrote s' p (ptask.dueAfter s.clock) := by
  obtain ⟨l₁, l₂, rfl⟩ := h.split hp
  obtain ⟨s', hs', hrelinked, hthreads⟩ := resetExecTime_links h hp
  have hwritten : (s.written p (ptask.dueAfter s.clock)).Held (l₁ ++ p :: l₂) :=
    h.written hp rfl rfl
  have hheld := hwritten.relinked hrelinked hthreads (placed_perm.trans List.perm_middle.symm)
  exact ⟨s', hs', ⟨_, hheld⟩, hrelinked⟩

theorem TaskThread.Held.dispose
    (h : s.Held l)
    (hp : s.heap p = some ptask) :
    ∃ s', s.dispose p = some s' ∧ s.Freed s' p := by
  obtain ⟨l₁, l₂, rfl⟩ := h.split hp
  obtain ⟨s', hs', hrelinked, hthreads⟩ := dispose_links h
  exact ⟨s', hs', ⟨_, h.without hrelinked hthreads⟩, hrelinked⟩

/-- A search finds a task, or none. -/
theorem TaskThread.Held.get
    (h : s.Held l)
    (id : Nat) :
    s.get id = some none ∨ ∃ p ptask, s.get id = some (some p) ∧ s.heap p = some ptask := by
  obtain ⟨r, hr, hmem⟩ := get_spec h id
  cases r with
  | none => exact .inl hr
  | some p =>
      obtain ⟨ptask, hp⟩ := Option.ne_none_iff_exists'.mp ((h.live p).mpr (hmem p rfl))
      exact .inr ⟨p, ptask, hr, hp⟩

theorem TaskThread.Held.schedule
    (h : s.Held l)
    (period executeTimes : Int) :
    ∃ s', s.schedule period executeTimes = some s' ∧ (∃ l', s'.Held l') ∧
      ((executeTimes ≤ 0 ∧ executeTimes ≠ executeIndefinite ∧ s' = s) ∨
        (¬ (executeTimes ≤ 0 ∧ executeTimes ≠ executeIndefinite) ∧
          Relinked (s.allocated (s.newTask period executeTimes)) s')) := by
  unfold TaskThread.schedule
  split
  · rename_i hrefused
    exact ⟨s, rfl, ⟨l, h⟩, .inl ⟨hrefused.1, hrefused.2, rfl⟩⟩
  · rename_i hgood
    obtain ⟨s', hs', hrelinked, hthreads⟩ :=
      @create_links _ _ period executeTimes h
    exact ⟨s', hs', ⟨_, h.allocated hrelinked hthreads placed_perm⟩, .inr ⟨hgood, hrelinked⟩⟩

theorem TaskThread.Held.reset
    (h : s.Held l)
    (id : Nat) :
    ∃ s', s.reset id = some s' ∧
      ((s.resets id = none ∧ s' = s) ∨
        ∃ p ptask, s.resets id = some p ∧ s.heap p = some ptask ∧
          s.Wrote s' p (ptask.dueAfter s.clock)) := by
  rcases h.get id with hnone | ⟨p, ptask, hget, hp⟩
  · exact ⟨s, by simp [TaskThread.reset, hnone], .inl ⟨found_none hnone, rfl⟩⟩
  · obtain ⟨s', hs', hwrote⟩ := h.resetExecTime hp
    refine ⟨s', ?_, .inr ⟨p, ptask, found_eq_some hget hp rfl, hp, hwrote⟩⟩
    simpa [TaskThread.reset, hget] using hs'

/-- The task after `ptask_reschedule`, when it goes through. -/
def PeriodicTask.rescheduled
    (ptask : PeriodicTask)
    (clock : Timespec)
    (period executeTimes : Int)
    (add : Bool) :
    PeriodicTask :=
  if add then
    { ptask with
      period := timespecAdd ptask.period (timespecFromMillis period)
      nextScheduledTime := timespecAdd ptask.nextScheduledTime (timespecFromMillis period)
      executeTimes := executeTimes }
  else
    PeriodicTask.dueAfter
      { ptask with period := timespecFromMillis period, executeTimes := executeTimes } clock

theorem TaskThread.Held.reschedule
    (h : s.Held l)
    (id : Nat)
    (period executeTimes : Int)
    (add : Bool) :
    ∃ s', s.reschedule id period executeTimes add = some s' ∧
      ((s.reschedules id period executeTimes add = none ∧ s' = s) ∨
        ∃ p ptask, s.reschedules id period executeTimes add = some p ∧ s.heap p = some ptask ∧
          s.Wrote s' p (ptask.rescheduled s.clock period executeTimes add)) := by
  unfold TaskThread.reschedules
  by_cases htimes : executeTimes = 0
  · exact ⟨s, by simp [TaskThread.reschedule, htimes], .inl ⟨if_pos htimes, rfl⟩⟩
  rw [if_neg htimes]
  rcases h.get id with hnone | ⟨p, ptask, hget, hp⟩
  · exact ⟨s, by simp [TaskThread.reschedule, htimes, hnone], .inl ⟨found_none hnone, rfl⟩⟩
  cases add with
  | true =>
      by_cases hnonneg :
          timespecNonneg (timespecAdd ptask.period (timespecFromMillis period)) = true
      · have hheld : (s.written p (ptask.rescheduled s.clock period executeTimes true)).Held l :=
          h.written hp rfl rfl
        refine ⟨_, ?_, .inr ⟨p, ptask, found_eq_some hget hp (by simpa using hnonneg), hp,
          ⟨l, hheld⟩, fun _ => rfl, rfl⟩⟩
        simp [TaskThread.reschedule, htimes, hget, hp, hnonneg, modify_eq_written hp,
          PeriodicTask.rescheduled]
      · refine ⟨s, ?_, .inl ⟨found_eq_none hget hp (by simpa using hnonneg), rfl⟩⟩
        simp [TaskThread.reschedule, htimes, hget, hp, hnonneg]
  | false =>
      by_cases hperiod : period < 0
      · refine ⟨s, ?_, .inl ⟨found_eq_none hget hp (by simpa using hperiod), rfl⟩⟩
        simp [TaskThread.reschedule, htimes, hget, hp, hperiod]
      · have hwritten : (s.written p { ptask with
            period := timespecFromMillis period, executeTimes := executeTimes }).Held l :=
          h.written hp rfl rfl
        obtain ⟨s', hs', hheld, hrelinked⟩ := hwritten.resetExecTime heap_written_self
        rw [written_written] at hrelinked
        refine ⟨s', ?_, .inr ⟨p, ptask, found_eq_some hget hp (by simpa using hperiod), hp, hheld,
          hrelinked⟩⟩
        simpa [TaskThread.reschedule, htimes, hget, hp, hperiod, modify_eq_written hp] using hs'

theorem TaskThread.Held.cancel
    (h : s.Held l)
    (id : Nat)
    (wait : Bool) :
    ∃ s', s.cancel id wait = some s' ∧
      ((s.cancelFrees id wait = none ∧ s' = s) ∨
        (s.cancelFrees id wait = none ∧ ∃ p ptask, s.heap p = some ptask ∧
          ptask.isCancelled = false ∧ ptask.isExecuting = true ∧ wait = true ∧
          s' = { s.written p { ptask with isCancelled := true } with
            waiting := p :: s.waiting }) ∨
        ∃ p ptask, s.cancelFrees id wait = some p ∧ s.heap p = some ptask ∧
          ptask.isCancelled = false ∧ (ptask.isExecuting && wait) = false ∧ s.Freed s' p) := by
  rcases h.get id with hnone | ⟨p, ptask, hget, hp⟩
  · exact ⟨s, by simp [TaskThread.cancel, hnone], .inl ⟨found_none hnone, rfl⟩⟩
  cases hcancelled : ptask.isCancelled with
  | true =>
      refine ⟨s, ?_, .inl ⟨found_eq_none hget hp (by simp [hcancelled]), rfl⟩⟩
      simp [TaskThread.cancel, hget, hp, hcancelled]
  | false =>
      cases hwaits : ptask.isExecuting && wait with
      | true =>
          obtain ⟨hexec, hwait⟩ := (Bool.and_eq_true _ _).mp hwaits
          refine ⟨_, ?_, .inr (.inl ⟨found_eq_none hget hp (by simp [hcancelled, hwaits]), p, ptask,
            hp, hcancelled, hexec, hwait, rfl⟩)⟩
          simp [TaskThread.cancel, hget, hp, hcancelled, hexec, hwait, modify_eq_written hp,
            TaskThread.written]
      | false =>
          have hwritten : (s.written p { ptask with isCancelled := true }).Held l :=
            h.written hp rfl rfl
          obtain ⟨s', hs', hheld, hrelinked⟩ := hwritten.dispose heap_written_self
          rw [written_without] at hrelinked
          refine ⟨s', ?_, .inr (.inr ⟨p, ptask, found_eq_some hget hp (by simp [hcancelled, hwaits]),
            hp, hcancelled, hwaits, hheld, hrelinked⟩)⟩
          have hnot : ¬ (ptask.isExecuting = true ∧ wait = true) := by
            rw [← Bool.and_eq_true, hwaits]
            simp
          simpa [TaskThread.cancel, hget, hp, hcancelled, hnot, modify_eq_written hp] using hs'

/-- The task after an execution that is not its last one. -/
def PeriodicTask.executed (ptask : PeriodicTask) : PeriodicTask :=
  PeriodicTask.dueAfter
    { ptask with
      isExecuting := false
      executeTimes :=
        if ptask.executeTimes = executeIndefinite then ptask.executeTimes
        else ptask.executeTimes - 1 }
    ptask.nextScheduledTime

/-- Whether an execution is the last one. -/
def PeriodicTask.lastTime (ptask : PeriodicTask) : Bool :=
  ptask.executeTimes ≠ executeIndefinite ∧ ptask.executeTimes - 1 = 0

theorem TaskThread.Held.finish
    (h : s.Held l)
    (hworker : s.worker = .executing p)
    (hp : s.heap p = some ptask) :
    ∃ s', s.finish = some s' ∧
      ((ptask.isCancelled = true ∧ s' = { s with worker := .idle }) ∨
        (ptask.isCancelled = false ∧ ptask.lastTime = true ∧
          TaskThread.Freed { s with worker := .idle } s' p) ∨
        (ptask.isCancelled = false ∧ ptask.lastTime = false ∧
          TaskThread.Wrote { s with worker := .idle } s' p ptask.executed)) := by
  have hidle : TaskThread.Held { s with worker := .idle } l := ⟨h.threads, h.live, h.bound⟩
  have hat : TaskThread.heap { s with worker := .idle } p = some ptask := hp
  cases hcancelled : ptask.isCancelled with
  | true =>
      refine ⟨{ s with worker := .idle }, ?_, .inl ⟨rfl, rfl⟩⟩
      simp [TaskThread.finish, hworker, hp, hcancelled]
  | false =>
      have hstopped : (TaskThread.written { s with worker := .idle } p
          { ptask with isExecuting := false }).Held l :=
        hidle.written hat rfl rfl
      have hfinish : s.finish =
          if ptask.executeTimes = executeIndefinite then
            (TaskThread.written { s with worker := .idle } p
              { ptask with isExecuting := false }).generateNextExecTime p false
          else if ptask.executeTimes - 1 = 0 then
            (TaskThread.written { s with worker := .idle } p
              { ptask with isExecuting := false }).dispose p
          else
            (TaskThread.written { s with worker := .idle } p
              { ptask with
                isExecuting := false
                executeTimes := ptask.executeTimes - 1 }).generateNextExecTime p false := by
        simp [TaskThread.finish, hworker, hp, hcancelled, modify_eq_written hat,
          modify_eq_written heap_written_self, written_written]
      by_cases hforever : ptask.executeTimes = executeIndefinite
      · obtain ⟨s', hs', hheld, hrelinked⟩ :=
          hstopped.generateNextExecTime heap_written_self
        rw [written_written] at hrelinked
        refine ⟨s', by rw [hfinish, if_pos hforever, hs'], .inr (.inr ⟨rfl, ?_, hheld, ?_⟩)⟩
        · simp [PeriodicTask.lastTime, hforever]
        · rw [PeriodicTask.executed, if_pos hforever]
          exact hrelinked
      · by_cases hlast : ptask.executeTimes - 1 = 0
        · obtain ⟨s', hs', hheld, hrelinked⟩ := hstopped.dispose heap_written_self
          rw [written_without] at hrelinked
          refine ⟨s', by rw [hfinish, if_neg hforever, if_pos hlast, hs'],
            .inr (.inl ⟨rfl, ?_, hheld, hrelinked⟩)⟩
          simp [PeriodicTask.lastTime, hforever, hlast]
        · have hcounted : (TaskThread.written { s with worker := .idle } p
              { ptask with
                isExecuting := false
                executeTimes := ptask.executeTimes - 1 }).Held l :=
            hidle.written hat rfl rfl
          obtain ⟨s', hs', hheld, hrelinked⟩ := hcounted.generateNextExecTime heap_written_self
          rw [written_written] at hrelinked
          refine ⟨s', by rw [hfinish, if_neg hforever, if_neg hlast, hs'],
            .inr (.inr ⟨rfl, ?_, hheld, ?_⟩)⟩
          · simp [PeriodicTask.lastTime, hlast]
          · rw [PeriodicTask.executed, if_neg hforever]
            exact hrelinked

end Calls

end Obix
