import Obix.Lib.Runs
import Obix.Utils.PtaskMoves
import Obix.Utils.PtaskOrder

/-!
# Tasks are not executed early

The worker executes a task because the wait for its due time is over.  A signal takes it out of
the wait, so that a task that is reset is waited for anew, unless the wait is over already: then
the worker executes the task whatever its due time is now.  As long as no call makes the task
that the worker is about to execute due later than now, no task is executed before it is due
(`tasks_not_early`).
-/

namespace Obix

section Times

variable {time time₁ time₂ : Timespec}

/-- What `timespec_add` guarantees: nanoseconds are negative only in times before the epoch. -/
structure Timespec.Shaped (time : Timespec) : Prop where
  nsec_lt : time.nsec < 1000000000
  sec : time.nsec < 0 → time.sec ≤ 0

theorem timespecAdd_shaped (time₁ time₂ : Timespec) : (timespecAdd time₁ time₂).Shaped := by
  have hlt := Int.tmod_lt_of_pos (time₁.nsec + time₂.nsec) (b := 1000000000) (by decide)
  have hgt := Int.lt_tmod_of_pos (time₁.nsec + time₂.nsec) (b := 1000000000) (by decide)
  unfold timespecAdd
  dsimp only
  split_ifs with hborrow hcarry
  · exact ⟨by dsimp only; omega, fun hneg => by dsimp only at hneg; omega⟩
  · exact ⟨by dsimp only; omega, fun hneg => by dsimp only at hneg ⊢; omega⟩
  · exact ⟨by dsimp only; omega, fun hneg => by dsimp only at hneg ⊢; omega⟩

/-- A time that is not normalised is past. -/
theorem Timespec.Shaped.past
    (h : time₁.Shaped)
    (hclock : time₂.Valid)
    (hinvalid : time₁.nsec < 0 ∨ 1000000000 ≤ time₁.nsec) :
    timespecCmp time₁ time₂ ≠ 1 := by
  have hneg : time₁.nsec < 0 := hinvalid.resolve_right (not_le.mpr h.nsec_lt)
  have hsec := h.sec hneg
  have hclocksec := hclock.sec
  have hclocknsec := hclock.nsec
  rw [timespecCmp_ne_one_iff]
  omega

end Times

namespace TaskCycle

variable (s : TaskCycle)

/-- If a call writes to the task whose wait is over, its new due time is not later than now. -/
def staysDue (hit : Option Nat) (due : PeriodicTask → Timespec) : Bool :=
  match s.thread.worker, s.waitState with
  | .timedWait p _, .timedOut =>
      hit ≠ some p ||
        (s.thread.heap p).all fun ptask => timespecCmp (due ptask) s.thread.clock ≠ 1
  | _, _ => true

/-- No call makes the task that the worker is about to execute due later. -/
def keepsDue : CycleOp → Bool
  | .reset id =>
      s.staysDue (s.thread.resets id) fun ptask => timespecAdd s.thread.clock ptask.period
  | .reschedule id period executeTimes add =>
      s.staysDue (s.thread.reschedules id period executeTimes add) fun ptask =>
        if add then timespecAdd ptask.nextScheduledTime (timespecFromMillis period)
        else timespecAdd s.thread.clock (timespecFromMillis period)
  | _ => true

/-- The worker waits for the due time of its task, which is not later than now when the wait is
over, and no task has been executed early. -/
structure OnTime (s : TaskCycle) : Prop where
  clock : s.thread.clock.Valid
  shaped : ∀ p ptask, s.thread.heap p = some ptask → ptask.nextScheduledTime.Shaped
  due : ∀ p next, s.thread.worker = .timedWait p next → s.waitState = .waiting →
    s.thread.due p = next
  ripe : ∀ p next, s.thread.worker = .timedWait p next → s.waitState = .timedOut →
    timespecCmp (s.thread.due p) s.thread.clock ≠ 1
  punctual : s.early = []

end TaskCycle

section Steps

variable {s u : TaskCycle} {op : CycleOp} {p : Nat} {ptask ptask' : PeriodicTask}

theorem staysDue_spec
    {hit : Option Nat} {due : PeriodicTask → Timespec} {next : Timespec}
    (h : s.staysDue hit due = true)
    (hhit : hit = some p)
    (hp : s.thread.heap p = some ptask)
    (hworker : s.thread.worker = .timedWait p next)
    (hstate : s.waitState = .timedOut) :
    timespecCmp (due ptask) s.thread.clock ≠ 1 := by
  simpa [TaskCycle.staysDue, hworker, hstate, hhit, hp] using h

theorem TaskThread.Wrote.due
    {t t' : TaskThread}
    (h : t.Wrote t' p ptask')
    (q : Nat) :
    t'.due q = if q = p then ptask'.nextScheduledTime else t.due q := by
  rw [h.relinked.due]
  split
  · rename_i hq
    rw [hq, due_written_self]
  · rename_i hq
    rw [due_written_of_ne hq]

/-- A signal does not end a wait by its time. -/
theorem timedOut_of_signal
    {r : Bool}
    (h : (s.signal r).waitState = .timedOut) :
    s.waitState = .timedOut := by
  rcases signal_waitState (s := s) r with hsignalled | hsame
  · rw [h] at hsignalled
    cases hsignalled
  · rw [← hsame, h]

theorem due_of_heap
    {t : TaskThread}
    (hp : t.heap p = some ptask) :
    t.due p = ptask.nextScheduledTime := by
  simp [TaskThread.due, hp]

/-- A task that the worker may be waiting for gets another due time. -/
theorem TaskCycle.OnTime.wrote
    {t : TaskThread}
    (h : s.OnTime)
    (hwrote : s.thread.Wrote t p ptask')
    (hshaped : ptask'.nextScheduledTime.Shaped)
    (hkeeps : ∀ next, s.thread.worker = .timedWait p next → s.waitState = .timedOut →
      timespecCmp ptask'.nextScheduledTime s.thread.clock ≠ 1) :
    TaskCycle.OnTime { s.signal true with thread := t } := by
  obtain ⟨hworker, -, -, hclock⟩ := hwrote.relinked.fields
  refine ⟨hclock ▸ h.clock, ?_, ?_, ?_, (signal_early true).trans h.punctual⟩
  · intro q qtask hq
    have hmap := hwrote.map (f := PeriodicTask.nextScheduledTime) (fun _ => rfl) q
    rw [show t.heap q = some qtask from hq, Option.map_some] at hmap
    split at hmap
    · rw [Option.some_inj.mp hmap]
      exact hshaped
    · obtain ⟨qtask', hq', hsame⟩ := Option.map_eq_some_iff.mp hmap.symm
      rw [← hsame]
      exact h.shaped q qtask' hq'
  · intro q next hq hstate
    exact absurd hstate signal_true_ne_waiting
  · intro q next hq hstate
    have hq : s.thread.worker = .timedWait q next := hworker ▸ hq
    have hbefore : s.waitState = .timedOut := timedOut_of_signal hstate
    dsimp only
    rw [hwrote.due, hclock]
    split
    · rename_i hqp
      subst hqp
      exact hkeeps next hq hbefore
    · exact h.ripe q next hq hbefore

/-- The worker starts a task that is due. -/
theorem TaskCycle.OnTime.execute
    (h : s.OnTime)
    (hp : s.thread.heap p = some ptask)
    (hle : timespecCmp ptask.nextScheduledTime s.thread.clock ≠ 1) :
    (s.execute p).OnTime := by
  rw [execute_of_live hp, if_neg hle]
  refine ⟨h.clock, ?_, ?_, ?_, h.punctual⟩
  · intro q qtask hq
    by_cases hqp : q = p
    · subst hqp
      have hself : (s.thread.written q { ptask with isExecuting := true }).heap q = some qtask := hq
      rw [heap_written_self] at hself
      cases hself
      exact h.shaped q ptask hp
    · exact h.shaped q qtask ((heap_written_of_ne hqp).symm.trans hq)
  · rintro q next ⟨⟩
  · rintro q next ⟨⟩

theorem TaskCycle.OnTime.taken
    (h : s.OnTime)
    (hp : s.thread.heap p = some ptask) :
    (s.taken p ptask.nextScheduledTime).OnTime := by
  refine ⟨h.clock, h.shaped, ?_, ?_, h.punctual⟩
  · rintro q next ⟨⟩ -
    exact due_of_heap hp
  · rintro q next - ⟨⟩

/-- The worker waits for no task. -/
theorem TaskCycle.OnTime.of_idle
    (hclock : u.thread.clock.Valid)
    (hshaped : ∀ p ptask, u.thread.heap p = some ptask → ptask.nextScheduledTime.Shaped)
    (hworker : u.thread.worker = .idle)
    (hearly : u.early = []) :
    u.OnTime := by
  refine ⟨hclock, hshaped, ?_, ?_, hearly⟩
  · intro p next hp
    rw [hworker] at hp
    cases hp
  · intro p next hp
    rw [hworker] at hp
    cases hp

theorem TaskCycle.OnTime.of_move
    (h : s.OnTime)
    (hlive : s.Undisturbed)
    (hkeeps : s.keepsDue op = true)
    (hmove : s.Move op u) :
    u.OnTime := by
  cases hmove with
  | @tick now hvalid hnsec hle =>
      have hclock : now.Valid := by
        simp only [timespecNonneg, Bool.decide_and, Bool.and_eq_true, decide_eq_true_eq] at hvalid
        exact ⟨hvalid.1, hvalid.2, hnsec⟩
      exact ⟨hclock, h.shaped, h.due, fun p next hp hstate =>
        timespecCmp_trans (h.ripe p next hp hstate) hle, h.punctual⟩
  | refused => exact h
  | schedule hgood hheld hmade =>
      obtain ⟨hworker, -, -, hclock⟩ := hmade.fields
      refine ⟨hclock ▸ h.clock, ?_, ?_, ?_, (signal_early true).trans h.punctual⟩
      · intro q qtask hq
        have hmap := hmade.map_allocated (f := PeriodicTask.nextScheduledTime) (fun _ => rfl) q
        rw [show _ = some qtask from hq, Option.map_some] at hmap
        split at hmap
        · rw [Option.some_inj.mp hmap]
          exact timespecAdd_shaped _ _
        · obtain ⟨qtask', hq', hsame⟩ := Option.map_eq_some_iff.mp hmap.symm
          rw [← hsame]
          exact h.shaped q qtask' hq'
      · intro q next hq hstate
        exact absurd hstate signal_true_ne_waiting
      · intro q next hq hstate
        have hq : s.thread.worker = .timedWait q next := hworker ▸ hq
        obtain ⟨l, hheld⟩ := hlive.held
        have hqlive : s.thread.heap q ≠ none := hlive.current q (by rw [hq]; rfl)
        have hold : q ≠ s.thread.brk :=
          Nat.ne_of_lt (hheld.bound q ((hheld.live q).mp hqlive))
        dsimp only
        rw [hmade.due, hclock, TaskThread.due, heap_allocated_of_ne hold]
        exact h.ripe q next hq (timedOut_of_signal hstate)
  | @reset id p ptask t hhit hp hwrote =>
      refine h.wrote hwrote (timespecAdd_shaped _ _) ?_
      intro next hworker hstate
      have hle := staysDue_spec hkeeps hhit hp hworker hstate
      exact hle
  | @reschedule id p period executeTimes add ptask t hhit hp hwrote =>
      have hdue : (ptask.rescheduled s.thread.clock period executeTimes add).nextScheduledTime =
          if add then timespecAdd ptask.nextScheduledTime (timespecFromMillis period)
          else timespecAdd s.thread.clock (timespecFromMillis period) := by
        cases add <;> rfl
      refine h.wrote hwrote ?_ ?_
      · rw [hdue]
        split <;> exact timespecAdd_shaped _ _
      · intro next hworker hstate
        have hle := staysDue_spec hkeeps hhit hp hworker hstate
        rwa [hdue]
  | take hworker hp => exact h.taken hp
  | takeNow hworker hp hinvalid =>
      exact (h.taken hp).execute hp ((h.shaped _ _ hp).past h.clock hinvalid)
  | timeOut hworker hstate hle =>
      refine ⟨h.clock, h.shaped, ?_, ?_, h.punctual⟩
      · rintro q next - ⟨⟩
      · intro q next hq _
        have hq : s.thread.worker = .timedWait q next := hq
        rw [hworker] at hq
        cases hq
        rw [h.due _ _ hworker hstate]
        exact hle
  | wake hworker =>
      exact ⟨h.clock, h.shaped, by rintro q next ⟨⟩, by rintro q next ⟨⟩, h.punctual⟩
  | begin hworker hstate hp =>
      have hle := h.ripe _ _ hworker hstate
      rw [due_of_heap hp] at hle
      exact h.execute hp hle
  | finishLast hworker hp hlast hfreed =>
      obtain ⟨hidle, -, -, hclock⟩ := hfreed.relinked.fields
      refine .of_idle (hclock ▸ h.clock) ?_ hidle h.punctual
      intro q qtask hq
      have hmap := hfreed.map (f := PeriodicTask.nextScheduledTime) (fun _ => rfl) q
      rw [show _ = some qtask from hq, Option.map_some] at hmap
      split at hmap
      · cases hmap
      · obtain ⟨qtask', hq', hsame⟩ := Option.map_eq_some_iff.mp hmap.symm
        rw [← hsame]
        exact h.shaped q qtask' hq'
  | finish hworker hp hmore hwrote =>
      obtain ⟨hidle, -, -, hclock⟩ := hwrote.relinked.fields
      refine .of_idle (hclock ▸ h.clock) ?_ hidle h.punctual
      intro q qtask hq
      have hmap := hwrote.map (f := PeriodicTask.nextScheduledTime) (fun _ => rfl) q
      rw [show _ = some qtask from hq, Option.map_some] at hmap
      split at hmap
      · rw [Option.some_inj.mp hmap]
        exact timespecAdd_shaped _ _
      · obtain ⟨qtask', hq', hsame⟩ := Option.map_eq_some_iff.mp hmap.symm
        rw [← hsame]
        exact h.shaped q qtask' hq'

theorem onTime_step
    (h : s.Undisturbed ∧ s.OnTime)
    (hok : (TaskCycle.noCancel op && s.keepsDue op) = true)
    (hstep : s.step op = some u) :
    u.Undisturbed ∧ u.OnTime := by
  obtain ⟨hlive, hontime⟩ := h
  obtain ⟨hop, hkeeps⟩ := (Bool.and_eq_true _ _).mp hok
  have hmove := hlive.move hop hstep
  exact ⟨hlive.of_move hmove, hontime.of_move hlive hkeeps hmove⟩

theorem TaskCycle.onTime_init
    {clock : Timespec}
    (h : clock.Valid) :
    (TaskCycle.init clock).OnTime where
  clock := h
  shaped := by simp [TaskCycle.init, TaskThread.init]
  due := by simp [TaskCycle.init, TaskThread.init]
  ripe := by simp [TaskCycle.init, TaskThread.init]
  punctual := rfl

end Steps

section Runs

/-- In every run in which no call makes the task due later that the worker is about to execute, no
task is executed early.  A task that has been reset is due one period later. -/
theorem tasks_not_early
    {clock : Timespec}
    (hclock : clock.Valid)
    (s : TaskCycle)
    (hs : Runs.Reaches TaskCycle.step
      (fun s op => (TaskCycle.noCancel op && s.keepsDue op) = true) (.init clock) s) :
    s.early = [] ∧ ∀ (id p : Nat) (ptask : PeriodicTask) (u : TaskCycle),
      s.thread.resets id = some p → s.thread.heap p = some ptask → s.reset id = some u →
      u.thread.due p = timespecAdd s.thread.clock ptask.period := by
  obtain ⟨hlive, hontime⟩ : s.Undisturbed ∧ s.OnTime :=
    hs.invariant (fun _ _ _ h hok hstep => onTime_step h hok hstep)
      ⟨TaskCycle.undisturbed_init clock, TaskCycle.onTime_init hclock⟩
  refine ⟨hontime.punctual, ?_⟩
  intro id p ptask u hhit hp hreset
  obtain ⟨l, hheld⟩ := hlive.held
  obtain ⟨t, ht, ⟨hnone, -⟩ | ⟨q, qtask, hq, hqtask, hwrote⟩⟩ := hheld.reset id
  · rw [hnone] at hhit
    cases hhit
  · rw [hq] at hhit
    cases hhit
    rw [hp] at hqtask
    cases hqtask
    rw [TaskCycle.reset, ht] at hreset
    cases hreset
    dsimp only
    rw [hwrote.due, if_pos rfl]
    rfl

/-- A task is reset while the worker waits for it. -/
def resetOps : List CycleOp :=
  [.schedule 1000 (-1), .take, .reset 1, .wake, .tick ⟨101, 0⟩, .take, .timeOut, .begin, .finish]

theorem tasks_not_early_sample :
    ∃ s, Runs.exec TaskCycle.step (.init ⟨100, 0⟩) resetOps = some s ∧
      s.completed 3145728 = 1 ∧ s.early = [] := by
  have heval : (Runs.exec TaskCycle.step (.init ⟨100, 0⟩) resetOps).map (fun s =>
      s.completed 3145728) = some 1 := by
    decide +kernel
  obtain ⟨s, hexec, hcompleted⟩ := Option.map_eq_some_iff.mp heval
  have hmeets : Runs.meets TaskCycle.step
      (fun s op => TaskCycle.noCancel op && s.keepsDue op) (.init ⟨100, 0⟩) resetOps = true := by
    decide +kernel
  have hclock : Timespec.Valid ⟨100, 0⟩ := ⟨by decide, by decide, by decide⟩
  exact ⟨s, hexec, hcompleted,
    (tasks_not_early hclock s (Runs.Reaches.refl.exec resetOps hmeets hexec)).1⟩

/-- A task is reset when its wait is over. -/
def resetLateOps : List CycleOp :=
  [.schedule 1000 (-1), .take, .tick ⟨101, 0⟩, .timeOut, .reset 1, .begin]

theorem task_executed_early :
    ∃ s, Runs.exec TaskCycle.step (.init ⟨100, 0⟩) resetLateOps = some s ∧
      s.early = [3145728] := by
  have heval : (Runs.exec TaskCycle.step (.init ⟨100, 0⟩) resetLateOps).map TaskCycle.early =
      some [3145728] := by
    decide +kernel
  obtain ⟨s, hexec, hearly⟩ := Option.map_eq_some_iff.mp heval
  exact ⟨s, hexec, hearly⟩

end Runs

end Obix
