import Obix.Utils.PtaskSteps

/-!
# The cycle of a worker thread

`threadCycle` in the steps between which the mutex is free.  The worker keeps a pointer to the
first task across `pthread_cond_timedwait`.  When the time is over it still has to get the mutex
back, and a signal that comes now does not change the result of the wait.

A pointer that the worker follows may be that of a freed task.  This is recorded, together with
what the statements on runs count.
-/

namespace Obix

/-- Where the timed wait of the worker is. -/
inductive WaitState
  /-- In the queue of the condition. -/
  | waiting
  /-- A signal has come, and the mutex is still to be had. -/
  | signalled
  /-- The time is over, and the mutex is still to be had. -/
  | timedOut
  deriving DecidableEq, Repr

/-- A worker thread with the records of a run. -/
structure TaskCycle where
  thread : TaskThread
  waitState : WaitState
  /-- The tasks that have been freed, one entry for each time. -/
  freed : List Nat
  /-- The freed tasks that the worker has come upon. -/
  stale : List Nat
  /-- The tasks whose `ptask_cancel` has waited for the end of the execution and returned. -/
  returned : List Nat
  /-- The tasks that have been executed before they were due. -/
  early : List Nat
  /-- The number of executions that has been asked for. -/
  asked : Nat → Option Int
  started : Nat → Nat
  completed : Nat → Nat

/-- A step. -/
inductive CycleOp
  | tick (now : Timespec)
  | schedule (period executeTimes : Int)
  | reschedule (id : Nat) (period executeTimes : Int) (add : Bool)
  | reset (id : Nat)
  | cancel (id : Nat) (wait : Bool)
  | cancelled (ptask : Nat)
  | take
  | timeOut
  | wake
  | begin
  | finish
  deriving DecidableEq, Repr

namespace TaskCycle

/-- `ptask_init`. -/
def init (clock : Timespec) : TaskCycle :=
  { thread := .init clock, waitState := .waiting, freed := [], stale := [], returned := [],
    early := [], asked := fun _ => none, started := fun _ => 0, completed := fun _ => 0 }

variable (s : TaskCycle)

/-- `pthread_cond_signal(&thread->taskListUpdated)`, if it is reached. -/
def signal (reached : Bool) : TaskCycle :=
  if reached = true ∧ s.waitState = .waiting then { s with waitState := .signalled } else s

def tick (now : Timespec) : Option TaskCycle :=
  (s.thread.tick now).map fun t => { s with thread := t }

/-- `ptask_schedule`. -/
def schedule (period executeTimes : Int) : Option TaskCycle :=
  if executeTimes ≤ 0 ∧ executeTimes ≠ executeIndefinite then some s
  else
    (s.thread.schedule period executeTimes).map fun t =>
      { s.signal true with
        thread := t
        asked := Function.update s.asked s.thread.brk (some executeTimes) }

/-- `ptask_reschedule`. -/
def reschedule (id : Nat) (period executeTimes : Int) (add : Bool) : Option TaskCycle :=
  (s.thread.reschedule id period executeTimes add).map fun t =>
    { s.signal (s.thread.reschedules id period executeTimes add).isSome with thread := t }

/-- `ptask_reset`. -/
def reset (id : Nat) : Option TaskCycle :=
  (s.thread.reset id).map fun t =>
    { s.signal (s.thread.resets id).isSome with thread := t }

/-- `ptask_cancel` up to its waiting loop, or up to its end. -/
def cancel (id : Nat) (wait : Bool) : Option TaskCycle :=
  (s.thread.cancel id wait).map fun t =>
    match s.thread.cancelFrees id wait with
    | none => { s with thread := t }
    | some p =>
        { s.signal true with
          thread := t
          freed := s.freed ++ [p]
          returned := if wait then p :: s.returned else s.returned }

/-- `ptask_cancel` behind its waiting loop; it may come upon a freed task and free it again. -/
def cancelled (p : Nat) : Option TaskCycle :=
  if p ∈ s.thread.waiting then
    (if (s.thread.heap p).isNone then
      some { s.thread with waiting := s.thread.waiting.erase p }
    else s.thread.cancelled p).map fun t =>
      { s.signal true with
        thread := t
        freed := s.freed ++ [p]
        returned := p :: s.returned }
  else none

/-- `__periodicTask_execute` up to the workload. -/
def execute (p : Nat) : TaskCycle :=
  let s :=
    { s with
      started := Function.update s.started p (s.started p + 1)
      early :=
        if timespecCmp (s.thread.due p) s.thread.clock = 1 then p :: s.early else s.early }
  match s.thread.heap p with
  | none =>
      { s with
        stale := p :: s.stale
        thread := { s.thread with worker := .executing p } }
  | some ptask =>
      { s with
        thread :=
          { s.thread.written p { ptask with isExecuting := true } with worker := .executing p } }

/-- The worker takes the first task and waits; with a time that is not normalised the wait fails
at once with `EINVAL`, and the mutex is kept. -/
def take : Option TaskCycle :=
  s.thread.take.map fun t =>
    let s := { s with thread := t, waitState := .waiting }
    match t.worker with
    | .timedWait p next =>
        if next.nsec < 0 ∨ 1000000000 ≤ next.nsec then s.execute p else s
    | _ => s

/-- The time of the wait is over. -/
def timeOut : Option TaskCycle :=
  match s.thread.worker, s.waitState with
  | .timedWait _ next, .waiting =>
      if timespecCmp next s.thread.clock = 1 then none else some { s with waitState := .timedOut }
  | _, _ => none

/-- The wait ends because of a signal, or for no reason. -/
def wake : Option TaskCycle :=
  if s.waitState = .timedOut then none else s.thread.wake.map fun t => { s with thread := t }

/-- The wait ends with `ETIMEDOUT`. -/
def begin : Option TaskCycle :=
  match s.thread.worker, s.waitState with
  | .timedWait p _, .timedOut => some (s.execute p)
  | _, _ => none

/-- `__periodicTask_execute` behind the workload. -/
def finish : Option TaskCycle :=
  match s.thread.worker with
  | .executing p =>
      let s := { s with completed := Function.update s.completed p (s.completed p + 1) }
      match s.thread.heap p with
      | none =>
          some
            { s with
              stale := p :: s.stale
              thread := { s.thread with worker := .idle } }
      | some ptask =>
          s.thread.finish.map fun t =>
            { s with
              thread := t
              freed := if !ptask.isCancelled && ptask.lastTime then s.freed ++ [p] else s.freed }
  | _ => none

def step : CycleOp → Option TaskCycle
  | .tick now => s.tick now
  | .schedule period executeTimes => s.schedule period executeTimes
  | .reschedule id period executeTimes add => s.reschedule id period executeTimes add
  | .reset id => s.reset id
  | .cancel id wait => s.cancel id wait
  | .cancelled p => s.cancelled p
  | .take => s.take
  | .timeOut => s.timeOut
  | .wake => s.wake
  | .begin => s.begin
  | .finish => s.finish

end TaskCycle

section Rules

variable {s : TaskCycle}

theorem signal_waitState (r : Bool) :
    (s.signal r).waitState = .signalled ∨ (s.signal r).waitState = s.waitState := by
  unfold TaskCycle.signal
  split
  · exact .inl rfl
  · exact .inr rfl

/-- A signal takes the worker out of its wait. -/
theorem signal_true_ne_waiting : (s.signal true).waitState ≠ .waiting := by
  unfold TaskCycle.signal
  split
  · simp
  · rename_i hnot
    intro hwait
    exact hnot ⟨rfl, hwait⟩

@[simp] theorem signal_freed (r : Bool) : (s.signal r).freed = s.freed := by
  unfold TaskCycle.signal
  split <;> rfl

@[simp] theorem signal_stale (r : Bool) : (s.signal r).stale = s.stale := by
  unfold TaskCycle.signal
  split <;> rfl

@[simp] theorem signal_returned (r : Bool) : (s.signal r).returned = s.returned := by
  unfold TaskCycle.signal
  split <;> rfl

@[simp] theorem signal_early (r : Bool) : (s.signal r).early = s.early := by
  unfold TaskCycle.signal
  split <;> rfl

@[simp] theorem signal_asked (r : Bool) : (s.signal r).asked = s.asked := by
  unfold TaskCycle.signal
  split <;> rfl

@[simp] theorem signal_started (r : Bool) : (s.signal r).started = s.started := by
  unfold TaskCycle.signal
  split <;> rfl

@[simp] theorem signal_completed (r : Bool) : (s.signal r).completed = s.completed := by
  unfold TaskCycle.signal
  split <;> rfl

end Rules

end Obix
