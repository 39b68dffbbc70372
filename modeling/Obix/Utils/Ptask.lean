import Obix.Lib.LinkedList
import Obix.Lib.Runs
import Mathlib.Tactic

/-!
# The queue of periodic tasks

`ptask.c`.  The tasks of a worker thread are a doubly linked list in a heap.  Callers schedule,
reschedule, reset and cancel tasks, and the worker executes them; the mutex is released while a
task runs and while somebody waits, so that each of these is a sequence of steps.

A step to `none` is one that cannot be taken: a wait goes on, or a pointer that is followed does
not point to a task.  Seconds and nanoseconds are unbounded, addresses are not used again, and
the workload of a task and the special task that ends the thread are left out.
-/

namespace Obix

/-- `struct timespec`. -/
structure Timespec where
  sec : Int
  nsec : Int
  deriving DecidableEq, Repr

/-- The nanoseconds since the Epoch. -/
def Timespec.nanos (t : Timespec) : Int := t.sec * 1000000000 + t.nsec

/-- `timespec_fromMillis`. -/
def timespecFromMillis (millis : Int) : Timespec :=
  ⟨millis.tdiv 1000, millis.tmod 1000 * 1000000⟩

/-- `timespec_add`. -/
def timespecAdd (time₁ time₂ : Timespec) : Timespec :=
  let newNano := time₁.nsec + time₂.nsec
  let sec := time₁.sec + (time₂.sec + newNano.tdiv 1000000000)
  let nsec := newNano.tmod 1000000000
  if nsec < 0 ∧ 0 < sec then ⟨sec - 1, 1000000000 + nsec⟩
  else if sec < 0 ∧ 0 < nsec then ⟨sec + 1, nsec - 1000000000⟩
  else ⟨sec, nsec⟩

/-- The test for the result of `timespec_add`. -/
def timespecNonneg (time : Timespec) : Bool := 0 ≤ time.sec ∧ 0 ≤ time.nsec

/-- `timespec_cmp`. -/
def timespecCmp (time₁ time₂ : Timespec) : Int :=
  if time₁.sec > time₂.sec then 1
  else if time₁.sec < time₂.sec then -1
  else if time₁.nsec > time₂.nsec then 1
  else if time₁.nsec < time₂.nsec then -1
  else 0

/-- `LIST_POISON1`. -/
def listPoison1 : Nat := 0x00100100

/-- `LIST_POISON2`. -/
def listPoison2 : Nat := 0x00200200

/-- `EXECUTE_INDEFINITE`. -/
def executeIndefinite : Int := -1

/-- `Periodic_Task`. -/
structure PeriodicTask where
  id : Nat
  period : Timespec
  nextScheduledTime : Timespec
  executeTimes : Int
  isCancelled : Bool
  isExecuting : Bool
  prev : Option Nat
  next : Option Nat
  deriving DecidableEq, Repr

/-- Where the worker is in `threadCycle`. -/
inductive Worker
  /-- At the beginning of its cycle. -/
  | idle
  /-- In `pthread_cond_timedwait` for a task. -/
  | timedWait (ptask : Nat) (next : Timespec)
  /-- Running the workload of a task. -/
  | executing (ptask : Nat)
  deriving DecidableEq, Repr

/-- `Task_Thread`, with the tasks, the clock and the callers of `ptask_cancel` that wait. -/
structure TaskThread where
  idGen : Nat
  taskList : Option Nat
  heap : Nat → Option PeriodicTask
  /-- The address of the next task. -/
  brk : Nat
  clock : Timespec
  worker : Worker
  waiting : List Nat
  /-- The tasks that have been scheduled and are neither finished nor cancelled. -/
  unfinished : List Nat

namespace TaskThread

/-- `ptask_init`. -/
def init (clock : Timespec) : TaskThread :=
  { idGen := 1, taskList := none, heap := fun _ => none, brk := 0x00300000, clock := clock,
    worker := .idle, waiting := [], unfinished := [] }

variable (s : TaskThread)

/-- Write to a task. -/
def modify (p : Nat) (f : PeriodicTask → PeriodicTask) : Option TaskThread :=
  (s.heap p).map fun ptask => { s with heap := Function.update s.heap p (some (f ptask)) }

/-- Write to a task if the pointer is not null. -/
def modifyAt (p : Option Nat) (f : PeriodicTask → PeriodicTask) : Option TaskThread :=
  p.elim (some s) fun p => s.modify p f

/-- Let a node, or the head of the list if there is none, point to the next one. -/
def setNext (p q : Option Nat) : Option TaskThread :=
  match p with
  | some p => s.modify p fun ptask => { ptask with next := q }
  | none => some { s with taskList := q }

/-- `__periodicTask_removeFromList`. -/
def removeFromList (p : Nat) : Option TaskThread := do
  let ptask ← s.heap p
  let s ← s.setNext ptask.prev ptask.next
  let s ← s.modifyAt ptask.next fun next => { next with prev := ptask.prev }
  s.modify p fun ptask => { ptask with prev := some listPoison1, next := some listPoison2 }

/-- The loop that looks for the place of a task; `n` is more than the number of tasks if the
list ends. -/
def findPlace (time : Timespec) : Nat → Option Nat → Option Nat → Option (Option Nat × Option Nat)
  | 0, _, _ => none
  | _ + 1, prev, none => some (prev, none)
  | n + 1, prev, some q =>
      (s.heap q).bind fun ptask =>
        if timespecCmp time ptask.nextScheduledTime = 1 then findPlace time n (some q) ptask.next
        else some (prev, some q)

/-- Insert a task between two others. -/
def insertBetween (p : Nat) (prev next : Option Nat) : Option TaskThread := do
  let s ← s.setNext prev (some p)
  let s ← s.modify p fun ptask => { ptask with prev := prev }
  let s ← s.modifyAt next fun ptask => { ptask with prev := some p }
  s.modify p fun ptask => { ptask with next := next }

/-- Insert a task at its place, which is looked for from a place on. -/
def place (p : Nat) (prev next : Option Nat) : Option TaskThread := do
  let ptask ← s.heap p
  let (prev, next) ← s.findPlace ptask.nextScheduledTime (s.brk + 1) prev next
  s.insertBetween p prev next

/-- `__periodicTask_generateNextExecTime`. -/
def generateNextExecTime (p : Nat) (newlyCreated : Bool) : Option TaskThread := do
  let s ← s.modify p fun ptask =>
    { ptask with nextScheduledTime := timespecAdd ptask.nextScheduledTime ptask.period }
  let ptask ← s.heap p
  if newlyCreated then s.place p none s.taskList
  else if ptask.prev = none ∧ ptask.next = none then some s
  else
    let s ← s.removeFromList p
    s.place p ptask.prev ptask.next

/-- `__periodicTask_resetExecTime`. -/
def resetExecTime (p : Nat) (newlyCreated : Bool) : Option TaskThread := do
  let s ← s.modify p fun ptask => { ptask with nextScheduledTime := s.clock }
  s.generateNextExecTime p newlyCreated

/-- The loop of `__periodicTask_get`. -/
def getFrom (id : Nat) : Nat → Option Nat → Option (Option Nat)
  | 0, _ => none
  | _ + 1, none => some none
  | n + 1, some p =>
      (s.heap p).bind fun ptask => if ptask.id = id then some (some p) else getFrom id n ptask.next

/-- `__periodicTask_get`. -/
def get (id : Nat) : Option (Option Nat) := s.getFrom id (s.brk + 1) s.taskList

/-- `__periodicTask_create`. -/
def create (period executeTimes : Int) : Option TaskThread :=
  let p := s.brk
  let ptask : PeriodicTask :=
    { id := s.idGen, period := timespecFromMillis period, nextScheduledTime := ⟨0, 0⟩,
      executeTimes := executeTimes, isCancelled := false, isExecuting := false,
      prev := some listPoison1, next := some listPoison2 }
  { s with
    heap := Function.update s.heap p (some ptask)
    brk := p + 1
    idGen := s.idGen + 1
    unfinished := s.unfinished ++ [p] }.resetExecTime p true

/-- `ptask_schedule`. -/
def schedule (period executeTimes : Int) : Option TaskThread :=
  if executeTimes ≤ 0 ∧ executeTimes ≠ executeIndefinite then some s
  else s.create period executeTimes

/-- `ptask_reschedule`. -/
def reschedule (id : Nat) (period executeTimes : Int) (add : Bool) : Option TaskThread :=
  if executeTimes = 0 then some s
  else do
    match ← s.get id with
    | none => some s
    | some p =>
        let ptask ← s.heap p
        if add then
          let addTime := timespecFromMillis period
          let temp := timespecAdd ptask.period addTime
          if timespecNonneg temp then
            s.modify p fun ptask =>
              { ptask with
                period := temp
                nextScheduledTime := timespecAdd ptask.nextScheduledTime addTime
                executeTimes := executeTimes }
          else some s
        else if period < 0 then some s
        else
          let s ← s.modify p fun ptask =>
            { ptask with period := timespecFromMillis period, executeTimes := executeTimes }
          s.resetExecTime p false

/-- `ptask_reset`. -/
def reset (id : Nat) : Option TaskThread := do
  match ← s.get id with
  | none => some s
  | some p => s.resetExecTime p false

/-- Take a task out of the list and free it. -/
def dispose (p : Nat) : Option TaskThread :=
  (s.removeFromList p).map fun s =>
    { s with heap := Function.update s.heap p none, unfinished := s.unfinished.erase p }

/-- `ptask_cancel` up to its waiting loop, or up to its end if it does not wait. -/
def cancel (id : Nat) (wait : Bool) : Option TaskThread := do
  match ← s.get id with
  | none => some s
  | some p =>
      let ptask ← s.heap p
      if ptask.isCancelled then some s
      else
        let s ← s.modify p fun ptask => { ptask with isCancelled := true }
        if ptask.isExecuting ∧ wait then some { s with waiting := p :: s.waiting }
        else s.dispose p

/-- `ptask_cancel` behind its waiting loop. -/
def cancelled (p : Nat) : Option TaskThread := do
  let ptask ← s.heap p
  if p ∈ s.waiting ∧ ptask.isExecuting = false then
    TaskThread.dispose { s with waiting := s.waiting.erase p } p
  else none

/-- The worker takes the first task and waits. -/
def take : Option TaskThread :=
  match s.worker, s.taskList with
  | .idle, some p =>
      (s.heap p).map fun ptask => { s with worker := .timedWait p ptask.nextScheduledTime }
  | _, _ => none

/-- The worker is woken up because the list has changed. -/
def wake : Option TaskThread :=
  match s.worker with
  | .timedWait _ _ => some { s with worker := .idle }
  | _ => none

/-- `__periodicTask_execute` up to the workload, when the time of the task has come. -/
def begin : Option TaskThread :=
  match s.worker with
  | .timedWait p next =>
      if timespecCmp next s.clock = 1 then none
      else
        (s.modify p fun ptask => { ptask with isExecuting := true }).map fun s =>
          { s with worker := .executing p }
  | _ => none

/-- `__periodicTask_execute` behind the workload. -/
def finish : Option TaskThread :=
  match s.worker with
  | .executing p => do
      let s := { s with worker := .idle }
      let ptask ← s.heap p
      if ptask.isCancelled then some s
      else
        let s ← s.modify p fun ptask => { ptask with isExecuting := false }
        if ptask.executeTimes = executeIndefinite then s.generateNextExecTime p false
        else if ptask.executeTimes - 1 = 0 then s.dispose p
        else
          let s ← s.modify p fun ptask => { ptask with executeTimes := ptask.executeTimes - 1 }
          s.generateNextExecTime p false
  | _ => none

end TaskThread

/-- A step. -/
inductive TaskOp
  /-- Time passes. -/
  | tick (now : Timespec)
  | schedule (period executeTimes : Int)
  | reschedule (id : Nat) (period executeTimes : Int) (add : Bool)
  | reset (id : Nat)
  | cancel (id : Nat) (wait : Bool)
  | cancelled (ptask : Nat)
  | take
  | wake
  | begin
  | finish
  deriving DecidableEq, Repr

namespace TaskThread

variable (s : TaskThread)

/-- The clock shows the time in seconds and nanoseconds, and never goes backwards. -/
def tick (now : Timespec) : Option TaskThread :=
  if timespecNonneg now ∧ now.nsec < 1000000000 ∧ timespecCmp s.clock now ≠ 1 then
    some { s with clock := now }
  else none

def step : TaskOp → Option TaskThread
  | .tick now => s.tick now
  | .schedule period executeTimes => s.schedule period executeTimes
  | .reschedule id period executeTimes add => s.reschedule id period executeTimes add
  | .reset id => s.reset id
  | .cancel id wait => s.cancel id wait
  | .cancelled p => s.cancelled p
  | .take => s.take
  | .wake => s.wake
  | .begin => s.begin
  | .finish => s.finish

/-- The pointers of the list. -/
def links : LinkedList.Links Nat where
  head := s.taskList
  prev := fun p => (s.heap p).bind PeriodicTask.prev
  next := fun p => (s.heap p).bind PeriodicTask.next

/-- When a task is due. -/
def due (p : Nat) : Timespec := (s.heap p).elim ⟨0, 0⟩ PeriodicTask.nextScheduledTime

/-- The list is well formed and sorted, and its members are the unfinished tasks. -/
structure InOrder (l : List Nat) : Prop where
  threads : s.links.Threads l
  exact : l.Perm s.unfinished
  sorted : l.Pairwise fun p q => timespecCmp (s.due p) (s.due q) ≠ 1

end TaskThread

end Obix
