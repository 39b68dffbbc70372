import Obix.Utils.Tsync

/-!
# The condition variables of a `tsync_t`

`tsync.c` with its mutex and its queues `rq`, `wq` and `swq`.  What a thread does
between locking and unlocking the mutex, or between locking it and going to sleep,
is one atomic step.  `pthread_cond_signal` leaves a pending signal with at least one
sleeper of the queue, and any sleeper may wake up without a signal.

A thread that enters a region inside another region of the same object counts as a
further user.
-/

namespace Obix

/-- What a `tsync_t` is asked for. -/
inductive Role
  | reader
  | writer
  | shutdown
  deriving DecidableEq, Repr

/-- Where a user of a `tsync_t` is; a sleeper may have a pending signal. -/
inductive Stage
  | out
  | asleep (r : Role) (signalled : Bool)
  | inside (r : Role)
  deriving DecidableEq, Repr

/-- The phase of a user who is registered and not inside yet. -/
def Role.waiting : Role → Phase
  | reader => .waitRead
  | writer => .waitWrite
  | shutdown => .waitShutdown

/-- The phase of a user who is inside. -/
def Role.running : Role → Phase
  | reader => .read
  | writer => .write
  | shutdown => .shutdown

def Stage.phase : Stage → Phase
  | out => .out
  | asleep r _ => r.waiting
  | inside r => r.running

namespace Tsync

/-- An entry up to its waiting loop. -/
def register (sync : Tsync) : Role → Option Tsync
  | .reader => sync.readerRequest
  | .writer => sync.writerRequest
  | .shutdown => sync.shutdownRequest

/-- An entry behind its waiting loop. -/
def enterAs (sync : Tsync) : Role → Option Tsync
  | .reader => sync.readerGrant
  | .writer => sync.writerGrant
  | .shutdown => sync.shutdownGrant

end Tsync

/-- A `tsync_t` and its users. -/
structure Monitor (ι : Type) where
  sync : Tsync
  stage : ι → Stage

/-- After `tsync_init`. -/
def Monitor.init {ι : Type} : Monitor ι :=
  { sync := Tsync.init, stage := fun _ => .out }

def Monitor.phase {ι : Type} (s : Monitor ι) (i : ι) : Phase := (s.stage i).phase

section Signals

variable {ι : Type}

/-- Some sleepers of a queue have got a signal. -/
def Roused (r : Role) (stage stage' : ι → Stage) : Prop :=
  ∀ j, stage' j = stage j ∨ (∃ b, stage j = .asleep r b) ∧ stage' j = .asleep r true

/-- `pthread_cond_signal`. -/
structure CondSignal (r : Role) (stage stage' : ι → Stage) : Prop where
  roused : Roused r stage stage'
  pending : ∀ j b, stage j = .asleep r b → ∃ k, stage' k = .asleep r true

/-- `pthread_cond_broadcast`. -/
structure CondBroadcast (r : Role) (stage stage' : ι → Stage) : Prop where
  roused : Roused r stage stage'
  pending : ∀ j b, stage j = .asleep r b → stage' j = .asleep r true

/-- The signals of `tsync_reader_exit`, after its counters have changed. -/
def ReaderExitWakes (sync : Tsync) (stage stage' : ι → Stage) : Prop :=
  ∃ mid,
    (if sync.runningReaders = 0 ∧ sync.writers > 0 then CondSignal .writer stage mid
      else mid = stage) ∧
    (if sync.beingShutdown = true ∧ sync.readers = 0 ∧ sync.writers = 0 then
        CondSignal .shutdown mid stage'
      else stage' = mid)

/-- The signals of `tsync_writer_exit`, after its counters have changed. -/
def WriterExitWakes (sync : Tsync) (stage stage' : ι → Stage) : Prop :=
  if sync.writers > 0 then CondSignal .writer stage stage'
  else if sync.readers > 0 then CondBroadcast .reader stage stage'
  else if sync.beingShutdown = true ∧ sync.readers = 0 ∧ sync.writers = 0 then
    CondSignal .shutdown stage stage'
  else stage' = stage

end Signals

/-- What a step of a user is; `leave .shutdown` is `tsync_shutdown_revoke`. -/
inductive Event
  | refused (r : Role)
  | sleep (r : Role)
  | enter (r : Role)
  | leave (r : Role)
  deriving DecidableEq, Repr

variable {ι : Type} [DecidableEq ι]

/-- The atomic steps of the users of a `tsync_t`. -/
inductive MonitorStep : Monitor ι → ι → Event → Monitor ι → Prop
  | refuse
      {s : Monitor ι} {i : ι} {r : Role}
      (hout : s.stage i = .out)
      (hreg : s.sync.register r = none) :
      MonitorStep s i (.refused r) s
  | enter
      {s : Monitor ι} {i : ι} {r : Role} {sync₁ sync₂ : Tsync}
      (hout : s.stage i = .out)
      (hreg : s.sync.register r = some sync₁)
      (henter : sync₁.enterAs r = some sync₂) :
      MonitorStep s i (.enter r) ⟨sync₂, Function.update s.stage i (.inside r)⟩
  | sleep
      {s : Monitor ι} {i : ι} {r : Role} {sync₁ : Tsync}
      (hout : s.stage i = .out)
      (hreg : s.sync.register r = some sync₁)
      (henter : sync₁.enterAs r = none) :
      MonitorStep s i (.sleep r) ⟨sync₁, Function.update s.stage i (.asleep r false)⟩
  /-- A sleeper wakes up and leaves the waiting loop. -/
  | wake
      {s : Monitor ι} {i : ι} {r : Role} {b : Bool} {sync₁ : Tsync}
      (hsleep : s.stage i = .asleep r b)
      (henter : s.sync.enterAs r = some sync₁) :
      MonitorStep s i (.enter r) ⟨sync₁, Function.update s.stage i (.inside r)⟩
  /-- A sleeper wakes up in vain. -/
  | sleepAgain
      {s : Monitor ι} {i : ι} {r : Role} {b : Bool}
      (hsleep : s.stage i = .asleep r b)
      (henter : s.sync.enterAs r = none) :
      MonitorStep s i (.sleep r) ⟨s.sync, Function.update s.stage i (.asleep r false)⟩
  | readerExit
      {s : Monitor ι} {i : ι} {stage' : ι → Stage}
      (hin : s.stage i = .inside .reader)
      (hwakes : ReaderExitWakes s.sync.readerExit (Function.update s.stage i .out) stage') :
      MonitorStep s i (.leave .reader) ⟨s.sync.readerExit, stage'⟩
  | writerExit
      {s : Monitor ι} {i : ι} {stage' : ι → Stage}
      (hin : s.stage i = .inside .writer)
      (hwakes : WriterExitWakes s.sync.writerExit (Function.update s.stage i .out) stage') :
      MonitorStep s i (.leave .writer) ⟨s.sync.writerExit, stage'⟩
  | shutdownRevoke
      {s : Monitor ι} {i : ι}
      (hin : s.stage i = .inside .shutdown) :
      MonitorStep s i (.leave .shutdown) ⟨s.sync.shutdownRevoke, Function.update s.stage i .out⟩

/-- A run of the users of a `tsync_t`. -/
inductive MonitorRun : Monitor ι → List (ι × Event) → Monitor ι → Prop
  | nil (s : Monitor ι) : MonitorRun s [] s
  | cons
      {s t s' : Monitor ι} {i : ι} {e : Event} {rest : List (ι × Event)}
      (hstep : MonitorStep s i e t)
      (hrest : MonitorRun t rest s') :
      MonitorRun s ((i, e) :: rest) s'

end Obix
