import Obix.Lib.Occupancy

/-!
# Read, write and shutdown regions

`tsync.c`.  Entering a region is two atomic steps: the first one registers the
thread or refuses it because the object is being shut down, the second one is
taken when the condition of the waiting loop no longer holds.

`Tracked` relates the counters of an object to the phases of the threads.  The
regions exclude each other as they should (`Exclusive`).
-/

namespace Obix

/-- `tsync_t`. -/
structure Tsync where
  beingShutdown : Bool
  readers : Int
  writers : Int
  runningReaders : Int
  runningWriters : Int
  deriving DecidableEq, Repr

namespace Tsync

/-- `tsync_init`. -/
def init : Tsync :=
  { beingShutdown := false, readers := 0, writers := 0, runningReaders := 0, runningWriters := 0 }

/-- `tsync_reader_entry` up to its waiting loop. -/
def readerRequest (sync : Tsync) : Option Tsync :=
  if sync.beingShutdown then none else some { sync with readers := sync.readers + 1 }

/-- `tsync_reader_entry` behind its waiting loop. -/
def readerGrant (sync : Tsync) : Option Tsync :=
  if sync.writers > 0 then none
  else some { sync with runningReaders := sync.runningReaders + 1 }

/-- `tsync_reader_exit`. -/
def readerExit (sync : Tsync) : Tsync :=
  { sync with readers := sync.readers - 1, runningReaders := sync.runningReaders - 1 }

/-- `tsync_writer_entry` up to its waiting loop. -/
def writerRequest (sync : Tsync) : Option Tsync :=
  if sync.beingShutdown then none else some { sync with writers := sync.writers + 1 }

/-- `tsync_writer_entry` behind its waiting loop. -/
def writerGrant (sync : Tsync) : Option Tsync :=
  if sync.runningReaders > 0 ∨ sync.runningWriters > 0 then none
  else some { sync with runningWriters := sync.runningWriters + 1 }

/-- `tsync_writer_exit`. -/
def writerExit (sync : Tsync) : Tsync :=
  { sync with writers := sync.writers - 1, runningWriters := sync.runningWriters - 1 }

/-- `tsync_shutdown_entry` up to its waiting loop. -/
def shutdownRequest (sync : Tsync) : Option Tsync :=
  if sync.beingShutdown then none else some { sync with beingShutdown := true }

/-- `tsync_shutdown_entry` behind its waiting loop. -/
def shutdownGrant (sync : Tsync) : Option Tsync :=
  if sync.readers > 0 ∨ sync.writers > 0 then none else some sync

/-- `tsync_shutdown_revoke`. -/
def shutdownRevoke (sync : Tsync) : Tsync :=
  { sync with beingShutdown := false }

end Tsync

/-- Where a thread is with respect to an object. -/
inductive Phase
  | out
  | waitRead
  | read
  | waitWrite
  | write
  | waitShutdown
  | shutdown
  deriving DecidableEq, Repr

namespace Phase

/-- Registered as a reader. -/
def IsReader (ph : Phase) : Prop := ph = waitRead ∨ ph = read

/-- Registered as a writer. -/
def IsWriter (ph : Phase) : Prop := ph = waitWrite ∨ ph = write

instance : DecidablePred IsReader := fun ph => inferInstanceAs (Decidable (ph = _ ∨ ph = _))

instance : DecidablePred IsWriter := fun ph => inferInstanceAs (Decidable (ph = _ ∨ ph = _))

end Phase

/-- The atomic steps of a thread at an object. -/
inductive TsyncStep : Tsync → Phase → Tsync → Phase → Prop
  | readerRequest {s s'} (h : s.readerRequest = some s') : TsyncStep s .out s' .waitRead
  | readerGrant {s s'} (h : s.readerGrant = some s') : TsyncStep s .waitRead s' .read
  | readerExit {s} : TsyncStep s .read s.readerExit .out
  | writerRequest {s s'} (h : s.writerRequest = some s') : TsyncStep s .out s' .waitWrite
  | writerGrant {s s'} (h : s.writerGrant = some s') : TsyncStep s .waitWrite s' .write
  | writerExit {s} : TsyncStep s .write s.writerExit .out
  | shutdownRequest {s s'} (h : s.shutdownRequest = some s') : TsyncStep s .out s' .waitShutdown
  | shutdownGrant {s s'} (h : s.shutdownGrant = some s') : TsyncStep s .waitShutdown s' .shutdown
  | shutdownRevoke {s} : TsyncStep s .shutdown s.shutdownRevoke .out

section Tracking

variable {ι : Type}

/-- No thread is in a region while another one is in the write region. -/
def Exclusive (phase : ι → Phase) : Prop :=
  ∀ i j, phase i = .write → (phase j = .read ∨ phase j = .write) → i = j

theorem exclusive_init : Exclusive (fun _ : ι => Phase.out) := by
  intro i j hi
  cases hi

variable [Fintype ι]

/-- The counters of an object count the threads in their phases. -/
structure Tracked (sync : Tsync) (phase : ι → Phase) : Prop where
  readers : sync.readers = occupancy Phase.IsReader phase
  writers : sync.writers = occupancy Phase.IsWriter phase
  runningReaders : sync.runningReaders = occupancy (· = Phase.read) phase
  runningWriters : sync.runningWriters = occupancy (· = Phase.write) phase

theorem tracked_init :
    Tracked Tsync.init (fun _ : ι => Phase.out) := by
  constructor
  · rw [occupancy_eq_zero_iff.mpr (by simp [Phase.IsReader])]
    rfl
  · rw [occupancy_eq_zero_iff.mpr (by simp [Phase.IsWriter])]
    rfl
  · rw [occupancy_eq_zero_iff.mpr (by simp)]
    rfl
  · rw [occupancy_eq_zero_iff.mpr (by simp)]
    rfl

/-- Several objects, each with counters that track the threads. -/
structure Regulated {ο : Type} (sync : ο → Tsync) (phase : ι → ο → Phase) : Prop where
  tracked : ∀ o, Tracked (sync o) fun j => phase j o
  exclusive : ∀ o, Exclusive fun j => phase j o

theorem regulated_init {ο : Type} :
    Regulated (fun _ : ο => Tsync.init) (fun (_ : ι) _ => Phase.out) :=
  ⟨fun _ => tracked_init, fun _ => exclusive_init⟩

variable [DecidableEq ι] {sync sync' : Tsync} {phase : ι → Phase} {i : ι}

/-- One thread changes its phase and the counters change accordingly. -/
theorem Tracked.move
    (h : Tracked sync phase)
    (b : Phase)
    (hr : sync'.readers + (if (phase i).IsReader then 1 else 0 : Nat) =
      sync.readers + (if b.IsReader then 1 else 0 : Nat))
    (hw : sync'.writers + (if (phase i).IsWriter then 1 else 0 : Nat) =
      sync.writers + (if b.IsWriter then 1 else 0 : Nat))
    (hrr : sync'.runningReaders + (if phase i = .read then 1 else 0 : Nat) =
      sync.runningReaders + (if b = .read then 1 else 0 : Nat))
    (hrw : sync'.runningWriters + (if phase i = .write then 1 else 0 : Nat) =
      sync.runningWriters + (if b = .write then 1 else 0 : Nat)) :
    Tracked sync' (Function.update phase i b) := by
  obtain ⟨h₁, h₂, h₃, h₄⟩ := h
  have u₁ := @occupancy_update _ _ _ Phase.IsReader _ phase _ i b
  have u₂ := @occupancy_update _ _ _ Phase.IsWriter _ phase _ i b
  have u₃ := @occupancy_update _ _ _ (· = Phase.read) _ phase _ i b
  have u₄ := @occupancy_update _ _ _ (· = Phase.write) _ phase _ i b
  constructor
  · omega
  · omega
  · omega
  · omega

/-- The counters follow the steps of the threads. -/
theorem Tracked.step
    {b : Phase}
    (h : Tracked sync phase)
    (hstep : TsyncStep sync (phase i) sync' b) :
    Tracked sync' (Function.update phase i b) := by
  generalize hph : phase i = ph at hstep
  cases hstep with
  | readerRequest hs =>
      simp only [Tsync.readerRequest, Option.ite_none_left_eq_some, Option.some.injEq] at hs
      obtain ⟨-, rfl⟩ := hs
      refine h.move _ ?_ ?_ ?_ ?_ <;> simp [hph, Phase.IsReader, Phase.IsWriter]
  | readerGrant hs =>
      simp only [Tsync.readerGrant, Option.ite_none_left_eq_some, Option.some.injEq] at hs
      obtain ⟨-, rfl⟩ := hs
      refine h.move _ ?_ ?_ ?_ ?_ <;> simp [hph, Phase.IsReader, Phase.IsWriter]
  | readerExit =>
      refine h.move _ ?_ ?_ ?_ ?_ <;>
        simp [hph, Phase.IsReader, Phase.IsWriter, Tsync.readerExit]
  | writerRequest hs =>
      simp only [Tsync.writerRequest, Option.ite_none_left_eq_some, Option.some.injEq] at hs
      obtain ⟨-, rfl⟩ := hs
      refine h.move _ ?_ ?_ ?_ ?_ <;> simp [hph, Phase.IsReader, Phase.IsWriter]
  | writerGrant hs =>
      simp only [Tsync.writerGrant, Option.ite_none_left_eq_some, Option.some.injEq] at hs
      obtain ⟨-, rfl⟩ := hs
      refine h.move _ ?_ ?_ ?_ ?_ <;> simp [hph, Phase.IsReader, Phase.IsWriter]
  | writerExit =>
      refine h.move _ ?_ ?_ ?_ ?_ <;>
        simp [hph, Phase.IsReader, Phase.IsWriter, Tsync.writerExit]
  | shutdownRequest hs =>
      simp only [Tsync.shutdownRequest, Option.ite_none_left_eq_some, Option.some.injEq] at hs
      obtain ⟨-, rfl⟩ := hs
      refine h.move _ ?_ ?_ ?_ ?_ <;> simp [hph, Phase.IsReader, Phase.IsWriter]
  | shutdownGrant hs =>
      simp only [Tsync.shutdownGrant, Option.ite_none_left_eq_some, Option.some.injEq] at hs
      obtain ⟨-, rfl⟩ := hs
      refine h.move _ ?_ ?_ ?_ ?_ <;> simp [hph, Phase.IsReader, Phase.IsWriter]
  | shutdownRevoke =>
      refine h.move _ ?_ ?_ ?_ ?_ <;>
        simp [hph, Phase.IsReader, Phase.IsWriter, Tsync.shutdownRevoke]

/-- The regions exclude each other: a grant is given only when the counters say
that nobody is in the way. -/
theorem Exclusive.step
    {b : Phase}
    (hex : Exclusive phase)
    (h : Tracked sync phase)
    (hstep : TsyncStep sync (phase i) sync' b) :
    Exclusive (Function.update phase i b) := by
  have hkeep : ∀ b, b ≠ .read → b ≠ .write → Exclusive (Function.update phase i b) := by
    intro b hr hw j k hj hk
    have hji : j ≠ i := by
      rintro rfl
      exact hw (by simpa using hj)
    have hki : k ≠ i := by
      rintro rfl
      simp [hr, hw] at hk
    rw [Function.update_of_ne hji] at hj
    rw [Function.update_of_ne hki] at hk
    exact hex j k hj hk
  generalize hph : phase i = ph at hstep
  cases hstep with
  | readerGrant hs =>
      simp only [Tsync.readerGrant, Option.ite_none_left_eq_some, Option.some.injEq] at hs
      -- no writer, hence nobody in the write region
      have hnone : ∀ j, ¬ (phase j).IsWriter := by
        have hcount := h.writers
        rw [← occupancy_eq_zero_iff]
        omega
      intro j k hj hk
      by_cases hji : j = i
      · subst hji
        simp at hj
      · rw [Function.update_of_ne hji] at hj
        exact absurd (.inr hj) (hnone j)
  | writerGrant hs =>
      simp only [Tsync.writerGrant, Option.ite_none_left_eq_some, Option.some.injEq] at hs
      have hnor : ∀ j, ¬ phase j = .read := by
        have hcount := h.runningReaders
        rw [← occupancy_eq_zero_iff (p := (· = Phase.read))]
        omega
      have hnow : ∀ j, ¬ phase j = .write := by
        have hcount := h.runningWriters
        rw [← occupancy_eq_zero_iff (p := (· = Phase.write))]
        omega
      have honly : ∀ k, Function.update phase i Phase.write k = .read ∨
          Function.update phase i Phase.write k = .write → k = i := by
        intro k hk
        by_contra hki
        rw [Function.update_of_ne hki] at hk
        rcases hk with hk | hk
        · exact hnor k hk
        · exact hnow k hk
      intro j k hj hk
      rw [honly j (.inr hj), honly k hk]
  | readerRequest => exact hkeep _ (by decide) (by decide)
  | readerExit => exact hkeep _ (by decide) (by decide)
  | writerRequest => exact hkeep _ (by decide) (by decide)
  | writerExit => exact hkeep _ (by decide) (by decide)
  | shutdownRequest => exact hkeep _ (by decide) (by decide)
  | shutdownGrant => exact hkeep _ (by decide) (by decide)
  | shutdownRevoke => exact hkeep _ (by decide) (by decide)

/-- A step of one thread at one object. -/
theorem Regulated.step
    {ο : Type} [DecidableEq ο] {syncs : ο → Tsync} {phases : ι → ο → Phase} {o : ο}
    {b : ο → Phase}
    (h : Regulated syncs phases)
    (hstep : TsyncStep (syncs o) (phases i o) sync' (b o))
    (hother : ∀ o', o' ≠ o → b o' = phases i o') :
    Regulated (Function.update syncs o sync') (Function.update phases i b) := by
  have hcolumn : ∀ o', (fun j => Function.update phases i b j o') =
      Function.update (fun j => phases j o') i (b o') := by
    intro o'
    funext j
    by_cases hj : j = i
    · subst hj
      simp
    · simp [Function.update_of_ne hj]
  have hsame : ∀ o', o' ≠ o →
      Function.update (fun j => phases j o') i (b o') = fun j => phases j o' := by
    intro o' ho
    rw [hother o' ho]
    exact Function.update_eq_self i _
  constructor
  · intro o'
    rw [hcolumn]
    by_cases ho : o' = o
    · subst ho
      rw [Function.update_self]
      exact (h.tracked o').step hstep
    · rw [hsame o' ho, Function.update_of_ne ho]
      exact h.tracked o'
  · intro o'
    rw [hcolumn]
    by_cases ho : o' = o
    · subst ho
      exact (h.exclusive o').step (h.tracked o') hstep
    · rw [hsame o' ho]
      exact h.exclusive o'

end Tracking

end Obix
