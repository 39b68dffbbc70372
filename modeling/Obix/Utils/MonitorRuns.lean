import Obix.Utils.Monitor

/-!
# All runs of a `tsync_t`

A step of a monitor is at most two atomic steps of a thread at its counters
(`MonitorStep.moves`), so what those steps keep holds in every run: the counters count
the users in their stages, the regions exclude each other, and the shutdown flag
belongs to one user (`Settled`).  That nobody sleeps without reason is an invariant of
the signals (`Wakeful`).
-/

namespace Obix

/-- A user who has raised the shutdown flag. -/
def Phase.IsShutter (ph : Phase) : Prop := ph = waitShutdown ∨ ph = shutdown

section Settled

variable {ι : Type}

/-- The shutdown flag belongs to one user, and nobody is registered once that user has
been let in. -/
structure Sealed (sync : Tsync) (phase : ι → Phase) : Prop where
  flag : sync.beingShutdown = true ↔ ∃ i, (phase i).IsShutter
  unique : ∀ i j, (phase i).IsShutter → (phase j).IsShutter → i = j
  alone : ∀ i, phase i = .shutdown → ∀ j, ¬ (phase j).IsReader ∧ ¬ (phase j).IsWriter

theorem sealed_init : Sealed Tsync.init (fun _ : ι => Phase.out) := by
  constructor
  · simp [Tsync.init, Phase.IsShutter]
  · intro i j hi
    simp [Phase.IsShutter] at hi
  · intro i hi
    cases hi

variable [DecidableEq ι] {sync sync' : Tsync} {phase : ι → Phase} {i : ι} {b : Phase}

theorem shutter_update_iff
    (hout : ¬ (phase i).IsShutter)
    (hb : ¬ b.IsShutter)
    (j : ι) :
    (Function.update phase i b j).IsShutter ↔ (phase j).IsShutter := by
  by_cases hji : j = i
  · subst hji
    simp [hout, hb]
  · rw [Function.update_of_ne hji]

/-- A user who has nothing to do with a shutdown moves. -/
theorem Sealed.keep
    (h : Sealed sync phase)
    (hflag : sync'.beingShutdown = sync.beingShutdown)
    (hout : ¬ (phase i).IsShutter)
    (hb : ¬ b.IsShutter)
    (hreg : b.IsReader ∨ b.IsWriter →
      ((phase i).IsReader ∨ (phase i).IsWriter) ∨ sync.beingShutdown = false) :
    Sealed sync' (Function.update phase i b) := by
  have hiff := shutter_update_iff hout hb
  constructor
  · rw [hflag, h.flag]
    simp only [hiff]
  · intro j k hj hk
    exact h.unique j k ((hiff j).mp hj) ((hiff k).mp hk)
  · intro j hj k
    have hjs : (phase j).IsShutter := (hiff j).mp (.inr hj)
    have hji : j ≠ i := by
      rintro rfl
      exact hout hjs
    rw [Function.update_of_ne hji] at hj
    have hraised : sync.beingShutdown = true := h.flag.mpr ⟨j, hjs⟩
    by_cases hki : k = i
    · subst hki
      rw [Function.update_self]
      have hnone := h.alone j hj k
      constructor
      · intro hr
        rcases hreg (.inl hr) with hold | hdown
        · exact hold.elim hnone.1 hnone.2
        · simp [hraised] at hdown
      · intro hw
        rcases hreg (.inr hw) with hold | hdown
        · exact hold.elim hnone.1 hnone.2
        · simp [hraised] at hdown
    · rw [Function.update_of_ne hki]
      exact h.alone j hj k

/-- The user who shuts down the object moves from one of its two phases to the other,
or gets there from outside. -/
theorem sealed_of_raised
    (hflag : sync'.beingShutdown = true)
    (hb : b.IsShutter)
    (hfree : ∀ j, (phase j).IsShutter → j = i)
    (halone : b = .shutdown → ∀ j, ¬ (phase j).IsReader ∧ ¬ (phase j).IsWriter) :
    Sealed sync' (Function.update phase i b) := by
  have honly : ∀ j, (Function.update phase i b j).IsShutter → j = i := by
    intro j hj
    by_contra hji
    rw [Function.update_of_ne hji] at hj
    exact hji (hfree j hj)
  constructor
  · simp only [hflag, true_iff]
    exact ⟨i, by simpa using hb⟩
  · intro j k hj hk
    rw [honly j hj, honly k hk]
  · intro j hj k
    have hji := honly j (.inr hj)
    subst hji
    rw [Function.update_self] at hj
    by_cases hkj : k = j
    · subst hkj
      rw [Function.update_self, hj]
      simp [Phase.IsReader, Phase.IsWriter]
    · rw [Function.update_of_ne hkj]
      exact halone hj k

/-- The user who shuts down the object gives up. -/
theorem Sealed.lower
    (h : Sealed sync phase)
    (hflag : sync'.beingShutdown = false)
    (hi : (phase i).IsShutter)
    (hb : ¬ b.IsShutter) :
    Sealed sync' (Function.update phase i b) := by
  have hnone : ∀ j, ¬ (Function.update phase i b j).IsShutter := by
    intro j hj
    by_cases hji : j = i
    · subst hji
      rw [Function.update_self] at hj
      exact hb hj
    · rw [Function.update_of_ne hji] at hj
      exact hji (h.unique j i hj hi)
  constructor
  · simp [hflag, hnone]
  · intro j k hj
    exact absurd hj (hnone j)
  · intro j hj
    exact absurd (.inr hj) (hnone j)

variable [Fintype ι]

theorem Sealed.step
    (h : Sealed sync phase)
    (htracked : Tracked sync phase)
    (hstep : TsyncStep sync (phase i) sync' b) :
    Sealed sync' (Function.update phase i b) := by
  generalize hph : phase i = ph at hstep
  cases hstep with
  | readerRequest hs =>
      simp only [Tsync.readerRequest, Option.ite_none_left_eq_some, Option.some.injEq] at hs
      obtain ⟨hdown, rfl⟩ := hs
      refine h.keep rfl ?_ ?_ ?_ <;> simp [hph, Phase.IsShutter, hdown]
  | readerGrant hs =>
      simp only [Tsync.readerGrant, Option.ite_none_left_eq_some, Option.some.injEq] at hs
      obtain ⟨-, rfl⟩ := hs
      refine h.keep rfl ?_ ?_ ?_ <;> simp [hph, Phase.IsShutter, Phase.IsReader]
  | readerExit =>
      refine h.keep rfl ?_ ?_ ?_ <;> simp [hph, Phase.IsShutter, Phase.IsReader, Phase.IsWriter]
  | writerRequest hs =>
      simp only [Tsync.writerRequest, Option.ite_none_left_eq_some, Option.some.injEq] at hs
      obtain ⟨hdown, rfl⟩ := hs
      refine h.keep rfl ?_ ?_ ?_ <;> simp [hph, Phase.IsShutter, hdown]
  | writerGrant hs =>
      simp only [Tsync.writerGrant, Option.ite_none_left_eq_some, Option.some.injEq] at hs
      obtain ⟨-, rfl⟩ := hs
      refine h.keep rfl ?_ ?_ ?_ <;> simp [hph, Phase.IsShutter, Phase.IsWriter]
  | writerExit =>
      refine h.keep rfl ?_ ?_ ?_ <;> simp [hph, Phase.IsShutter, Phase.IsReader, Phase.IsWriter]
  | shutdownRequest hs =>
      simp only [Tsync.shutdownRequest, Option.ite_none_left_eq_some, Option.some.injEq] at hs
      obtain ⟨hdown, rfl⟩ := hs
      -- the flag was down, so there was no other such user
      refine sealed_of_raised rfl (.inl rfl) ?_ (by simp)
      intro j hj
      exact absurd (h.flag.mpr ⟨j, hj⟩) hdown
  | shutdownGrant hs =>
      simp only [Tsync.shutdownGrant, Option.ite_none_left_eq_some, Option.some.injEq] at hs
      obtain ⟨hempty, rfl⟩ := hs
      have hi : (phase i).IsShutter := .inl hph
      refine sealed_of_raised (h.flag.mpr ⟨i, hi⟩) (.inr rfl) (fun j hj => h.unique j i hj hi) ?_
      intro _
      have hreaders : ∀ j, ¬ (phase j).IsReader := by
        have hcount := htracked.readers
        rw [← occupancy_eq_zero_iff]
        omega
      have hwriters : ∀ j, ¬ (phase j).IsWriter := by
        have hcount := htracked.writers
        rw [← occupancy_eq_zero_iff]
        omega
      exact fun j => ⟨hreaders j, hwriters j⟩
  | shutdownRevoke => exact h.lower rfl (.inr hph) (by simp [Phase.IsShutter])

/-- The counters, the regions and the shutdown flag are as they should be. -/
structure Settled (sync : Tsync) (phase : ι → Phase) : Prop where
  tracked : Tracked sync phase
  exclusive : Exclusive phase
  isSealed : Sealed sync phase

omit [DecidableEq ι] in
theorem settled_init : Settled Tsync.init (fun _ : ι => Phase.out) :=
  ⟨tracked_init, exclusive_init, sealed_init⟩

theorem Settled.step
    (h : Settled sync phase)
    (hstep : TsyncStep sync (phase i) sync' b) :
    Settled sync' (Function.update phase i b) :=
  ⟨h.tracked.step hstep, h.exclusive.step h.tracked hstep, h.isSealed.step h.tracked hstep⟩

end Settled

section Steps

variable {ι : Type}

theorem Roused.phase
    {r : Role} {stage stage' : ι → Stage}
    (h : Roused r stage stage')
    (j : ι) :
    (stage' j).phase = (stage j).phase := by
  rcases h j with hj | ⟨⟨b, hb⟩, hj⟩
  · rw [hj]
  · rw [hj, hb]
    rfl

/-- Who has no signal after the signals had none before. -/
theorem Roused.unsignalled
    {r r' : Role} {stage stage' : ι → Stage} {j : ι}
    (h : Roused r stage stage')
    (hj : stage' j = .asleep r' false) :
    stage j = .asleep r' false := by
  rcases h j with hsame | ⟨-, hup⟩
  · rw [← hsame, hj]
  · simp [hup] at hj

theorem Roused.keeps
    {r r' : Role} {stage stage' : ι → Stage} {j : ι}
    (h : Roused r stage stage')
    (hj : stage j = .asleep r' true) :
    stage' j = .asleep r' true := by
  rcases h j with hsame | ⟨⟨b, hb⟩, hup⟩
  · rw [hsame, hj]
  · rw [hj] at hb
    cases hb
    exact hup

/-- The signals of an exit leave everybody where he is, and take no signal back. -/
structure Gentle (stage stage' : ι → Stage) : Prop where
  phase : ∀ j, (stage' j).phase = (stage j).phase
  unsignalled : ∀ j r, stage' j = .asleep r false → stage j = .asleep r false
  keeps : ∀ j r, stage j = .asleep r true → stage' j = .asleep r true

theorem Gentle.refl (stage : ι → Stage) : Gentle stage stage :=
  ⟨fun _ => rfl, fun _ _ h => h, fun _ _ h => h⟩

theorem Gentle.trans
    {stage₁ stage₂ stage₃ : ι → Stage}
    (h : Gentle stage₁ stage₂)
    (h' : Gentle stage₂ stage₃) :
    Gentle stage₁ stage₃ where
  phase j := (h'.phase j).trans (h.phase j)
  unsignalled j r hj := h.unsignalled j r (h'.unsignalled j r hj)
  keeps j r hj := h'.keeps j r (h.keeps j r hj)

theorem Roused.gentle
    {r : Role} {stage stage' : ι → Stage}
    (h : Roused r stage stage') :
    Gentle stage stage' :=
  ⟨h.phase, fun _ _ => h.unsignalled, fun _ _ => h.keeps⟩

theorem ReaderExitWakes.gentle
    {sync : Tsync} {stage stage' : ι → Stage}
    (h : ReaderExitWakes sync stage stage') :
    Gentle stage stage' := by
  obtain ⟨mid, hfirst, hsecond⟩ := h
  have h₁ : Gentle stage mid := by
    split at hfirst
    · exact hfirst.roused.gentle
    · rw [hfirst]
      exact Gentle.refl stage
  have h₂ : Gentle mid stage' := by
    split at hsecond
    · exact hsecond.roused.gentle
    · rw [hsecond]
      exact Gentle.refl mid
  exact h₁.trans h₂

theorem WriterExitWakes.gentle
    {sync : Tsync} {stage stage' : ι → Stage}
    (h : WriterExitWakes sync stage stage') :
    Gentle stage stage' := by
  unfold WriterExitWakes at h
  split at h
  · exact h.roused.gentle
  · split at h
    · exact h.roused.gentle
    · split at h
      · exact h.roused.gentle
      · rw [h]
        exact Gentle.refl stage

theorem TsyncStep.register
    {sync sync' : Tsync} {r : Role}
    (h : sync.register r = some sync') :
    TsyncStep sync .out sync' r.waiting := by
  cases r with
  | reader => exact .readerRequest h
  | writer => exact .writerRequest h
  | shutdown => exact .shutdownRequest h

theorem TsyncStep.enterAs
    {sync sync' : Tsync} {r : Role}
    (h : sync.enterAs r = some sync') :
    TsyncStep sync r.waiting sync' r.running := by
  cases r with
  | reader => exact .readerGrant h
  | writer => exact .writerGrant h
  | shutdown => exact .shutdownGrant h

theorem Stage.phase_running_iff
    {st : Stage} {r : Role} :
    st.phase = r.running ↔ st = .inside r := by
  cases st with
  | out => cases r <;> simp [Stage.phase, Role.running]
  | asleep r' b => cases r <;> cases r' <;> simp [Stage.phase, Role.running, Role.waiting]
  | inside r' => cases r <;> cases r' <;> simp [Stage.phase, Role.running]

variable [DecidableEq ι]

/-- One atomic step of some user at the counters. -/
inductive Move : Tsync × (ι → Phase) → Tsync × (ι → Phase) → Prop
  | step
      {sync sync' : Tsync} {phase : ι → Phase} {i : ι} {b : Phase}
      (hstep : TsyncStep sync (phase i) sync' b) :
      Move (sync, phase) (sync', Function.update phase i b)

theorem Monitor.phase_update
    (s : Monitor ι)
    (sync' : Tsync)
    (i : ι)
    (st : Stage) :
    (Monitor.mk sync' (Function.update s.stage i st)).phase =
      Function.update s.phase i st.phase := by
  funext j
  by_cases hji : j = i
  · subst hji
    simp [Monitor.phase]
  · simp [Monitor.phase, Function.update_of_ne hji]

/-- An exit is one move: its signals wake nobody up by themselves. -/
theorem move_of_gentle
    {s : Monitor ι} {i : ι} {sync' : Tsync} {stage' : ι → Stage}
    (hstep : TsyncStep s.sync (s.stage i).phase sync' .out)
    (hgentle : Gentle (Function.update s.stage i .out) stage') :
    Move (s.sync, s.phase) (sync', (Monitor.mk sync' stage').phase) := by
  have hphase : (Monitor.mk sync' stage').phase = Function.update s.phase i .out := by
    rw [← Stage.phase, ← s.phase_update sync' i .out]
    funext j
    exact hgentle.phase j
  rw [hphase]
  exact .step hstep

/-- A step of a monitor as moves of its users. -/
theorem MonitorStep.moves
    {s t : Monitor ι} {i : ι} {e : Event}
    (h : MonitorStep s i e t) :
    Relation.ReflTransGen Move (s.sync, s.phase) (t.sync, t.phase) := by
  cases h with
  | refuse => exact .refl
  | @enter r sync₁ sync₂ hout hreg henter =>
      have h₁ : Move (s.sync, s.phase) (sync₁, Function.update s.phase i r.waiting) := by
        refine .step ?_
        simpa [Monitor.phase, hout, Stage.phase] using TsyncStep.register hreg
      have h₂ : Move (sync₁, Function.update s.phase i r.waiting)
          (sync₂, Function.update (Function.update s.phase i r.waiting) i r.running) := by
        refine .step ?_
        simpa using TsyncStep.enterAs henter
      rw [Function.update_idem] at h₂
      rw [Monitor.phase_update]
      exact (Relation.ReflTransGen.single h₁).tail h₂
  | @sleep r sync₁ hout hreg henter =>
      have h₁ : Move (s.sync, s.phase) (sync₁, Function.update s.phase i r.waiting) := by
        refine .step ?_
        simpa [Monitor.phase, hout, Stage.phase] using TsyncStep.register hreg
      rw [Monitor.phase_update]
      exact .single h₁
  | @wake r b sync₁ hsleep henter =>
      have h₁ : Move (s.sync, s.phase) (sync₁, Function.update s.phase i r.running) := by
        refine .step ?_
        simpa [Monitor.phase, hsleep, Stage.phase] using TsyncStep.enterAs henter
      rw [Monitor.phase_update]
      exact .single h₁
  | @sleepAgain r b hsleep henter =>
      have hsame : Function.update s.phase i r.waiting = s.phase := by
        have hi : r.waiting = s.phase i := by simp [Monitor.phase, hsleep, Stage.phase]
        rw [hi, Function.update_eq_self]
      rw [Monitor.phase_update, Stage.phase, hsame]
  | readerExit hin hwakes =>
      refine .single (move_of_gentle ?_ hwakes.gentle)
      rw [hin]
      exact .readerExit
  | writerExit hin hwakes =>
      refine .single (move_of_gentle ?_ hwakes.gentle)
      rw [hin]
      exact .writerExit
  | shutdownRevoke hin =>
      refine .single (move_of_gentle ?_ (Gentle.refl _))
      rw [hin]
      exact .shutdownRevoke

end Steps

section Wakeful

variable {ι : Type}

/-- Some user is in the read or the write region. -/
def Busy (stage : ι → Stage) : Prop :=
  ∃ j, stage j = .inside .reader ∨ stage j = .inside .writer

/-- Whoever sleeps without a pending signal has a reason to. -/
structure Wakeful (sync : Tsync) (stage : ι → Stage) : Prop where
  reader : ∀ i, stage i = .asleep .reader false → 0 < sync.writers
  writer : ∀ i, stage i = .asleep .writer false →
    Busy stage ∨ ∃ j, j ≠ i ∧ stage j = .asleep .writer true
  shutdown : ∀ i, stage i = .asleep .shutdown false → 0 < sync.readers ∨ 0 < sync.writers

theorem wakeful_init : Wakeful Tsync.init (fun _ : ι => Stage.out) := by
  constructor <;> · intro i hi; cases hi

section Counted

variable [Fintype ι] {sync : Tsync} {stage : ι → Stage}

theorem Tracked.busy_of_running
    (h : Tracked sync fun j => (stage j).phase)
    (hrun : 0 < sync.runningReaders ∨ 0 < sync.runningWriters) :
    Busy stage := by
  by_contra hidle
  simp only [Busy, not_exists, not_or] at hidle
  have hreaders : ∀ j, ¬ (stage j).phase = .read :=
    fun j hj => (hidle j).1 (Stage.phase_running_iff.mp hj)
  have hwriters : ∀ j, ¬ (stage j).phase = .write :=
    fun j hj => (hidle j).2 (Stage.phase_running_iff.mp hj)
  have h₁ := h.runningReaders
  have h₂ := h.runningWriters
  rw [occupancy_eq_zero_iff.mpr hreaders] at h₁
  rw [occupancy_eq_zero_iff.mpr hwriters] at h₂
  omega

theorem Tracked.readers_nonneg
    {phase : ι → Phase}
    (h : Tracked sync phase) :
    0 ≤ sync.readers := by
  have hcount := h.readers
  omega

theorem Tracked.writers_nonneg
    {phase : ι → Phase}
    (h : Tracked sync phase) :
    0 ≤ sync.writers := by
  have hcount := h.writers
  omega

theorem Tracked.readers_pos
    {phase : ι → Phase} {i : ι}
    (h : Tracked sync phase)
    (hi : (phase i).IsReader) :
    0 < sync.readers := by
  have hcount := h.readers
  have hne : occupancy Phase.IsReader phase ≠ 0 := fun hz => occupancy_eq_zero_iff.mp hz i hi
  omega

theorem Tracked.writers_pos
    {phase : ι → Phase} {i : ι}
    (h : Tracked sync phase)
    (hi : (phase i).IsWriter) :
    0 < sync.writers := by
  have hcount := h.writers
  have hne : occupancy Phase.IsWriter phase ≠ 0 := fun hz => occupancy_eq_zero_iff.mp hz i hi
  omega

end Counted

variable {sync sync' : Tsync} {stage stage' : ι → Stage} {i : ι}

/-- A sleeper in the queue of the shutdown gets the signal that is sent there. -/
theorem Sealed.shutter_signalled
    {j : ι}
    (h : Sealed sync fun j => (stage' j).phase)
    (hsignal : CondSignal .shutdown stage stage')
    (hj : stage' j = .asleep .shutdown false) :
    False := by
  obtain ⟨k, hk⟩ := hsignal.pending j false (hsignal.roused.unsignalled hj)
  have hsame : k = j := by
    refine h.unique k j (.inl ?_) (.inl ?_)
    · rw [hk]
      rfl
    · rw [hj]
      rfl
  subst hsame
  simp [hj] at hk

theorem Sealed.flag_of_asleep
    {j : ι} {b : Bool}
    (h : Sealed sync fun j => (stage j).phase)
    (hj : stage j = .asleep .shutdown b) :
    sync.beingShutdown = true := by
  refine h.flag.mpr ⟨j, .inl ?_⟩
  simp only [hj]
  rfl

variable [DecidableEq ι]

/-- One user gets to another stage and nobody gets a signal.  Either some user is in a
region afterwards, or nobody has lost his reason to sleep as a writer. -/
theorem Wakeful.update
    {st : Stage}
    (h : Wakeful sync stage)
    (hwriters : 0 < sync.writers → 0 < sync'.writers)
    (hregistered : 0 < sync.readers ∨ 0 < sync.writers →
      0 < sync'.readers ∨ 0 < sync'.writers)
    (hreader : st = .asleep .reader false → 0 < sync'.writers)
    (hshutdown : st = .asleep .shutdown false → 0 < sync'.readers ∨ 0 < sync'.writers)
    (hwriter : Busy (Function.update stage i st) ∨
      (stage i ≠ .inside .reader ∧ stage i ≠ .inside .writer ∧ stage i ≠ .asleep .writer true ∧
        st ≠ .asleep .writer false)) :
    Wakeful sync' (Function.update stage i st) := by
  constructor
  · intro j hj
    by_cases hji : j = i
    · subst hji
      exact hreader (by simpa using hj)
    · rw [Function.update_of_ne hji] at hj
      exact hwriters (h.reader j hj)
  · intro j hj
    rcases hwriter with hbusy | ⟨hr, hw, hs, hst⟩
    · exact .inl hbusy
    · have hji : j ≠ i := by
        rintro rfl
        exact hst (by simpa using hj)
      rw [Function.update_of_ne hji] at hj
      rcases h.writer j hj with ⟨k, hk⟩ | ⟨k, hkj, hk⟩
      · have hki : k ≠ i := by
          rintro rfl
          exact hk.elim hr hw
        exact .inl ⟨k, by rwa [Function.update_of_ne hki]⟩
      · have hki : k ≠ i := by
          rintro rfl
          exact hs hk
        exact .inr ⟨k, hkj, by rwa [Function.update_of_ne hki]⟩
  · intro j hj
    by_cases hji : j = i
    · subst hji
      exact hshutdown (by simpa using hj)
    · rw [Function.update_of_ne hji] at hj
      exact hregistered (h.shutdown j hj)

variable [Fintype ι]

theorem Wakeful.readerExit
    (h : Wakeful sync stage)
    (hwakes : ReaderExitWakes sync.readerExit (Function.update stage i .out) stage')
    (hafter : Settled sync.readerExit fun j => (stage' j).phase) :
    Wakeful sync.readerExit stage' := by
  have hgentle := hwakes.gentle
  have hasleep : ∀ j r, stage' j = .asleep r false → stage j = .asleep r false := by
    intro j r hj
    have hout := hgentle.unsignalled j r hj
    by_cases hji : j = i
    · subst hji
      simp at hout
    · rwa [Function.update_of_ne hji] at hout
  constructor
  · intro j hj
    exact h.reader j (hasleep j _ hj)
  · intro j hj
    have hwriters : 0 < sync.readerExit.writers := by
      refine hafter.tracked.writers_pos (i := j) (.inl ?_)
      rw [hj]
      rfl
    obtain ⟨mid, hfirst, hsecond⟩ := hwakes
    by_cases hlast : sync.readerExit.runningReaders = 0
    · -- the last reader has signalled some writer, not this one
      rw [if_pos ⟨hlast, hwriters⟩] at hfirst
      rw [if_neg (by omega)] at hsecond
      subst hsecond
      obtain ⟨k, hk⟩ := hfirst.pending j false (hfirst.roused.unsignalled hj)
      refine .inr ⟨k, ?_, hk⟩
      rintro rfl
      simp [hj] at hk
    · refine .inl (hafter.tracked.busy_of_running (.inl ?_))
      have hcount := hafter.tracked.runningReaders
      omega
  · intro j hj
    by_contra hempty
    have hr := hafter.tracked.readers_nonneg
    have hw := hafter.tracked.writers_nonneg
    have hflag := hafter.isSealed.flag_of_asleep hj
    obtain ⟨mid, hfirst, hsecond⟩ := hwakes
    rw [if_pos ⟨hflag, by omega, by omega⟩] at hsecond
    exact hafter.isSealed.shutter_signalled hsecond hj

theorem Wakeful.writerExit
    (hwakes : WriterExitWakes sync.writerExit (Function.update stage i .out) stage')
    (hafter : Settled sync.writerExit fun j => (stage' j).phase) :
    Wakeful sync.writerExit stage' := by
  have hr := hafter.tracked.readers_nonneg
  have hw := hafter.tracked.writers_nonneg
  constructor
  · intro j hj
    by_contra hempty
    have hreaders : 0 < sync.writerExit.readers := by
      refine hafter.tracked.readers_pos (i := j) (.inl ?_)
      rw [hj]
      rfl
    rw [WriterExitWakes, if_neg (by omega), if_pos hreaders] at hwakes
    have hup := hwakes.pending j false (hwakes.roused.unsignalled hj)
    simp [hj] at hup
  · intro j hj
    have hwriters : 0 < sync.writerExit.writers := by
      refine hafter.tracked.writers_pos (i := j) (.inl ?_)
      rw [hj]
      rfl
    rw [WriterExitWakes, if_pos hwriters] at hwakes
    obtain ⟨k, hk⟩ := hwakes.pending j false (hwakes.roused.unsignalled hj)
    refine .inr ⟨k, ?_, hk⟩
    rintro rfl
    simp [hj] at hk
  · intro j hj
    by_contra hempty
    have hflag := hafter.isSealed.flag_of_asleep hj
    rw [WriterExitWakes, if_neg (by omega), if_neg (by omega),
      if_pos ⟨hflag, by omega, by omega⟩] at hwakes
    exact hafter.isSealed.shutter_signalled hwakes hj

/-- The invariant of a `tsync_t` and its users. -/
structure MonitorInv (s : Monitor ι) : Prop where
  settled : Settled s.sync s.phase
  wakeful : Wakeful s.sync s.stage

omit [DecidableEq ι] in
theorem monitorInv_init : MonitorInv (Monitor.init : Monitor ι) :=
  ⟨settled_init, wakeful_init⟩

theorem Settled.moves
    {from_ upto : Tsync × (ι → Phase)}
    (h : Settled from_.1 from_.2)
    (hmoves : Relation.ReflTransGen Move from_ upto) :
    Settled upto.1 upto.2 := by
  induction hmoves with
  | refl => exact h
  | tail _ hmove ih =>
      obtain ⟨hstep⟩ := hmove
      exact ih.step hstep

theorem MonitorInv.step
    {s t : Monitor ι} {i : ι} {e : Event}
    (h : MonitorInv s)
    (hstep : MonitorStep s i e t) :
    MonitorInv t := by
  have hsettled : Settled t.sync t.phase := h.settled.moves hstep.moves
  refine ⟨hsettled, ?_⟩
  have hr := h.settled.tracked.readers_nonneg
  have hw := h.settled.tracked.writers_nonneg
  cases hstep with
  | refuse => exact h.wakeful
  | @enter r sync₁ sync₂ hout hreg henter =>
      cases r with
      | reader =>
          simp only [Tsync.register, Tsync.readerRequest, Option.ite_none_left_eq_some,
            Option.some.injEq] at hreg
          obtain ⟨-, rfl⟩ := hreg
          simp only [Tsync.enterAs, Tsync.readerGrant, Option.ite_none_left_eq_some,
            Option.some.injEq] at henter
          obtain ⟨-, rfl⟩ := henter
          refine h.wakeful.update id ?_ (by simp) (by simp) (.inl ⟨i, by simp⟩)
          intro _
          exact .inl (by simpa using by omega)
      | writer =>
          simp only [Tsync.register, Tsync.writerRequest, Option.ite_none_left_eq_some,
            Option.some.injEq] at hreg
          obtain ⟨-, rfl⟩ := hreg
          simp only [Tsync.enterAs, Tsync.writerGrant, Option.ite_none_left_eq_some,
            Option.some.injEq] at henter
          obtain ⟨-, rfl⟩ := henter
          have hpos : 0 < s.sync.writers + 1 := by omega
          exact h.wakeful.update (fun _ => hpos) (fun _ => .inr hpos) (by simp) (by simp)
            (.inl ⟨i, by simp⟩)
      | shutdown =>
          simp only [Tsync.register, Tsync.shutdownRequest, Option.ite_none_left_eq_some,
            Option.some.injEq] at hreg
          obtain ⟨-, rfl⟩ := hreg
          simp only [Tsync.enterAs, Tsync.shutdownGrant, Option.ite_none_left_eq_some,
            Option.some.injEq] at henter
          obtain ⟨-, rfl⟩ := henter
          exact h.wakeful.update id id (by simp) (by simp) (.inr (by simp [hout]))
  | @sleep r sync₁ hout hreg henter =>
      cases r with
      | reader =>
          simp only [Tsync.register, Tsync.readerRequest, Option.ite_none_left_eq_some,
            Option.some.injEq] at hreg
          obtain ⟨-, rfl⟩ := hreg
          simp only [Tsync.enterAs, Tsync.readerGrant, ite_eq_left_iff, reduceCtorEq, imp_false,
            not_not] at henter
          exact h.wakeful.update id (fun _ => .inr henter) (fun _ => henter) (by simp)
            (.inr (by simp [hout]))
      | writer =>
          simp only [Tsync.register, Tsync.writerRequest, Option.ite_none_left_eq_some,
            Option.some.injEq] at hreg
          obtain ⟨-, rfl⟩ := hreg
          simp only [Tsync.enterAs, Tsync.writerGrant, ite_eq_left_iff, reduceCtorEq, imp_false,
            not_not] at henter
          have hpos : 0 < s.sync.writers + 1 := by omega
          exact h.wakeful.update (fun _ => hpos) (fun _ => .inr hpos) (by simp) (by simp)
            (.inl (hsettled.tracked.busy_of_running henter))
      | shutdown =>
          simp only [Tsync.register, Tsync.shutdownRequest, Option.ite_none_left_eq_some,
            Option.some.injEq] at hreg
          obtain ⟨-, rfl⟩ := hreg
          simp only [Tsync.enterAs, Tsync.shutdownGrant, ite_eq_left_iff, reduceCtorEq, imp_false,
            not_not] at henter
          exact h.wakeful.update id id (by simp) (fun _ => henter) (.inr (by simp [hout]))
  | @wake r b sync₁ hsleep henter =>
      cases r with
      | reader =>
          simp only [Tsync.enterAs, Tsync.readerGrant, Option.ite_none_left_eq_some,
            Option.some.injEq] at henter
          obtain ⟨-, rfl⟩ := henter
          exact h.wakeful.update id id (by simp) (by simp) (.inl ⟨i, by simp⟩)
      | writer =>
          simp only [Tsync.enterAs, Tsync.writerGrant, Option.ite_none_left_eq_some,
            Option.some.injEq] at henter
          obtain ⟨-, rfl⟩ := henter
          exact h.wakeful.update id id (by simp) (by simp) (.inl ⟨i, by simp⟩)
      | shutdown =>
          simp only [Tsync.enterAs, Tsync.shutdownGrant, Option.ite_none_left_eq_some,
            Option.some.injEq] at henter
          obtain ⟨-, rfl⟩ := henter
          exact h.wakeful.update id id (by simp) (by simp) (.inr (by simp [hsleep]))
  | @sleepAgain r b hsleep henter =>
      cases r with
      | reader =>
          simp only [Tsync.enterAs, Tsync.readerGrant, ite_eq_left_iff, reduceCtorEq, imp_false,
            not_not] at henter
          exact h.wakeful.update id id (fun _ => henter) (by simp) (.inr (by simp [hsleep]))
      | writer =>
          simp only [Tsync.enterAs, Tsync.writerGrant, ite_eq_left_iff, reduceCtorEq, imp_false,
            not_not] at henter
          exact h.wakeful.update id id (by simp) (by simp)
            (.inl (hsettled.tracked.busy_of_running henter))
      | shutdown =>
          simp only [Tsync.enterAs, Tsync.shutdownGrant, ite_eq_left_iff, reduceCtorEq, imp_false,
            not_not] at henter
          exact h.wakeful.update id id (by simp) (fun _ => henter) (.inr (by simp [hsleep]))
  | readerExit hin hwakes => exact h.wakeful.readerExit hwakes hsettled
  | writerExit hin hwakes => exact Wakeful.writerExit hwakes hsettled
  | shutdownRevoke hin =>
      exact h.wakeful.update id id (by simp) (by simp) (.inr (by simp [hin]))

theorem MonitorInv.run
    {s t : Monitor ι} {events : List (ι × Event)}
    (h : MonitorInv s)
    (hrun : MonitorRun s events t) :
    MonitorInv t := by
  induction hrun with
  | nil => exact h
  | cons hstep _ ih => exact ih (h.step hstep)

end Wakeful

section Runs

variable {ι : Type} [DecidableEq ι]

theorem MonitorRun.split
    {s t : Monitor ι} {first second : List (ι × Event)}
    (h : MonitorRun s (first ++ second) t) :
    ∃ mid, MonitorRun s first mid ∧ MonitorRun mid second t := by
  induction first generalizing s with
  | nil => exact ⟨s, .nil s, h⟩
  | cons e rest ih =>
      cases h with
      | cons hstep hrest =>
          obtain ⟨mid, h₁, h₂⟩ := ih hrest
          exact ⟨mid, .cons hstep h₁, h₂⟩

/-- After an entry the user is inside. -/
theorem MonitorStep.inside_of_enter
    {s t : Monitor ι} {i : ι} {r : Role}
    (h : MonitorStep s i (.enter r) t) :
    t.stage i = .inside r := by
  cases h with
  | enter => simp
  | wake => simp

/-- A reader is let in only if no writer is registered. -/
theorem MonitorStep.writers_of_enter_reader
    {s t : Monitor ι} {i : ι}
    (h : MonitorStep s i (.enter .reader) t) :
    ¬ 0 < s.sync.writers := by
  cases h with
  | enter hout hreg henter =>
      simp only [Tsync.register, Tsync.readerRequest, Option.ite_none_left_eq_some,
        Option.some.injEq] at hreg
      obtain ⟨-, rfl⟩ := hreg
      simp only [Tsync.enterAs, Tsync.readerGrant, Option.ite_none_left_eq_some] at henter
      exact henter.1
  | wake hsleep henter =>
      simp only [Tsync.enterAs, Tsync.readerGrant, Option.ite_none_left_eq_some] at henter
      exact henter.1

theorem Tsync.register_of_raised
    {sync : Tsync}
    (h : sync.beingShutdown = true)
    (r : Role) :
    sync.register r = none := by
  cases r with
  | reader => simp [Tsync.register, Tsync.readerRequest, h]
  | writer => simp [Tsync.register, Tsync.writerRequest, h]
  | shutdown => simp [Tsync.register, Tsync.shutdownRequest, h]

/-- While a user has the object for himself, the others can only be refused. -/
theorem Sealed.refused_of_shutdown
    {s t : Monitor ι} {i j : ι} {e : Event}
    (h : Sealed s.sync s.phase)
    (hi : s.stage i = .inside .shutdown)
    (hstep : MonitorStep s j e t) :
    (∃ r, e = .refused r ∧ t = s) ∨ (e = .leave .shutdown ∧ j = i) := by
  have hphase : s.phase i = .shutdown := by simp [Monitor.phase, hi, Stage.phase, Role.running]
  have hraised : s.sync.beingShutdown = true := h.flag.mpr ⟨i, .inr hphase⟩
  have hnone := h.alone i hphase j
  have hasleep : ∀ r b, s.stage j ≠ .asleep r b := by
    intro r b hj
    cases r with
    | reader => exact hnone.1 (.inl (by simp [Monitor.phase, hj, Stage.phase, Role.waiting]))
    | writer => exact hnone.2 (.inl (by simp [Monitor.phase, hj, Stage.phase, Role.waiting]))
    | shutdown =>
        have hwait : s.phase j = .waitShutdown := by
          simp [Monitor.phase, hj, Stage.phase, Role.waiting]
        have hji := h.unique j i (.inl hwait) (.inr hphase)
        subst hji
        simp [hphase] at hwait
  cases hstep with
  | refuse => exact .inl ⟨_, rfl, rfl⟩
  | enter hout hreg henter => simp [Tsync.register_of_raised hraised] at hreg
  | sleep hout hreg henter => simp [Tsync.register_of_raised hraised] at hreg
  | wake hsleep => exact absurd hsleep (hasleep _ _)
  | sleepAgain hsleep => exact absurd hsleep (hasleep _ _)
  | readerExit hin =>
      exact absurd (.inr (by simp [Monitor.phase, hin, Stage.phase, Role.running])) hnone.1
  | writerExit hin =>
      exact absurd (.inr (by simp [Monitor.phase, hin, Stage.phase, Role.running])) hnone.2
  | shutdownRevoke hin =>
      refine .inr ⟨rfl, h.unique j i (.inr ?_) (.inr hphase)⟩
      simp [Monitor.phase, hin, Stage.phase, Role.running]

/-- Nobody enters a region until the user who has the object for himself revokes. -/
theorem MonitorRun.refused_of_shutdown
    {s t : Monitor ι} {i : ι} {events : List (ι × Event)}
    (hrun : MonitorRun s events t)
    (h : Sealed s.sync s.phase)
    (hi : s.stage i = .inside .shutdown)
    (hrevoke : ∀ j, (j, .leave .shutdown) ∉ events) :
    t = s ∧ ∀ j r, (j, .enter r) ∉ events := by
  induction hrun with
  | nil => simp
  | @cons s mid t j e rest hstep hrest ih =>
      rcases h.refused_of_shutdown hi hstep with ⟨r, rfl, rfl⟩ | ⟨rfl, rfl⟩
      · obtain ⟨hend, hnever⟩ := ih h hi fun k hk => hrevoke k (List.mem_cons_of_mem _ hk)
        refine ⟨hend, ?_⟩
        intro k r'
        simpa using hnever k r'
      · exact absurd List.mem_cons_self (hrevoke j)

variable [Fintype ι]

/-- Without a revoke a shutdown succeeds at most once. -/
theorem MonitorRun.count_shutdown_le_one
    {s t : Monitor ι} {events : List (ι × Event)}
    (hrun : MonitorRun s events t)
    (h : MonitorInv s)
    (hrevoke : ∀ j, (j, .leave .shutdown) ∉ events) :
    events.countP (·.2 = .enter .shutdown) ≤ 1 := by
  induction hrun with
  | nil => simp
  | @cons s mid t j e rest hstep hrest ih =>
      have hmid := h.step hstep
      have hlater : ∀ k, (k, .leave .shutdown) ∉ rest :=
        fun k hk => hrevoke k (List.mem_cons_of_mem _ hk)
      by_cases he : e = .enter .shutdown
      · subst he
        have hin := hstep.inside_of_enter
        obtain ⟨-, hnever⟩ := hrest.refused_of_shutdown hmid.settled.isSealed hin hlater
        have hzero : rest.countP (·.2 = .enter .shutdown) = 0 := by
          rw [List.countP_eq_zero]
          rintro ⟨k, e⟩ hk he
          simp only [decide_eq_true_eq] at he
          exact hnever k .shutdown (he ▸ hk)
        simp [hzero]
      · rw [List.countP_cons_of_neg (by simpa using he)]
        exact ih hmid hlater

/-- The regions of a `tsync_t`, in every run of its users. -/
theorem monitor_regions_safe
    {events : List (ι × Event)} {s : Monitor ι}
    (hrun : MonitorRun Monitor.init events s) :
    Tracked s.sync s.phase ∧
      (∀ i j, s.stage i = .inside .writer →
        s.stage j = .inside .reader ∨ s.stage j = .inside .writer → i = j) ∧
      (∀ i t, MonitorStep s i (.enter .reader) t → ∀ j, ¬ (s.phase j).IsWriter) ∧
      (∀ before between after, events = before ++ between ++ after →
        (∀ j, (j, .leave .shutdown) ∉ between) →
        between.countP (·.2 = .enter .shutdown) ≤ 1) ∧
      (∀ before i since, events = before ++ (i, .enter .shutdown) :: since →
        (∀ j, (j, .leave .shutdown) ∉ since) →
        (∀ j, s.stage j ≠ .inside .reader ∧ s.stage j ≠ .inside .writer) ∧
          ∀ j r, (j, .enter r) ∉ since) := by
  have hinv : MonitorInv s := monitorInv_init.run hrun
  refine ⟨hinv.settled.tracked, ?_, ?_, ?_, ?_⟩
  · intro i j hi hj
    refine hinv.settled.exclusive i j (Stage.phase_running_iff.mpr hi) ?_
    exact hj.imp Stage.phase_running_iff.mpr Stage.phase_running_iff.mpr
  · intro i t hstep j hj
    exact hstep.writers_of_enter_reader (hinv.settled.tracked.writers_pos hj)
  · rintro before between after rfl hrevoke
    obtain ⟨s₂, h₁, -⟩ := hrun.split
    obtain ⟨s₁, h₀, hbetween⟩ := h₁.split
    exact hbetween.count_shutdown_le_one (monitorInv_init.run h₀) hrevoke
  · rintro before i since rfl hrevoke
    obtain ⟨s₁, h₀, hrest⟩ := hrun.split
    cases hrest with
    | @cons _ s₂ _ _ _ _ hstep hsince =>
        have hinv₂ : MonitorInv s₂ := (monitorInv_init.run h₀).step hstep
        have hin := hstep.inside_of_enter
        obtain ⟨rfl, hnever⟩ := hsince.refused_of_shutdown hinv₂.settled.isSealed hin hrevoke
        have halone := hinv.settled.isSealed.alone i (Stage.phase_running_iff.mpr hin)
        refine ⟨fun j => ⟨fun hj => ?_, fun hj => ?_⟩, hnever⟩
        · exact (halone j).1 (.inr (Stage.phase_running_iff.mpr hj))
        · exact (halone j).2 (.inr (Stage.phase_running_iff.mpr hj))

/-- A writer and a reader who has to wait for him. -/
def passageEvents : List (Fin 3 × Event) :=
  [(0, .enter .writer), (1, .sleep .reader), (0, .leave .writer), (1, .enter .reader),
    (1, .leave .reader)]

theorem passage_run :
    ∃ s : Monitor (Fin 3),
      MonitorRun Monitor.init
        (passageEvents ++ [(2, .enter .shutdown), (0, .refused .writer)]) s := by
  have hwakes : WriterExitWakes ⟨false, 1, 0, 0, 0⟩
      (Function.update (Function.update (Function.update (fun _ : Fin 3 => .out) 0
        (.inside .writer)) 1 (.asleep .reader false)) 0 .out)
      (Function.update (fun _ => .out) 1 (.asleep .reader true)) := by
    refine ⟨?_, ?_⟩
    · intro j
      fin_cases j
      · exact .inl rfl
      · exact .inr ⟨⟨false, rfl⟩, rfl⟩
      · exact .inl rfl
    · intro j b hj
      fin_cases j
      · cases hj
      · rfl
      · cases hj
  exact ⟨_, .cons (.enter rfl rfl rfl) (.cons (.sleep rfl rfl rfl)
    (.cons (.writerExit rfl hwakes) (.cons (.wake rfl rfl)
      (.cons (.readerExit rfl ⟨_, rfl, rfl⟩) (.cons (.enter rfl rfl rfl)
        (.cons (.refuse rfl rfl) (.nil _)))))))⟩

theorem monitor_regions_safe_passage :
    ∃ s : Monitor (Fin 3),
      MonitorRun Monitor.init
        (passageEvents ++ [(2, .enter .shutdown), (0, .refused .writer)]) s ∧
      ∀ j, s.stage j ≠ .inside .reader ∧ s.stage j ≠ .inside .writer := by
  obtain ⟨s, hrun⟩ := passage_run
  obtain ⟨-, -, -, -, hlast⟩ := monitor_regions_safe hrun
  exact ⟨s, hrun, (hlast passageEvents 2 [(0, .refused .writer)] rfl (by simp)).1⟩

/-- No wake-up is lost: in every reachable state whoever sleeps without a pending
signal has a reason to. -/
theorem monitor_sleepers_justified
    {events : List (ι × Event)} {s : Monitor ι}
    (hrun : MonitorRun Monitor.init events s) :
    (∀ i, s.stage i = .asleep .reader false → 0 < s.sync.writers) ∧
      (∀ i, s.stage i = .asleep .writer false →
        (∃ j, s.stage j = .inside .reader ∨ s.stage j = .inside .writer) ∨
          ∃ j, j ≠ i ∧ s.stage j = .asleep .writer true) ∧
      (∀ i, s.stage i = .asleep .shutdown false →
        0 < s.sync.readers ∨ 0 < s.sync.writers) := by
  have hwakeful := (monitorInv_init.run hrun).wakeful
  exact ⟨hwakeful.reader, hwakeful.writer, hwakeful.shutdown⟩

/-- A reader inside, a writer who sleeps because of him, and a reader who sleeps because
of the writer. -/
theorem monitor_sleepers_justified_waiting :
    ∃ s : Monitor (Fin 3),
      MonitorRun Monitor.init [(0, .enter .reader), (1, .sleep .writer), (2, .sleep .reader)] s ∧
        s.stage 2 = .asleep .reader false ∧ 0 < s.sync.writers := by
  have hrun : MonitorRun Monitor.init
      [((0 : Fin 3), .enter .reader), (1, .sleep .writer), (2, .sleep .reader)] _ :=
    .cons (.enter rfl rfl rfl) (.cons (.sleep rfl rfl rfl) (.cons (.sleep rfl rfl rfl) (.nil _)))
  exact ⟨_, hrun, rfl, (monitor_sleepers_justified hrun).1 2 rfl⟩

end Runs

end Obix
