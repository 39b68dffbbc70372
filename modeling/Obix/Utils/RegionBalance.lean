import Obix.Utils.RegionRuns

/-!
# Exits that match entries

A `Balanced` program leaves only regions it is inside of.  Some of its entries may be
`sure`: it goes on as if it were inside even when it has been refused.  In a run in
which no sure entry is asked for while its object is being shut down, every exit
matches an entry and the counters of every object count the threads in its regions
(`Regions.Matched.exec`).
-/

namespace Obix

section Balance

variable {ι ο σ : Type} [DecidableEq ο]

/-- A program of a thread that is inside of the regions `held`, for entries that are
not refused if they are `sure`. -/
def Balanced (sure : Regional ο σ → Prop) : (ο → Option Mode) → Regional ο σ → Prop
  | held, .done => ∀ o, held o = none
  | held, .enter m o granted refused =>
      held o = none ∧ Balanced sure (Function.update held o (some m)) granted ∧
        (sure (.enter m o granted refused) ∨ Balanced sure held refused)
  | held, .insist m o granted =>
      held o = none ∧ Balanced sure (Function.update held o (some m)) granted
  | held, .exit m o next =>
      held o = some m ∧ Balanced sure (Function.update held o none) next
  | held, .shutdown _ granted refused => Balanced sure held granted ∧ Balanced sure held refused
  | held, .revoke _ next => Balanced sure held next
  | held, .access _ next => ∀ s, Balanced sure held (next s)

/-- The phase of a thread in the waiting loop of an entry. -/
def Mode.waiting : Mode → Phase
  | read => .waitRead
  | write => .waitWrite

/-- The phase of a thread inside a region. -/
def Mode.running : Mode → Phase
  | read => .read
  | write => .write

/-- Where a thread is with respect to an object. -/
def Thread.phase (t : Thread ο σ) (o : ο) : Phase :=
  match t.waitsFor with
  | some (m, o') => if o' = o then m.waiting else ((t.held o).map Mode.running).getD .out
  | none => ((t.held o).map Mode.running).getD .out

/-- The entry a thread is about to ask for is not refused if it is sure. -/
def Regions.Unrefused
    (sure : Regional ο σ → Prop)
    (s : Regions ι ο σ)
    (i : ι) : Prop :=
  ∀ o, (s.thread i).asksFor = some o → sure (s.thread i).prog →
    (s.sync o).beingShutdown = false

/-- No sure entry of a run is refused. -/
def Regions.Firm
    [DecidableEq ι]
    (sure : Regional ο σ → Prop) :
    Regions ι ο σ → List (ι × Option (Regional ο σ)) → Prop
  | _, [] => True
  | s, (i, a) :: rest =>
      (a = none → s.Unrefused sure i) ∧ ∀ s' ∈ s.act i a, s'.Firm sure rest

/-- Every exit a thread is about to make matches an entry, no reader counter is negative
and the regions of every object exclude each other. -/
structure Regions.InOrder (s : Regions ι ο σ) : Prop where
  exit : ∀ i m o next, (s.thread i).prog = .exit m o next → (s.thread i).held o = some m
  counters : ∀ o, 0 ≤ (s.sync o).readers ∧ 0 ≤ (s.sync o).runningReaders
  exclusive : ∀ o i j, (s.thread i).held o = some .write → (s.thread j).held o ≠ none → i = j

/-- Every thread runs a balanced program, and the counters count the threads. -/
structure Regions.Matched
    [Fintype ι]
    (sure : Regional ο σ → Prop)
    (s : Regions ι ο σ) : Prop where
  balanced : ∀ j, Balanced sure (s.thread j).held (s.thread j).prog
  blocking : ∀ j, (s.thread j).waiting = true → (s.thread j).prog.blocking = true
  regulated : Regulated s.sync fun j => (s.thread j).phase

end Balance

section Runs

variable {ι ο σ : Type} [DecidableEq ο] [Fintype ι] {sure : Regional ο σ → Prop}
  {s s' : Regions ι ο σ} {i : ι}

theorem Thread.phase_of_not_waitsFor
    {t : Thread ο σ}
    (h : t.waitsFor = none) :
    t.phase = fun o => ((t.held o).map Mode.running).getD .out := by
  funext o
  simp [Thread.phase, h]

theorem Thread.phase_of_not_waiting
    {t : Thread ο σ}
    (h : t.waiting = false) :
    t.phase = fun o => ((t.held o).map Mode.running).getD .out :=
  Thread.phase_of_not_waitsFor (Thread.waitsFor_of_not_waiting h)

theorem Regions.matched_idle
    (hthread : ∀ j, s.thread j = Thread.idle)
    (hsync : ∀ o, s.sync o = Tsync.init) :
    s.Matched sure := by
  constructor
  · intro j
    rw [hthread j]
    exact fun _ => rfl
  · intro j hw
    rw [hthread j] at hw
    cases hw
  · have hphase : (fun j => (s.thread j).phase) = fun (_ : ι) (_ : ο) => Phase.out := by
      funext j o
      rw [hthread j]
      rfl
    have hall : s.sync = fun _ => Tsync.init := funext hsync
    rw [hphase, hall]
    exact regulated_init

/-- A thread that is inside a region of an object does not wait for another one. -/
theorem Regions.Matched.phase_of_held
    {o : ο} {m : Mode}
    (h : s.Matched sure)
    (hheld : (s.thread i).held o = some m) :
    (s.thread i).phase o = m.running := by
  have hbal := h.balanced i
  have hnot : ∀ m', (s.thread i).waitsFor ≠ some (m', o) := by
    intro m' hw
    unfold Thread.waitsFor at hw
    cases hp : (s.thread i).prog <;> cases hwt : (s.thread i).waiting <;>
      simp only [hp, hwt, reduceCtorEq, Option.some.injEq, Prod.mk.injEq] at hw
    · rw [hp] at hbal
      obtain ⟨-, rfl⟩ := hw
      simp [hbal.1] at hheld
    · rw [hp] at hbal
      obtain ⟨-, rfl⟩ := hw
      simp [hbal.1] at hheld
  cases hw : (s.thread i).waitsFor with
  | none => simp [Thread.phase, hw, hheld]
  | some w =>
      have hne : w.2 ≠ o := by
        rintro rfl
        exact hnot w.1 hw
      simp [Thread.phase, hw, hne, hheld]

theorem Regions.Matched.inOrder
    (h : s.Matched sure) :
    s.InOrder := by
  constructor
  · intro i m o next hp
    have hbal := h.balanced i
    rw [hp] at hbal
    exact hbal.1
  · intro o
    have hr := (h.regulated.tracked o).readers
    have hrr := (h.regulated.tracked o).runningReaders
    omega
  · intro o i j hi hj
    obtain ⟨m, hj⟩ := Option.ne_none_iff_exists'.mp hj
    refine h.regulated.exclusive o i j (h.phase_of_held hi) ?_
    cases m with
    | read => exact .inl (h.phase_of_held hj)
    | write => exact .inr (h.phase_of_held hj)

/-- The counters do not depend on the shutdown flag. -/
theorem Tracked.of_counters
    {sync sync' : Tsync} {phase : ι → Phase}
    (h : Tracked sync phase)
    (hr : sync'.readers = sync.readers)
    (hw : sync'.writers = sync.writers)
    (hrr : sync'.runningReaders = sync.runningReaders)
    (hrw : sync'.runningWriters = sync.runningWriters) :
    Tracked sync' phase :=
  ⟨hr.trans h.readers, hw.trans h.writers, hrr.trans h.runningReaders,
    hrw.trans h.runningWriters⟩

theorem Regulated.flag
    {syncs : ο → Tsync} {phases : ι → ο → Phase}
    (h : Regulated syncs phases)
    (o : ο)
    (b : Bool) :
    Regulated (Function.update syncs o { syncs o with beingShutdown := b }) phases := by
  refine ⟨?_, h.exclusive⟩
  intro o'
  by_cases ho : o' = o
  · subst ho
    rw [Function.update_self]
    exact (h.tracked o').of_counters rfl rfl rfl rfl
  · rw [Function.update_of_ne ho]
    exact h.tracked o'

theorem Regions.Matched.not_waiting
    (h : s.Matched sure)
    (hp : (s.thread i).prog.blocking = false) :
    (s.thread i).waiting = false := by
  cases hw : (s.thread i).waiting with
  | false => rfl
  | true => simp [h.blocking i hw] at hp

variable [DecidableEq ι]

/-- One thread has moved and the counters have changed accordingly. -/
theorem Regions.Matched.move
    {t : Thread ο σ}
    (h : s.Matched sure)
    (hthread : s'.thread = Function.update s.thread i t)
    (hbal : Balanced sure t.held t.prog)
    (hblock : t.waiting = true → t.prog.blocking = true)
    (hreg : Regulated s'.sync (Function.update (fun j => (s.thread j).phase) i t.phase)) :
    s'.Matched sure := by
  have hother : ∀ j, j ≠ i → s'.thread j = s.thread j := by
    intro j hj
    rw [hthread, Function.update_of_ne hj]
  have hmine : s'.thread i = t := by simp [hthread]
  constructor
  · intro j
    by_cases hj : j = i
    · rw [hj, hmine]
      exact hbal
    · rw [hother j hj]
      exact h.balanced j
  · intro j
    by_cases hj : j = i
    · rw [hj, hmine]
      exact hblock
    · rw [hother j hj]
      exact h.blocking j
  · have hphase : (fun j => (s'.thread j).phase) =
        Function.update (fun j => (s.thread j).phase) i t.phase := by
      rw [hthread]
      exact Function.comp_update Thread.phase s.thread i t
    rw [hphase]
    exact hreg

/-- A thread has moved and is where it was with respect to all objects. -/
theorem Regions.Matched.stay
    {t : Thread ο σ}
    (h : s.Matched sure)
    (hthread : s'.thread = Function.update s.thread i t)
    (hbal : Balanced sure t.held t.prog)
    (hblock : t.waiting = true → t.prog.blocking = true)
    (hphase : t.phase = (s.thread i).phase)
    (hreg : Regulated s'.sync fun j => (s.thread j).phase) :
    s'.Matched sure := by
  refine h.move hthread hbal hblock ?_
  rw [hphase, Function.update_eq_self i fun j => (s.thread j).phase]
  exact hreg

theorem TsyncStep.request
    {sync sync' : Tsync} {m : Mode}
    (h : sync.request m = some sync') :
    TsyncStep sync .out sync' m.waiting := by
  cases m with
  | read => exact .readerRequest h
  | write => exact .writerRequest h

theorem TsyncStep.grant
    {sync sync' : Tsync} {m : Mode}
    (h : sync.grant m = some sync') :
    TsyncStep sync m.waiting sync' m.running := by
  cases m with
  | read => exact .readerGrant h
  | write => exact .writerGrant h

theorem TsyncStep.leave (sync : Tsync) (m : Mode) :
    TsyncStep sync m.running (sync.leave m) .out := by
  cases m with
  | read => exact .readerExit
  | write => exact .writerExit

theorem Tsync.request_of_up
    {sync : Tsync} {m : Mode}
    (h : sync.beingShutdown = false) :
    sync.request m ≠ none := by
  cases m with
  | read => simp [Tsync.request, Tsync.readerRequest, h]
  | write => simp [Tsync.request, Tsync.writerRequest, h]

/-- The first half of an entry, refused or not. -/
theorem Regions.Matched.ask_step
    {m : Mode} {o : ο} {refused : Regional ο σ}
    (h : s.Matched sure)
    (hwait : (s.thread i).waiting = false)
    (hasks : Thread.waitsFor { s.thread i with waiting := true } = some (m, o))
    (hblock : (s.thread i).prog.blocking = true)
    (hfree : (s.thread i).held o = none)
    (hrefused : (s.sync o).request m = none → Balanced sure (s.thread i).held refused) :
    (s.ask i m o refused).Matched sure := by
  have hphase := Thread.phase_of_not_waiting hwait
  unfold Regions.ask
  cases hreq : (s.sync o).request m with
  | none =>
      refine h.stay rfl (hrefused hreq) ?_ ?_ h.regulated
      · intro hw
        rw [hwait] at hw
        cases hw
      · rw [hphase]
        exact Thread.phase_of_not_waiting hwait
  | some sync =>
      refine h.move rfl (h.balanced i) (fun _ => hblock) ?_
      refine h.regulated.step ?_ ?_
      · rw [hphase]
        simp only [Thread.phase, hasks, if_true, hfree, Option.map_none, Option.getD_none]
        exact .request hreq
      · intro o' ho
        rw [hphase]
        simp [Thread.phase, hasks, ho.symm]

/-- The second half of an entry. -/
theorem Regions.Matched.pass_step
    {m : Mode} {o : ο} {granted : Regional ο σ}
    (h : s.Matched sure)
    (hwaits : (s.thread i).waitsFor = some (m, o))
    (hgranted : Balanced sure (Function.update (s.thread i).held o (some m)) granted)
    (hstep : s.pass i m o granted = some s') :
    s'.Matched sure := by
  obtain ⟨sync, hgrant, rfl⟩ := Option.map_eq_some_iff.mp hstep
  refine h.move rfl hgranted (fun hw => by cases hw) ?_
  refine h.regulated.step ?_ ?_
  · have hbefore : (s.thread i).phase o = m.waiting := by simp [Thread.phase, hwaits]
    rw [hbefore, Thread.phase_of_not_waitsFor (by rfl)]
    simpa using TsyncStep.grant hgrant
  · intro o' ho
    rw [Thread.phase_of_not_waitsFor (by rfl)]
    simp [Thread.phase, hwaits, Function.update_of_ne ho, ho.symm]

/-- A thread that waits for no region goes on with another program. -/
theorem Thread.phase_next
    {t : Thread ο σ} {p : Regional ο σ}
    (h : t.waiting = false) :
    Thread.phase { t with prog := p } = t.phase := by
  rw [Thread.phase_of_not_waiting h, Thread.phase_of_not_waiting (by exact h)]

/-- A step of a thread with a request in hand. -/
theorem Regions.Matched.proceed
    (h : s.Matched sure)
    (hfirm : s.Unrefused sure i)
    (hstep : s.proceed i = some s') :
    s'.Matched sure := by
  have hbal := h.balanced i
  unfold Regions.proceed at hstep
  cases hp : (s.thread i).prog with
  | done => simp [hp] at hstep
  | enter m o granted refused =>
      rw [hp] at hbal
      obtain ⟨hfree, hgranted, hrefused⟩ := hbal
      cases hwait : (s.thread i).waiting with
      | true =>
          simp only [hp, hwait, if_true] at hstep
          exact h.pass_step (by simp [Thread.waitsFor, hp, hwait]) hgranted hstep
      | false =>
          simp only [hp, hwait, Bool.false_eq_true, if_false, Option.some.injEq] at hstep
          subst hstep
          refine h.ask_step hwait (by simp [Thread.waitsFor, hp]) (by simp [hp, Regional.blocking])
            hfree ?_
          intro hnone
          rcases hrefused with hsure | hrefused
          · -- a sure entry is asked for only when the object is not being shut down
            have hup := hfirm o (by simp [Thread.asksFor, hp, hwait]) (by rwa [hp])
            exact absurd hnone (Tsync.request_of_up hup)
          · exact hrefused
  | insist m o granted =>
      have hown := h.balanced i
      rw [hp] at hbal hown
      obtain ⟨hfree, hgranted⟩ := hbal
      cases hwait : (s.thread i).waiting with
      | true =>
          simp only [hp, hwait, if_true] at hstep
          exact h.pass_step (by simp [Thread.waitsFor, hp, hwait]) hgranted hstep
      | false =>
          simp only [hp, hwait, Bool.false_eq_true, if_false, Option.some.injEq] at hstep
          subst hstep
          exact h.ask_step hwait (by simp [Thread.waitsFor, hp]) (by simp [hp, Regional.blocking])
            hfree fun _ => hown
  | exit m o next =>
      have hwait : (s.thread i).waiting = false := h.not_waiting (by simp [hp, Regional.blocking])
      rw [hp] at hbal
      obtain ⟨hheld, hnext⟩ := hbal
      simp only [hp, Option.some.injEq] at hstep
      subst hstep
      refine h.move rfl hnext (fun hw => by simp [hwait] at hw) ?_
      refine h.regulated.step ?_ ?_
      · rw [Thread.phase_of_not_waiting hwait, Thread.phase_of_not_waiting (by exact hwait)]
        simpa [hheld] using TsyncStep.leave (s.sync o) m
      · intro o' ho
        rw [Thread.phase_of_not_waiting hwait, Thread.phase_of_not_waiting (by exact hwait)]
        simp [Function.update_of_ne ho]
  | shutdown o granted refused =>
      rw [hp] at hbal
      obtain ⟨hgranted, hrefused⟩ := hbal
      have hbefore : (s.thread i).waitsFor = none := by
        unfold Thread.waitsFor
        cases hw : (s.thread i).waiting <;> simp [hp]
      have hphase := Thread.phase_of_not_waitsFor hbefore
      cases hwait : (s.thread i).waiting with
      | true =>
          simp only [hp, hwait, if_true] at hstep
          obtain ⟨sync, hgrant, rfl⟩ := Option.map_eq_some_iff.mp hstep
          simp only [Tsync.shutdownGrant, Option.ite_none_left_eq_some, Option.some.injEq] at hgrant
          obtain ⟨-, rfl⟩ := hgrant
          refine h.stay rfl hgranted (fun hw => by cases hw) ?_ ?_
          · rw [hphase]
            exact Thread.phase_of_not_waitsFor rfl
          · rw [Function.update_eq_self]
            exact h.regulated
      | false =>
          simp only [hp, hwait, Bool.false_eq_true, if_false, Option.some.injEq] at hstep
          subst hstep
          unfold Regions.askShutdown
          cases hreq : (s.sync o).shutdownRequest with
          | none =>
              exact h.stay rfl hrefused (fun hw => by simp [hwait] at hw)
                (Thread.phase_next hwait) h.regulated
          | some sync =>
              simp only [Tsync.shutdownRequest, Option.ite_none_left_eq_some,
                Option.some.injEq] at hreq
              obtain ⟨-, rfl⟩ := hreq
              refine h.stay rfl ?_ (fun _ => by simp [hp, Regional.blocking]) ?_
                (h.regulated.flag o true)
              · exact h.balanced i
              · rw [hphase]
                exact Thread.phase_of_not_waitsFor (by simp [Thread.waitsFor, hp])
  | revoke o next =>
      have hwait : (s.thread i).waiting = false := h.not_waiting (by simp [hp, Regional.blocking])
      rw [hp] at hbal
      simp only [hp, Option.some.injEq] at hstep
      subst hstep
      exact h.stay rfl hbal (fun hw => by simp [hwait] at hw) (Thread.phase_next hwait)
        (h.regulated.flag o false)
  | access upd next =>
      have hwait : (s.thread i).waiting = false := h.not_waiting (by simp [hp, Regional.blocking])
      rw [hp] at hbal
      simp only [hp, Option.some.injEq] at hstep
      subst hstep
      exact h.stay rfl (hbal s.data) (fun hw => by simp [hwait] at hw) (Thread.phase_next hwait)
        h.regulated

theorem Regions.Matched.start
    {request : Regional ο σ}
    (h : s.Matched sure)
    (hrequest : Balanced sure (fun _ => none) request)
    (hstep : s.start i request = some s') :
    s'.Matched sure := by
  unfold Regions.start at hstep
  cases hp : (s.thread i).prog with
  | done =>
      simp only [hp, Option.some.injEq] at hstep
      subst hstep
      have hwait : (s.thread i).waiting = false := h.not_waiting (by simp [hp, Regional.blocking])
      have hbal := h.balanced i
      rw [hp] at hbal
      have hempty : (s.thread i).held = fun _ => none := funext hbal
      refine h.stay rfl ?_ (fun hw => by simp [hwait] at hw) (Thread.phase_next hwait) h.regulated
      rw [hempty]
      exact hrequest
  | enter => simp [hp] at hstep
  | insist => simp [hp] at hstep
  | exit => simp [hp] at hstep
  | shutdown => simp [hp] at hstep
  | revoke => simp [hp] at hstep
  | access => simp [hp] at hstep

/-- A run of balanced requests in which no sure entry is refused. -/
theorem Regions.Matched.exec
    {acts : List (ι × Option (Regional ο σ))}
    (h : s.Matched sure)
    (hbalanced : ∀ i request, (i, some request) ∈ acts → Balanced sure (fun _ => none) request)
    (hfirm : s.Firm sure acts)
    (hrun : s.exec acts = some s') :
    s'.Matched sure := by
  induction acts generalizing s with
  | nil =>
      obtain rfl : s = s' := Option.some.inj hrun
      exact h
  | cons step rest ih =>
      obtain ⟨i, a⟩ := step
      obtain ⟨t, hstep, hrest⟩ := Option.bind_eq_some_iff.mp hrun
      have ht : t.Matched sure := by
        cases a with
        | none => exact h.proceed (hfirm.1 rfl) hstep
        | some request => exact h.start (hbalanced i request (by simp)) hstep
      refine ih ht ?_ (hfirm.2 t hstep) hrest
      intro i request hmem
      exact hbalanced i request (List.mem_cons_of_mem _ hmem)

/-- No object that a thread asks for is being shut down. -/
def Regions.steady : Regions ι ο σ → List (ι × Option (Regional ο σ)) → Bool
  | _, [] => true
  | s, (i, a) :: rest =>
      ((s.thread i).asksFor.all fun o => !(s.sync o).beingShutdown) &&
        (s.act i a).all fun s' => s'.steady rest

omit [Fintype ι] in
theorem Regions.Firm.of_steady
    {acts : List (ι × Option (Regional ο σ))}
    (h : s.steady acts = true) :
    s.Firm sure acts := by
  induction acts generalizing s with
  | nil => trivial
  | cons step rest ih =>
      obtain ⟨i, a⟩ := step
      simp only [Regions.steady, Bool.and_eq_true, Option.all_eq_true] at h
      obtain ⟨hasked, hrest⟩ := h
      refine ⟨?_, fun s' hs' => ih (hrest s' hs')⟩
      intro _ o hasks _
      simpa using hasked o hasks

end Runs

end Obix
