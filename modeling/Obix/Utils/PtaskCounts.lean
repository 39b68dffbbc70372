import Obix.Lib.Runs
import Obix.Utils.PtaskMoves

/-!
# Tasks are executed as often as asked for

The remaining number of executions is counted down behind the workload, and the task is freed
when it comes to zero.  A reset in between does not write to the number.  The executions that have
ended and the remaining ones add up to the number that has been asked for, as long as the task is
not rescheduled (`executions_counted`).
-/

namespace Obix

namespace TaskCycle

/-- A task is not rescheduled. -/
def leavesTimes (s : TaskCycle) (p : Nat) : CycleOp → Bool
  | .reschedule id period executeTimes add =>
      s.thread.reschedules id period executeTimes add ≠ some p
  | _ => true

/-- The counts of a task. -/
structure Counted (s : TaskCycle) (p : Nat) : Prop where
  /-- An address that has not been used. -/
  new : s.thread.brk ≤ p → s.completed p = 0
  running : s.started p = s.completed p + if s.thread.worker = .executing p then 1 else 0
  known : ∀ k, s.asked p = some k → p < s.thread.brk
  remaining : ∀ k n, s.asked p = some k → 0 < k →
    (s.thread.heap p).map PeriodicTask.executeTimes = some n → s.completed p + n = k ∧ 0 < n
  done : ∀ k, s.asked p = some k → 0 < k → s.thread.heap p = none → s.completed p = k
  forever : s.asked p = some executeIndefinite →
    (s.thread.heap p).map PeriodicTask.executeTimes = some executeIndefinite

end TaskCycle

section Steps

variable {s u : TaskCycle} {op : CycleOp} {p : Nat}

/-- The task has the same number of executions to go, and none has begun or ended. -/
theorem TaskCycle.Counted.same
    (h : s.Counted p)
    (hbrk : s.thread.brk ≤ u.thread.brk)
    (htimes : (u.thread.heap p).map PeriodicTask.executeTimes =
      (s.thread.heap p).map PeriodicTask.executeTimes)
    (hworker : u.thread.worker = .executing p ↔ s.thread.worker = .executing p)
    (hasked : u.asked p = s.asked p)
    (hstarted : u.started p = s.started p)
    (hcompleted : u.completed p = s.completed p) :
    u.Counted p := by
  refine ⟨?_, ?_, ?_, ?_, ?_, ?_⟩
  · intro hle
    rw [hcompleted]
    exact h.new (Nat.le_trans hbrk hle)
  · rw [hstarted, hcompleted, h.running]
    simp only [hworker]
  · intro k hk
    exact Nat.lt_of_lt_of_le (h.known k (hasked ▸ hk)) hbrk
  · intro k n hk hpos hn
    rw [hcompleted]
    exact h.remaining k n (hasked ▸ hk) hpos (htimes ▸ hn)
  · intro k hk hpos hnone
    rw [hcompleted]
    refine h.done k (hasked ▸ hk) hpos ?_
    rw [hnone, Option.map_none] at htimes
    exact Option.map_eq_none_iff.mp htimes.symm
  · intro hk
    rw [htimes]
    exact h.forever (hasked ▸ hk)

/-- The worker starts a task. -/
theorem TaskCycle.Counted.execute
    {q : Nat} {ptask : PeriodicTask}
    (h : s.Counted p)
    (hq : s.thread.heap q = some ptask)
    (hidle : s.thread.worker ≠ .executing p) :
    (s.execute q).Counted p := by
  have htimes : ((s.execute q).thread.heap p).map PeriodicTask.executeTimes =
      (s.thread.heap p).map PeriodicTask.executeTimes := by
    rw [execute_of_live hq]
    dsimp only
    by_cases hpq : p = q
    · subst hpq
      have hself : (s.thread.written p { ptask with isExecuting := true }).heap p =
          some { ptask with isExecuting := true } := heap_written_self
      rw [hself, hq]
      rfl
    · rw [heap_written_of_ne hpq]
  rw [execute_of_live hq] at htimes ⊢
  by_cases hpq : q = p
  · subst hpq
    have hsame : TaskCycle.Counted { s with
        thread := { s.thread.written q { ptask with isExecuting := true } with
          worker := s.thread.worker } } q :=
      h.same le_rfl htimes Iff.rfl rfl rfl rfl
    refine ⟨hsame.new, ?_, hsame.known, hsame.remaining, hsame.done, hsame.forever⟩
    dsimp only
    rw [Function.update_self, if_pos rfl, h.running, if_neg hidle]
  · refine h.same le_rfl htimes ?_ rfl ?_ rfl
    · simp [hpq, hidle]
    · exact Function.update_of_ne (Ne.symm hpq) _ _

theorem TaskCycle.Counted.taken
    {q : Nat} {next : Timespec}
    (h : s.Counted p)
    (hworker : s.thread.worker = .idle) :
    (s.taken q next).Counted p :=
  h.same le_rfl rfl (by simp [TaskCycle.taken, hworker]) rfl rfl rfl

/-- Some task is written to, and the number of this one stays. -/
theorem TaskCycle.Counted.wrote
    {t : TaskThread} {q : Nat} {ptask : PeriodicTask}
    (h : s.Counted p)
    (hwrote : s.thread.Wrote t q ptask)
    (htimes : (t.heap p).map PeriodicTask.executeTimes =
      (s.thread.heap p).map PeriodicTask.executeTimes) :
    TaskCycle.Counted { s.signal true with thread := t } p := by
  obtain ⟨hworker, -, hbrk, -⟩ := hwrote.relinked.fields
  refine h.same (hbrk ▸ le_rfl) htimes ?_ ?_ ?_ ?_
  · dsimp only
    rw [hworker]
    rfl
  · exact congrFun (signal_asked true) p
  · exact congrFun (signal_started true) p
  · exact congrFun (signal_completed true) p

/-- The task is made. -/
theorem TaskCycle.Counted.made
    {t : TaskThread} {executeTimes : Int}
    (h : s.Counted s.thread.brk)
    (hbrk : t.brk = s.thread.brk + 1)
    (hworker : t.worker = s.thread.worker)
    (htimes : (t.heap s.thread.brk).map PeriodicTask.executeTimes = some executeTimes) :
    TaskCycle.Counted
      { s.signal true with
        thread := t
        asked := Function.update s.asked s.thread.brk (some executeTimes) } s.thread.brk := by
  have hzero := h.new le_rfl
  have hstarted : (s.signal true).started = s.started := signal_started true
  have hcompleted : (s.signal true).completed = s.completed := signal_completed true
  refine ⟨?_, ?_, ?_, ?_, ?_, ?_⟩ <;> dsimp only
  · intro hle
    omega
  · rw [hstarted, hcompleted, hworker]
    exact h.running
  · intro k hk
    omega
  · intro k n hk hpos hn
    rw [Function.update_self, Option.some_inj] at hk
    rw [htimes, Option.some_inj] at hn
    rw [hcompleted, hzero]
    omega
  · intro k hk hpos hnone
    rw [hnone] at htimes
    cases htimes
  · intro hk
    rw [Function.update_self] at hk
    rw [htimes, hk]

/-- An execution of the task ends. -/
theorem TaskCycle.Counted.ended
    {t : TaskThread} {freed : List Nat}
    (h : s.Counted p)
    (hworker : s.thread.worker = .executing p)
    (hidle : t.worker = .idle)
    (hbrk : t.brk = s.thread.brk)
    (hremaining : ∀ k n, s.asked p = some k → 0 < k →
      (t.heap p).map PeriodicTask.executeTimes = some n →
        ((s.completed p + 1 : Nat) : Int) + n = k ∧ 0 < n)
    (hdone : ∀ k, s.asked p = some k → 0 < k → t.heap p = none →
      ((s.completed p + 1 : Nat) : Int) = k)
    (hforever : s.asked p = some executeIndefinite →
      (t.heap p).map PeriodicTask.executeTimes = some executeIndefinite)
    (hlive : p < s.thread.brk) :
    TaskCycle.Counted
      { s with
        thread := t
        completed := Function.update s.completed p (s.completed p + 1)
        freed := freed } p := by
  refine ⟨?_, ?_, ?_, ?_, ?_, ?_⟩ <;> dsimp only
  · intro hle
    omega
  · rw [Function.update_self, h.running, if_pos hworker, hidle]
    simp
  · intro k hk
    rw [hbrk]
    exact h.known k hk
  · rw [Function.update_self]
    exact hremaining
  · rw [Function.update_self]
    exact hdone
  · exact hforever

/-- An execution of another task ends. -/
theorem TaskCycle.Counted.other
    {t : TaskThread} {freed : List Nat} {q : Nat}
    (h : s.Counted p)
    (hpq : p ≠ q)
    (hworker : s.thread.worker = .executing q)
    (hidle : t.worker = .idle)
    (hbrk : t.brk = s.thread.brk)
    (htimes : (t.heap p).map PeriodicTask.executeTimes =
      (s.thread.heap p).map PeriodicTask.executeTimes) :
    TaskCycle.Counted
      { s with
        thread := t
        completed := Function.update s.completed q (s.completed q + 1)
        freed := freed } p := by
  refine h.same (hbrk ▸ le_rfl) htimes ?_ rfl rfl ?_
  · simp [hidle, hworker, Ne.symm hpq]
  · exact Function.update_of_ne hpq _ _

theorem TaskCycle.Counted.of_move
    (h : s.Counted p)
    (hlive : s.Undisturbed)
    (hleaves : s.leavesTimes p op = true)
    (hmove : s.Move op u) :
    u.Counted p := by
  obtain ⟨l, hheld⟩ := hlive.held
  cases hmove with
  | tick => exact h.same le_rfl rfl Iff.rfl rfl rfl rfl
  | refused => exact h
  | @schedule period executeTimes t hgood hheld' hmade =>
      obtain ⟨hworker, -, hbrk, -⟩ := hmade.fields
      have hbrk : t.brk = s.thread.brk + 1 := hbrk
      have hmap := hmade.map_allocated (f := PeriodicTask.executeTimes) (fun _ => rfl) p
      by_cases hp : p = s.thread.brk
      · -- the task itself is made
        subst hp
        rw [if_pos rfl] at hmap
        exact h.made hbrk hworker hmap
      · rw [if_neg hp] at hmap
        refine h.same (hbrk ▸ Nat.le_succ _) hmap ?_ ?_ ?_ ?_
        · dsimp only
          rw [hworker]
          rfl
        · exact Function.update_of_ne hp _ _
        · exact congrFun (signal_started true) p
        · exact congrFun (signal_completed true) p
  | @reset id q ptask t hhit hq hwrote =>
      have hmap := hwrote.map (f := PeriodicTask.executeTimes) (fun _ => rfl) p
      refine h.wrote hwrote ?_
      rw [hmap]
      split
      · rename_i hpq
        rw [hpq, hq]
        rfl
      · rfl
  | @reschedule id q period executeTimes add ptask t hhit hq hwrote =>
      have hmap := hwrote.map (f := PeriodicTask.executeTimes) (fun _ => rfl) p
      have hpq : p ≠ q := by
        rintro rfl
        simp [TaskCycle.leavesTimes, hhit] at hleaves
      rw [if_neg hpq] at hmap
      exact h.wrote hwrote hmap
  | take hworker hp => exact h.taken hworker
  | takeNow hworker hp hinvalid => exact (h.taken hworker).execute hp (by simp [TaskCycle.taken])
  | timeOut hworker hstate hle => exact h.same le_rfl rfl Iff.rfl rfl rfl rfl
  | wake hworker => exact h.same le_rfl rfl (by simp [hworker]) rfl rfl rfl
  | begin hworker hstate hp => exact h.execute hp (by simp [hworker])
  | @finishLast q ptask t hworker hq hlast hfreed =>
      obtain ⟨hidle, -, hbrk, -⟩ := hfreed.relinked.fields
      have hmap := hfreed.map (f := PeriodicTask.executeTimes) (fun _ => rfl) p
      by_cases hpq : p = q
      · subst hpq
        rw [if_pos rfl] at hmap
        have hlast : ptask.executeTimes ≠ executeIndefinite ∧ ptask.executeTimes - 1 = 0 := by
          simpa [PeriodicTask.lastTime] using hlast
        have htimes : (s.thread.heap p).map PeriodicTask.executeTimes = some 1 := by
          rw [hq, Option.map_some, show ptask.executeTimes = 1 by omega]
        have hlt : p < s.thread.brk := hheld.bound p ((hheld.live p).mp (by simp [hq]))
        refine h.ended hworker hidle hbrk ?_ ?_ ?_ hlt
        · intro k n hk hpos hn
          rw [show _ = none from hmap] at hn
          cases hn
        · intro k hk hpos _
          exact (h.remaining k 1 hk hpos htimes).1
        · intro hk
          rw [h.forever hk] at htimes
          cases htimes
      · rw [if_neg hpq] at hmap
        exact h.other hpq hworker hidle hbrk hmap
  | @finish q ptask t hworker hq hmore hwrote =>
      obtain ⟨hidle, -, hbrk, -⟩ := hwrote.relinked.fields
      have hmap := hwrote.map (f := PeriodicTask.executeTimes) (fun _ => rfl) p
      by_cases hpq : p = q
      · subst hpq
        rw [if_pos rfl] at hmap
        have htimes : (s.thread.heap p).map PeriodicTask.executeTimes =
            some ptask.executeTimes := by
          rw [hq, Option.map_some]
        have hexecuted : ptask.executed.executeTimes =
            if ptask.executeTimes = executeIndefinite then ptask.executeTimes
            else ptask.executeTimes - 1 := rfl
        have hmore : ptask.executeTimes ≠ executeIndefinite → ptask.executeTimes - 1 ≠ 0 := by
          simpa [PeriodicTask.lastTime] using hmore
        have hlt : p < s.thread.brk := hheld.bound p ((hheld.live p).mp (by simp [hq]))
        refine h.ended hworker hidle hbrk ?_ ?_ ?_ hlt
        · intro k n hk hpos hn
          rw [show _ = some ptask.executed.executeTimes from hmap, Option.some_inj] at hn
          obtain ⟨hsum, hleft⟩ := h.remaining k _ hk hpos htimes
          have hfinite : ptask.executeTimes ≠ executeIndefinite := by
            unfold executeIndefinite
            omega
          have hnot := hmore hfinite
          rw [hexecuted, if_neg hfinite] at hn
          omega
        · intro k hk hpos hnone
          rw [hnone] at hmap
          cases hmap
        · intro hk
          have hforever : ptask.executeTimes = executeIndefinite := by
            have hsome := h.forever hk
            rwa [htimes, Option.some_inj] at hsome
          rw [show _ = some ptask.executed.executeTimes from hmap, hexecuted, if_pos hforever,
            hforever]
      · rw [if_neg hpq] at hmap
        exact h.other hpq hworker hidle hbrk hmap

theorem counted_init (clock : Timespec) : (TaskCycle.init clock).Counted p where
  new := fun _ => rfl
  running := rfl
  known := by
    rintro k ⟨⟩
  remaining := by
    rintro k n ⟨⟩
  done := by
    rintro k ⟨⟩
  forever := by
    rintro ⟨⟩

theorem counted_step
    (h : s.Undisturbed ∧ s.Counted p)
    (hok : (TaskCycle.noCancel op && s.leavesTimes p op) = true)
    (hstep : s.step op = some u) :
    u.Undisturbed ∧ u.Counted p := by
  obtain ⟨hlive, hcounted⟩ := h
  obtain ⟨hop, hleaves⟩ := (Bool.and_eq_true _ _).mp hok
  have hmove := hlive.move hop hstep
  exact ⟨hlive.of_move hmove, hcounted.of_move hlive hleaves hmove⟩

/-- No more executions have begun than have been asked for. -/
theorem TaskCycle.Counted.started_le
    {k : Int}
    (h : s.Counted p)
    (hlive : s.Undisturbed)
    (hasked : s.asked p = some k)
    (hpos : 0 < k) :
    (s.completed p : Int) ≤ k ∧ (s.started p : Int) ≤ k := by
  have hrunning := h.running
  cases htask : s.thread.heap p with
  | none =>
      have hdone := h.done k hasked hpos htask
      have hnot : s.thread.worker ≠ .executing p := by
        intro hworker
        exact hlive.current p (by rw [hworker]; rfl) htask
      rw [if_neg hnot] at hrunning
      omega
  | some ptask =>
      obtain ⟨hsum, hleft⟩ := h.remaining k ptask.executeTimes hasked hpos (by simp [htask])
      split at hrunning <;> omega

end Steps

section Runs

/-- What a list of tasks and the counts have to do with the executions that have been asked
for. -/
structure TaskCycle.CountedIn (s : TaskCycle) (p : Nat) (k : Int) (l : List Nat) : Prop where
  threads : s.thread.links.Threads l
  remaining : 0 < k → p ∈ l → ∃ ptask, s.thread.heap p = some ptask ∧
    s.completed p + ptask.executeTimes = k
  removed : 0 < k → (p ∈ l ↔ (s.completed p : Int) < k)
  completed : 0 < k → (s.completed p : Int) ≤ k
  started : 0 < k → (s.started p : Int) ≤ k
  forever : k = executeIndefinite → p ∈ l

/-- A task that is not rescheduled, in a run without cancelled tasks: the executions that have
ended and the remaining ones add up, it is in the list until the last one has ended, no more are
begun than have been asked for, and a task without a bound stays in the list. -/
theorem executions_counted
    {clock : Timespec} {p : Nat} {k : Int}
    (s : TaskCycle)
    (hs : Runs.Reaches TaskCycle.step
      (fun s op => (TaskCycle.noCancel op && s.leavesTimes p op) = true) (.init clock) s)
    (hasked : s.asked p = some k) :
    ∃ l, s.CountedIn p k l := by
  obtain ⟨hlive, h⟩ : s.Undisturbed ∧ s.Counted p :=
    hs.invariant (fun _ _ _ h hok hstep => counted_step h hok hstep)
      ⟨TaskCycle.undisturbed_init clock, counted_init clock⟩
  obtain ⟨l, hheld⟩ := hlive.held
  have hremaining : ∀ ptask, s.thread.heap p = some ptask → 0 < k →
      s.completed p + ptask.executeTimes = k ∧ 0 < ptask.executeTimes := by
    intro ptask htask hpos
    exact h.remaining k _ hasked hpos (by rw [htask, Option.map_some])
  refine ⟨l, hheld.threads, ?_, ?_, ?_, ?_, ?_⟩
  · intro hpos hmem
    obtain ⟨ptask, htask⟩ := Option.ne_none_iff_exists'.mp ((hheld.live p).mpr hmem)
    exact ⟨ptask, htask, (hremaining ptask htask hpos).1⟩
  · intro hpos
    rw [← hheld.live]
    constructor
    · intro hsome
      obtain ⟨ptask, htask⟩ := Option.ne_none_iff_exists'.mp hsome
      obtain ⟨hsum, hleft⟩ := hremaining ptask htask hpos
      omega
    · intro hlt hnone
      have hdone := h.done k hasked hpos hnone
      omega
  · exact fun hpos => (h.started_le hlive hasked hpos).1
  · exact fun hpos => (h.started_le hlive hasked hpos).2
  · rintro rfl
    rw [← hheld.live]
    intro hnone
    have hforever := h.forever hasked
    rw [hnone] at hforever
    cases hforever

/-- A task that is to be executed twice, with a reset in between, and one without a bound. -/
def countOps : List CycleOp :=
  [.schedule 1000 2, .schedule 3000 (-1), .tick ⟨101, 0⟩, .take, .timeOut, .begin, .reset 1,
    .finish, .tick ⟨103, 0⟩, .take, .timeOut, .begin, .finish]

theorem executions_counted_sample :
    ∃ s, Runs.exec TaskCycle.step (.init ⟨100, 0⟩) countOps = some s ∧
      s.asked 3145728 = some 2 ∧ s.completed 3145728 = 2 ∧ ∃ l, s.CountedIn 3145728 2 l := by
  have heval : (Runs.exec TaskCycle.step (.init ⟨100, 0⟩) countOps).map (fun s =>
      (s.asked 3145728, s.completed 3145728)) = some (some 2, 2) := by
    decide +kernel
  obtain ⟨s, hexec, hresult⟩ := Option.map_eq_some_iff.mp heval
  simp only [Prod.mk.injEq] at hresult
  obtain ⟨hasked, hcompleted⟩ := hresult
  have hmeets : Runs.meets TaskCycle.step
      (fun s op => TaskCycle.noCancel op && s.leavesTimes 3145728 op) (.init ⟨100, 0⟩) countOps =
      true := by
    decide +kernel
  exact ⟨s, hexec, hasked, hcompleted,
    executions_counted s (Runs.Reaches.refl.exec countOps hmeets hexec) hasked⟩

end Runs

end Obix
