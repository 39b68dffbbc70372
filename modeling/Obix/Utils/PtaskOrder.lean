import Obix.Utils.PtaskLinks

/-!
# The queue of periodic tasks stays in order

A task that is executed moves back in the list, and its place is looked for from its old one on.
When a task is rescheduled or reset its due time may also become earlier, and with `add` it is
not moved at all.  As long as the new due time is not before that of the task in front, and with
`add` not behind that of the next one, the list stays well formed and sorted, and it has exactly
the unfinished tasks (`tasks_in_order`).
-/

namespace Obix

section Times

variable {time time₁ time₂ time₃ : Timespec}

/-- A time as the system gives it. -/
structure Timespec.Valid (time : Timespec) : Prop where
  sec : 0 ≤ time.sec
  nsec : 0 ≤ time.nsec
  nsec_lt : time.nsec < 1000000000

/-- The order of times. -/
theorem timespecCmp_ne_one_iff :
    timespecCmp time₁ time₂ ≠ 1 ↔
      time₁.sec < time₂.sec ∨ time₁.sec = time₂.sec ∧ time₁.nsec ≤ time₂.nsec := by
  unfold timespecCmp
  split_ifs <;> simp <;> omega

theorem timespecCmp_trans
    (h₁ : timespecCmp time₁ time₂ ≠ 1)
    (h₂ : timespecCmp time₂ time₃ ≠ 1) :
    timespecCmp time₁ time₃ ≠ 1 := by
  rw [timespecCmp_ne_one_iff] at h₁ h₂ ⊢
  omega

theorem timespecCmp_total
    (h : timespecCmp time₁ time₂ = 1) :
    timespecCmp time₂ time₁ ≠ 1 := by
  have hnot : ¬ timespecCmp time₁ time₂ ≠ 1 := by simp [h]
  rw [timespecCmp_ne_one_iff] at hnot ⊢
  omega

theorem timespecCmp_refl (time : Timespec) : timespecCmp time time ≠ 1 := by
  rw [timespecCmp_ne_one_iff]
  exact .inr ⟨rfl, le_rfl⟩

/-- The sum of two times, with a carry. -/
theorem timespecAdd_eq
    (h₁ : time₁.Valid)
    (h₂ : time₂.Valid) :
    timespecAdd time₁ time₂ =
      ⟨time₁.sec + (time₂.sec + (time₁.nsec + time₂.nsec) / 1000000000),
        (time₁.nsec + time₂.nsec) % 1000000000⟩ := by
  have hnano : 0 ≤ time₁.nsec + time₂.nsec := Int.add_nonneg h₁.nsec h₂.nsec
  have hs₁ := h₁.sec
  have hs₂ := h₂.sec
  unfold timespecAdd
  dsimp only
  rw [Int.tdiv_eq_ediv_of_nonneg hnano, Int.tmod_eq_emod_of_nonneg hnano]
  rw [if_neg (by omega), if_neg (by omega)]

theorem Timespec.Valid.add
    (h₁ : time₁.Valid)
    (h₂ : time₂.Valid) :
    (timespecAdd time₁ time₂).Valid := by
  have hs₁ := h₁.sec
  have hs₂ := h₂.sec
  have hn₁ := h₁.nsec
  have hn₂ := h₂.nsec
  rw [timespecAdd_eq h₁ h₂]
  refine ⟨?_, ?_, ?_⟩ <;> dsimp only <;> omega

/-- A period does not make a time earlier. -/
theorem timespecCmp_add
    (h₁ : time₁.Valid)
    (h₂ : time₂.Valid) :
    timespecCmp time₁ (timespecAdd time₁ time₂) ≠ 1 := by
  have hs₂ := h₂.sec
  have hn₁ := h₁.nsec
  have hn₂ := h₂.nsec
  rw [timespecCmp_ne_one_iff, timespecAdd_eq h₁ h₂]
  dsimp only
  omega

theorem valid_timespecFromMillis
    {millis : Int}
    (h : 0 ≤ millis) :
    (timespecFromMillis millis).Valid := by
  unfold timespecFromMillis
  rw [Int.tdiv_eq_ediv_of_nonneg h, Int.tmod_eq_emod_of_nonneg h]
  refine ⟨?_, ?_, ?_⟩ <;> dsimp only <;> omega

end Times

section Operations

variable {s s' : TaskThread} {p : Nat} {l l₁ l₂ : List Nat} {ptask ptask' : PeriodicTask}

/-- The list is sorted by the times at which the tasks are due. -/
def TaskThread.Sorted (s : TaskThread) (l : List Nat) : Prop :=
  l.Pairwise fun p q => timespecCmp (s.due p) (s.due q) ≠ 1

theorem TaskThread.Sorted.congr
    (h : s.Sorted l)
    (hdue : ∀ p ∈ l, s'.due p = s.due p) :
    s'.Sorted l := by
  refine List.Pairwise.imp_of_mem ?_ h
  intro p q hp hq hle
  rwa [hdue p hp, hdue q hq]

/-- A task is put where it belongs. -/
theorem TaskThread.Sorted.insert
    (h : s.Sorted (l₁ ++ l₂))
    (hbefore : ∀ q ∈ l₁, timespecCmp (s.due q) (s.due p) ≠ 1) :
    s.Sorted (s.placed p l₁ l₂) := by
  have hsplit : l₁ ++ l₂.takeWhile (s.later (s.due p)) ++ l₂.dropWhile (s.later (s.due p)) =
      l₁ ++ l₂ := by
    rw [List.append_assoc, List.takeWhile_append_dropWhile]
  unfold TaskThread.Sorted TaskThread.placed at *
  rw [← hsplit] at h
  obtain ⟨hleft, hright, hacross⟩ := List.pairwise_append.mp h
  -- behind the task, the first one is not due earlier, and so are those that follow
  have hbehind : ∀ q ∈ l₂.dropWhile (s.later (s.due p)), timespecCmp (s.due p) (s.due q) ≠ 1 := by
    cases hdrop : l₂.dropWhile (s.later (s.due p)) with
    | nil => simp
    | cons r rest =>
        have hr : timespecCmp (s.due p) (s.due r) ≠ 1 := by
          have hnot := List.head?_dropWhile_not (s.later (s.due p)) l₂
          rw [hdrop] at hnot
          simpa [TaskThread.later] using hnot
        rw [hdrop] at hright
        intro q hq
        rcases List.mem_cons.mp hq with rfl | hq
        · exact hr
        · exact timespecCmp_trans hr ((List.pairwise_cons.mp hright).1 q hq)
  refine List.pairwise_append.mpr ⟨hleft, List.pairwise_cons.mpr ⟨hbehind, hright⟩, ?_⟩
  intro q hq r hr
  rcases List.mem_cons.mp hr with rfl | hr
  · rcases List.mem_append.mp hq with hq | hq
    · exact hbefore q hq
    · have hlater := List.mem_takeWhile_imp hq
      exact timespecCmp_total (by simpa [TaskThread.later] using hlater)
  · exact hacross q hq r hr

/-- What holds also while a task is being moved: the list is well formed and has the unfinished
tasks, which are those in the heap. -/
structure TaskThread.Core (s : TaskThread) (l : List Nat) : Prop where
  threads : s.links.Threads l
  members : l.Perm s.unfinished
  live : ∀ p, s.heap p ≠ none ↔ p ∈ l
  bound : ∀ p ∈ l, p < s.brk
  valid : ∀ p ptask, s.heap p = some ptask →
    ptask.period.Valid ∧ ptask.nextScheduledTime.Valid
  clock : s.clock.Valid

theorem TaskThread.Core.held (h : s.Core l) : s.Held l := ⟨h.threads, h.live, h.bound⟩

theorem TaskThread.Core.relinked
    {l' : List Nat}
    (h : s.Core l)
    (hr : Relinked s s')
    (ht : s'.links.Threads l')
    (hperm : l'.Perm l) :
    s'.Core l' := by
  have hheld := h.held.relinked hr ht hperm
  have hclock : s'.clock = s.clock := by rw [hr.rest]
  have hunfinished : s'.unfinished = s.unfinished := by rw [hr.rest]
  refine ⟨ht, ?_, hheld.live, hheld.bound, ?_, ?_⟩
  · rw [hunfinished]
    exact hperm.trans h.members
  · intro p ptask hp
    obtain ⟨ptask', hp', hperiod, htime⟩ := hr.times hp
    rw [← hperiod, ← htime]
    exact h.valid p ptask' hp'
  · rw [hclock]
    exact h.clock

/-- The data of a task change, and its pointers stay. -/
theorem TaskThread.Core.written
    (h : s.Core l)
    (hp : s.heap p = some ptask)
    (hprev : ptask'.prev = ptask.prev)
    (hnext : ptask'.next = ptask.next)
    (hvalid : ptask'.period.Valid ∧ ptask'.nextScheduledTime.Valid) :
    (s.written p ptask').Core l := by
  have hheld := h.held.written hp hprev hnext
  refine ⟨hheld.threads, h.members, hheld.live, h.bound, ?_, h.clock⟩
  intro q qtask hqtask
  by_cases hq : q = p
  · subst hq
    rw [heap_written_self] at hqtask
    cases hqtask
    exact hvalid
  · exact h.valid q qtask (by simpa [TaskThread.written, hq] using hqtask)

theorem TaskThread.Sorted.written
    (h : s.Sorted l)
    (hp : p ∉ l) :
    (s.written p ptask).Sorted l :=
  h.congr fun _ hq => due_written_of_ne fun hqp => hp (hqp ▸ hq)

theorem TaskThread.Sorted.without
    (h : s.Sorted (l₁ ++ p :: l₂)) :
    s.Sorted (l₁ ++ l₂) :=
  List.Pairwise.sublist
    (List.Sublist.append (List.Sublist.refl l₁) (List.sublist_cons_self p l₂)) h

/-- The tasks in front are not due later if the last of them is not. -/
theorem TaskThread.Sorted.before
    {time : Timespec}
    (h : s.Sorted (l₁ ++ l₂))
    (hlast : ∀ q, l₁.getLast? = some q → timespecCmp (s.due q) time ≠ 1)
    (q : Nat)
    (hq : q ∈ l₁) :
    timespecCmp (s.due q) time ≠ 1 := by
  have hsorted : s.Sorted l₁ := (List.pairwise_append.mp h).1
  rcases List.eq_nil_or_concat l₁ with rfl | ⟨init, last, rfl⟩
  · cases hq
  · rw [List.concat_eq_append] at hlast hq hsorted
    have hend := hlast last List.getLast?_concat
    rcases List.mem_append.mp hq with hq | hq
    · have hle := (List.pairwise_append.mp hsorted).2.2 q hq last (by simp)
      exact timespecCmp_trans hle hend
    · obtain rfl := List.mem_singleton.mp hq
      exact hend

theorem generateNextExecTime_spec
    (h : s.Core (l₁ ++ p :: l₂))
    (hp : s.heap p = some ptask)
    (hsorted : s.Sorted (l₁ ++ l₂))
    (hbefore : ∀ q ∈ l₁,
      timespecCmp (s.due q) (timespecAdd ptask.nextScheduledTime ptask.period) ≠ 1) :
    ∃ s' l', s.generateNextExecTime p false = some s' ∧ s'.Core l' ∧ s'.Sorted l' := by
  obtain ⟨hperiod, htime⟩ := h.valid p ptask hp
  have hnew := h.held.not_mem
  obtain ⟨s', hs', hrelinked, hthreads⟩ := generateNextExecTime_links h.held hp
  have hcore : (s.written p (ptask.dueAfter ptask.nextScheduledTime)).Core (l₁ ++ p :: l₂) :=
    h.written hp rfl rfl ⟨hperiod, htime.add hperiod⟩
  have hplaced : (s.written p (ptask.dueAfter ptask.nextScheduledTime)).Sorted
      ((s.written p (ptask.dueAfter ptask.nextScheduledTime)).placed p l₁ l₂) := by
    refine (hsorted.written hnew).insert ?_
    intro q hq
    have hqp : q ≠ p := fun hqp => hnew (hqp ▸ List.mem_append_left _ hq)
    rw [due_written_of_ne hqp, due_written_self]
    exact hbefore q hq
  exact ⟨s', _, hs', hcore.relinked hrelinked hthreads (placed_perm.trans List.perm_middle.symm),
    hplaced.congr fun q _ => hrelinked.due q⟩

theorem resetExecTime_spec
    (h : s.Core (l₁ ++ p :: l₂))
    (hp : s.heap p = some ptask)
    (hsorted : s.Sorted (l₁ ++ l₂))
    (hbefore : ∀ q ∈ l₁, timespecCmp (s.due q) (timespecAdd s.clock ptask.period) ≠ 1) :
    ∃ s' l', s.resetExecTime p false = some s' ∧ s'.Core l' ∧ s'.Sorted l' := by
  obtain ⟨hperiod, -⟩ := h.valid p ptask hp
  have hcore : (s.written p { ptask with nextScheduledTime := s.clock }).Core (l₁ ++ p :: l₂) :=
    h.written hp rfl rfl ⟨hperiod, h.clock⟩
  simp only [TaskThread.resetExecTime, modify_eq_written hp, Option.bind_eq_bind, Option.bind_some]
  refine generateNextExecTime_spec hcore heap_written_self (hsorted.written h.held.not_mem) ?_
  intro q hq
  have hqp : q ≠ p := fun hqp => h.held.not_mem (hqp ▸ List.mem_append_left _ hq)
  rw [due_written_of_ne hqp]
  exact hbefore q hq

/-- A new task. -/
theorem create_spec
    {period executeTimes : Int}
    (h : s.Core l)
    (hsorted : s.Sorted l)
    (hperiod : 0 ≤ period) :
    ∃ s' l', s.create period executeTimes = some s' ∧ s'.Core l' ∧ s'.Sorted l' := by
  have hnew : s.brk ∉ l := fun hmem => absurd (h.bound _ hmem) (lt_irrefl _)
  have hne : ∀ q ∈ l, q ≠ s.brk := fun q hq hqp => hnew (hqp ▸ hq)
  have hvalid := valid_timespecFromMillis hperiod
  obtain ⟨s', hs', hrelinked, hthreads⟩ :=
    @create_links _ _ period executeTimes h.held
  have hdue : ∀ q ∈ l, (s.allocated (s.newTask period executeTimes)).due q = s.due q := by
    intro q hq
    simp [TaskThread.due, heap_allocated_of_ne (hne q hq)]
  have hheld := h.held.allocated hrelinked hthreads placed_perm
  have hplaced : (s.allocated (s.newTask period executeTimes)).Sorted
      ((s.allocated (s.newTask period executeTimes)).placed s.brk [] l) :=
    @TaskThread.Sorted.insert _ _ [] l (hsorted.congr hdue) (by simp)
  refine ⟨s', _, hs', ⟨hheld.threads, ?_, hheld.live, hheld.bound, ?_, ?_⟩,
    hplaced.congr fun q _ => hrelinked.due q⟩
  · have hunfinished : s'.unfinished = s.unfinished ++ [s.brk] := by rw [hrelinked.rest]; rfl
    rw [hunfinished]
    exact placed_perm.trans ((h.members.cons s.brk).trans (List.perm_append_singleton _ _).symm)
  · intro q qtask hq
    obtain ⟨qtask', hq', hperiod, htime⟩ := hrelinked.times hq
    rw [← hperiod, ← htime]
    by_cases hqb : q = s.brk
    · subst hqb
      rw [heap_allocated_self] at hq'
      cases hq'
      exact ⟨hvalid, h.clock.add hvalid⟩
    · exact h.valid q qtask' (by rwa [heap_allocated_of_ne hqb] at hq')
  · have hclock : s'.clock = s.clock := by rw [hrelinked.rest]; rfl
    rw [hclock]
    exact h.clock

/-- A task is taken out and freed. -/
theorem dispose_spec
    (h : s.Core l)
    (hsorted : s.Sorted l)
    (hp : p ∈ l) :
    ∃ s' l', s.dispose p = some s' ∧ s'.Core l' ∧ s'.Sorted l' := by
  obtain ⟨l₁, l₂, rfl⟩ := List.append_of_mem hp
  obtain ⟨s', hs', hrelinked, hthreads⟩ := dispose_links h.held
  have hheld := h.held.without hrelinked hthreads
  have hnew := h.held.not_mem
  refine ⟨s', l₁ ++ l₂, hs', ⟨hthreads, ?_, hheld.live, hheld.bound, ?_, ?_⟩, ?_⟩
  · have hperm : (p :: (l₁ ++ l₂)).Perm s.unfinished := List.perm_middle.symm.trans h.members
    have hunfinished : s'.unfinished = s.unfinished.erase p := by rw [hrelinked.rest]; rfl
    rw [hunfinished]
    simpa using hperm.erase p
  · intro q qtask hq
    obtain ⟨qtask', hq', hperiod, htime⟩ := hrelinked.times hq
    have hqp : q ≠ p := by
      rintro rfl
      simp [TaskThread.without] at hq'
    rw [← hperiod, ← htime]
    exact h.valid q qtask' (by rwa [heap_without_of_ne hqp] at hq')
  · have hclock : s'.clock = s.clock := by rw [hrelinked.rest]; rfl
    rw [hclock]
    exact h.clock
  · refine hsorted.without.congr ?_
    intro q hq
    have hqp : q ≠ p := fun hqp => hnew (hqp ▸ hq)
    rw [hrelinked.due]
    simp [TaskThread.due, heap_without_of_ne hqp]

end Operations

namespace TaskThread

variable (s : TaskThread)

/-- A time is not before that of the task in front. -/
def notBefore (p : Nat) (time : Timespec) : Bool :=
  ((s.heap p).bind PeriodicTask.prev).all fun q => timespecCmp (s.due q) time ≠ 1

/-- A time is not behind that of the next task. -/
def notBehind (p : Nat) (time : Timespec) : Bool :=
  ((s.heap p).bind PeriodicTask.next).all fun q => timespecCmp time (s.due q) ≠ 1

/-- A condition on the task with an id, if there is one. -/
def onTask (id : Nat) (f : Nat → PeriodicTask → Bool) : Bool :=
  (s.get id).join.all fun p => (s.heap p).all fun ptask => f p ptask

/-- Periods are not negative, and a task that is rescheduled or reset does not become due before
the one in front, or with `add` behind the next one. -/
def keepsOrder : TaskOp → Bool
  | .schedule period _ => 0 ≤ period
  | .reschedule id period executeTimes add =>
      0 ≤ period ∧ (executeTimes = 0 ∨
        s.onTask id fun p ptask =>
          if add then
            s.notBehind p (timespecAdd ptask.nextScheduledTime (timespecFromMillis period))
          else s.notBefore p (timespecAdd s.clock (timespecFromMillis period)))
  | .reset id => s.onTask id fun p ptask => s.notBefore p (timespecAdd s.clock ptask.period)
  | _ => true

/-- The list is in order, and times are valid. -/
def Queued : Prop := ∃ l, s.Core l ∧ s.Sorted l

end TaskThread

section Steps

variable {s s' : TaskThread} {p : Nat} {l : List Nat} {ptask ptask' : PeriodicTask}

theorem onTask_eq_true
    {id : Nat} {f : Nat → PeriodicTask → Bool}
    (h : s.onTask id f = true)
    (hget : s.get id = some (some p))
    (hp : s.heap p = some ptask) :
    f p ptask = true := by
  simpa [TaskThread.onTask, hget, hp] using h

/-- The task in front, in the list. -/
theorem TaskThread.Core.notBefore
    {l₁ l₂ : List Nat} {time : Timespec}
    (h : s.Core (l₁ ++ p :: l₂))
    (hsorted : s.Sorted (l₁ ++ p :: l₂))
    (hnot : s.notBefore p time = true)
    (q : Nat)
    (hq : q ∈ l₁) :
    timespecCmp (s.due q) time ≠ 1 := by
  refine hsorted.before ?_ q hq
  intro r hr
  have hprev : s.links.prev p = some r := by rw [h.threads.prev l₁ p l₂ rfl, hr]
  have hprev : (s.heap p).bind PeriodicTask.prev = some r := hprev
  simpa [TaskThread.notBefore, hprev] using hnot

/-- Data change, but not the times. -/
theorem TaskThread.Core.note
    (h : s.Core l)
    (hsorted : s.Sorted l)
    (hp : s.heap p = some ptask)
    (hprev : ptask'.prev = ptask.prev)
    (hnext : ptask'.next = ptask.next)
    (hperiod : ptask'.period = ptask.period)
    (htime : ptask'.nextScheduledTime = ptask.nextScheduledTime) :
    (s.written p ptask').Core l ∧ (s.written p ptask').Sorted l := by
  refine ⟨h.written hp hprev hnext (by rw [hperiod, htime]; exact h.valid p ptask hp), ?_⟩
  refine hsorted.congr ?_
  intro q _
  by_cases hq : q = p
  · subst hq
    rw [due_written_self, htime]
    simp [TaskThread.due, hp]
  · exact due_written_of_ne hq

/-- A task whose time is between those of its neighbours stays where it is. -/
theorem TaskThread.Sorted.retime
    {l₁ l₂ : List Nat}
    (h : s.Core (l₁ ++ p :: l₂))
    (hsorted : s.Sorted (l₁ ++ p :: l₂))
    (hp : s.heap p = some ptask)
    (hlater : timespecCmp ptask.nextScheduledTime ptask'.nextScheduledTime ≠ 1)
    (hnot : s.notBehind p ptask'.nextScheduledTime = true) :
    (s.written p ptask').Sorted (l₁ ++ p :: l₂) := by
  have hdue : s.due p = ptask.nextScheduledTime := by simp [TaskThread.due, hp]
  have hothers : (s.written p ptask').Sorted (l₁ ++ l₂) := hsorted.without.written h.held.not_mem
  have hne : ∀ q ∈ l₁ ++ l₂, q ≠ p := fun q hq hqp => h.held.not_mem (hqp ▸ hq)
  obtain ⟨hleft, hright, hacross⟩ := List.pairwise_append.mp hsorted
  obtain ⟨hbehind, hrest⟩ := List.pairwise_cons.mp hright
  obtain ⟨hleft', hright', hacross'⟩ := List.pairwise_append.mp hothers
  refine List.pairwise_append.mpr ⟨hleft', List.pairwise_cons.mpr ⟨?_, hright'⟩, ?_⟩
  · cases l₂ with
    | nil => simp
    | cons r rest =>
        have hnext : (s.heap p).bind PeriodicTask.next = some r :=
          h.threads.next l₁ p (r :: rest) rfl
        have hr : timespecCmp ptask'.nextScheduledTime (s.due r) ≠ 1 := by
          simpa [TaskThread.notBehind, hnext] using hnot
        intro q hq
        rw [due_written_self, due_written_of_ne (hne q (List.mem_append_right _ hq))]
        rcases List.mem_cons.mp hq with rfl | hq
        · exact hr
        · exact timespecCmp_trans hr ((List.pairwise_cons.mp hrest).1 q hq)
  · intro q hq r hr
    rcases List.mem_cons.mp hr with rfl | hr
    · rw [due_written_self, due_written_of_ne (hne q (List.mem_append_left _ hq))]
      have hle := hacross q hq r (by simp)
      rw [hdue] at hle
      exact timespecCmp_trans hle hlater
    · exact hacross' q hq r hr

theorem TaskThread.Queued.reschedule
    {id : Nat} {period executeTimes : Int} {add : Bool}
    (h : s.Queued)
    (hok : s.keepsOrder (.reschedule id period executeTimes add) = true)
    (hstep : s.reschedule id period executeTimes add = some s') :
    s'.Queued := by
  obtain ⟨l, hcore, hsorted⟩ := h
  simp only [TaskThread.keepsOrder, decide_eq_true_eq, Bool.decide_and, Bool.and_eq_true] at hok
  obtain ⟨hperiod, hok⟩ := hok
  obtain ⟨r, hget, hmem⟩ := get_spec hcore.held id
  unfold TaskThread.reschedule at hstep
  split at hstep
  · cases hstep
    exact ⟨l, hcore, hsorted⟩
  · rename_i htimes
    rw [hget] at hstep
    cases r with
    | none =>
        cases hstep
        exact ⟨l, hcore, hsorted⟩
    | some p =>
        have hp := hmem p rfl
        obtain ⟨ptask, htask⟩ := Option.ne_none_iff_exists'.mp ((hcore.live p).mpr hp)
        obtain ⟨l₁, l₂, rfl⟩ := List.append_of_mem hp
        obtain ⟨hvalid, htime⟩ := hcore.valid p ptask htask
        have hmillis := valid_timespecFromMillis hperiod
        have hcond := onTask_eq_true (hok.resolve_left htimes) hget htask
        simp only [Option.bind_eq_bind, Option.bind_some, htask] at hstep
        cases add with
        | true =>
            simp only [if_true] at hstep hcond
            split at hstep
            · rw [modify_eq_written htask] at hstep
              cases hstep
              refine ⟨_, hcore.written htask rfl rfl ⟨hvalid.add hmillis, htime.add hmillis⟩, ?_⟩
              exact hsorted.retime hcore htask (timespecCmp_add htime hmillis) hcond
            · cases hstep
              exact ⟨_, hcore, hsorted⟩
        | false =>
            simp only [Bool.false_eq_true, if_false, if_neg (not_lt.mpr hperiod),
              modify_eq_written htask, Option.bind_some] at hstep hcond
            have hset : (s.written p { ptask with
                period := timespecFromMillis period, executeTimes := executeTimes }).Core
                (l₁ ++ p :: l₂) :=
              hcore.written htask rfl rfl ⟨hmillis, htime⟩
            obtain ⟨t, l', ht, hcore', hsorted'⟩ := resetExecTime_spec hset heap_written_self
              (hsorted.without.written hcore.held.not_mem) (fun q hq => by
                have hqp : q ≠ p := fun hqp => hcore.held.not_mem (hqp ▸ List.mem_append_left _ hq)
                rw [due_written_of_ne hqp]
                exact hcore.notBefore hsorted hcond q hq)
            rw [ht] at hstep
            cases hstep
            exact ⟨l', hcore', hsorted'⟩

theorem TaskThread.Queued.reset
    {id : Nat}
    (h : s.Queued)
    (hok : s.keepsOrder (.reset id) = true)
    (hstep : s.reset id = some s') :
    s'.Queued := by
  obtain ⟨l, hcore, hsorted⟩ := h
  obtain ⟨r, hget, hmem⟩ := get_spec hcore.held id
  simp only [TaskThread.reset, hget, Option.bind_eq_bind, Option.bind_some] at hstep
  cases r with
  | none =>
      cases hstep
      exact ⟨l, hcore, hsorted⟩
  | some p =>
      have hp := hmem p rfl
      obtain ⟨ptask, htask⟩ := Option.ne_none_iff_exists'.mp ((hcore.live p).mpr hp)
      obtain ⟨l₁, l₂, rfl⟩ := List.append_of_mem hp
      have hcond := onTask_eq_true hok hget htask
      obtain ⟨t, l', ht, hcore', hsorted'⟩ := resetExecTime_spec hcore htask hsorted.without
        fun q hq => hcore.notBefore hsorted hcond q hq
      have hstep : s.resetExecTime p false = some s' := hstep
      rw [ht] at hstep
      cases hstep
      exact ⟨l', hcore', hsorted'⟩

theorem TaskThread.Queued.dispose
    (h : s.Core l)
    (hsorted : s.Sorted l)
    (hp : p ∈ l)
    (hstep : s.dispose p = some s') :
    s'.Queued := by
  obtain ⟨t, l', ht, hcore', hsorted'⟩ := dispose_spec h hsorted hp
  rw [ht] at hstep
  cases hstep
  exact ⟨l', hcore', hsorted'⟩

/-- Other fields of the thread change. -/
theorem TaskThread.Core.of_eq
    (h : s.Core l)
    (hsorted : s.Sorted l)
    (hheap : s'.heap = s.heap)
    (hlist : s'.taskList = s.taskList)
    (hbrk : s'.brk = s.brk)
    (hunfinished : s'.unfinished = s.unfinished)
    (hclock : s'.clock.Valid) :
    s'.Core l ∧ s'.Sorted l := by
  have hlinks : s'.links = s.links := by
    unfold TaskThread.links
    rw [hheap, hlist]
  refine ⟨⟨hlinks ▸ h.threads, hunfinished ▸ h.members, ?_, ?_, ?_, hclock⟩, ?_⟩
  · rw [hheap]
    exact h.live
  · rw [hbrk]
    exact h.bound
  · rw [hheap]
    exact h.valid
  · refine hsorted.congr fun q _ => ?_
    unfold TaskThread.due
    rw [hheap]

theorem TaskThread.Queued.cancel
    {id : Nat} {wait : Bool}
    (h : s.Queued)
    (hstep : s.cancel id wait = some s') :
    s'.Queued := by
  obtain ⟨l, hcore, hsorted⟩ := h
  obtain ⟨r, hget, hmem⟩ := get_spec hcore.held id
  simp only [TaskThread.cancel, hget, Option.bind_eq_bind, Option.bind_some] at hstep
  cases r with
  | none =>
      cases hstep
      exact ⟨l, hcore, hsorted⟩
  | some p =>
      have hp := hmem p rfl
      obtain ⟨ptask, htask⟩ := Option.ne_none_iff_exists'.mp ((hcore.live p).mpr hp)
      simp only [htask, Option.bind_some, modify_eq_written htask] at hstep
      have hnote : (s.written p { ptask with isCancelled := true }).Core l ∧
          (s.written p { ptask with isCancelled := true }).Sorted l :=
        hcore.note hsorted htask rfl rfl rfl rfl
      split at hstep
      · cases hstep
        exact ⟨l, hcore, hsorted⟩
      · split at hstep
        · cases hstep
          exact ⟨l, hnote.1.of_eq hnote.2 rfl rfl rfl rfl hcore.clock⟩
        · exact Queued.dispose hnote.1 hnote.2 hp hstep

theorem TaskThread.Queued.cancelled
    (h : s.Queued)
    (hstep : s.cancelled p = some s') :
    s'.Queued := by
  obtain ⟨l, hcore, hsorted⟩ := h
  obtain ⟨ptask, htask, hstep⟩ := Option.bind_eq_some_iff.mp hstep
  split at hstep
  · have hp := (hcore.live p).mp (by simp [htask])
    have hset : TaskThread.Core { s with waiting := s.waiting.erase p } l ∧
        TaskThread.Sorted { s with waiting := s.waiting.erase p } l :=
      hcore.of_eq hsorted rfl rfl rfl rfl hcore.clock
    exact Queued.dispose hset.1 hset.2 hp hstep
  · cases hstep

theorem TaskThread.Queued.begin
    (h : s.Queued)
    (hstep : s.begin = some s') :
    s'.Queued := by
  obtain ⟨l, hcore, hsorted⟩ := h
  unfold TaskThread.begin at hstep
  split at hstep
  · split at hstep
    · cases hstep
    · obtain ⟨t, ht, rfl⟩ := Option.map_eq_some_iff.mp hstep
      obtain ⟨ptask, htask, rfl⟩ := Option.map_eq_some_iff.mp ht
      have hnote : (s.written _ { ptask with isExecuting := true }).Core l ∧
          (s.written _ { ptask with isExecuting := true }).Sorted l :=
        hcore.note hsorted htask rfl rfl rfl rfl
      exact ⟨l, hnote.1.of_eq hnote.2 rfl rfl rfl rfl hcore.clock⟩
  · cases hstep

/-- A task that has been executed moves back. -/
theorem TaskThread.Queued.generateNextExecTime
    (h : s.Core l)
    (hsorted : s.Sorted l)
    (hp : p ∈ l)
    (hstep : s.generateNextExecTime p false = some s') :
    s'.Queued := by
  obtain ⟨ptask, htask⟩ := Option.ne_none_iff_exists'.mp ((h.live p).mpr hp)
  obtain ⟨l₁, l₂, rfl⟩ := List.append_of_mem hp
  obtain ⟨hvalid, htime⟩ := h.valid p ptask htask
  have hdue : s.due p = ptask.nextScheduledTime := by simp [TaskThread.due, htask]
  obtain ⟨t, l', ht, hcore', hsorted'⟩ := generateNextExecTime_spec h htask hsorted.without
    (fun q hq => by
      have hle := (List.pairwise_append.mp hsorted).2.2 q hq p (by simp)
      rw [hdue] at hle
      exact timespecCmp_trans hle (timespecCmp_add htime hvalid))
  rw [ht] at hstep
  cases hstep
  exact ⟨l', hcore', hsorted'⟩

theorem TaskThread.Queued.finish
    (h : s.Queued)
    (hstep : s.finish = some s') :
    s'.Queued := by
  obtain ⟨l, hcore, hsorted⟩ := h
  unfold TaskThread.finish at hstep
  split at hstep
  · rename_i p hworker
    obtain ⟨hcore, hsorted⟩ : TaskThread.Core { s with worker := .idle } l ∧
        TaskThread.Sorted { s with worker := .idle } l :=
      hcore.of_eq hsorted rfl rfl rfl rfl hcore.clock
    obtain ⟨ptask, htask, hstep⟩ := Option.bind_eq_some_iff.mp hstep
    have hp := (hcore.live p).mp (by rw [htask]; simp)
    split at hstep
    · cases hstep
      exact ⟨l, hcore, hsorted⟩
    · rw [modify_eq_written htask] at hstep
      obtain ⟨hcore', hsorted'⟩ : (TaskThread.written { s with worker := .idle } p
          { ptask with isExecuting := false }).Core l ∧
          (TaskThread.written { s with worker := .idle } p
            { ptask with isExecuting := false }).Sorted l :=
        hcore.note hsorted htask rfl rfl rfl rfl
      simp only [Option.bind_eq_bind, Option.bind_some] at hstep
      split at hstep
      · exact Queued.generateNextExecTime hcore' hsorted' hp hstep
      · split at hstep
        · exact Queued.dispose hcore' hsorted' hp hstep
        · rw [modify_eq_written heap_written_self, Option.bind_some] at hstep
          have hcount := @TaskThread.Core.note _ p l { ptask with isExecuting := false }
            { ptask with isExecuting := false, executeTimes := ptask.executeTimes - 1 }
            hcore' hsorted' heap_written_self rfl rfl rfl rfl
          exact Queued.generateNextExecTime hcount.1 hcount.2 hp hstep
  · cases hstep

theorem TaskThread.Queued.step
    {op : TaskOp}
    (h : s.Queued)
    (hok : s.keepsOrder op = true)
    (hstep : s.step op = some s') :
    s'.Queued := by
  cases op with
  | tick now =>
      obtain ⟨l, hcore, hsorted⟩ := h
      simp only [TaskThread.step, TaskThread.tick] at hstep
      split at hstep
      · rename_i hnow
        cases hstep
        have hvalid : now.Valid := by
          simp only [timespecNonneg, Bool.decide_and, Bool.and_eq_true, decide_eq_true_eq] at hnow
          exact ⟨hnow.1.1, hnow.1.2, hnow.2.1⟩
        exact ⟨l, hcore.of_eq hsorted rfl rfl rfl rfl hvalid⟩
      · cases hstep
  | schedule period executeTimes =>
      simp only [TaskThread.step, TaskThread.schedule] at hstep
      split at hstep
      · cases hstep
        exact h
      · obtain ⟨l, hcore, hsorted⟩ := h
        have hperiod : 0 ≤ period := by simpa [TaskThread.keepsOrder] using hok
        obtain ⟨t, l', ht, hcore', hsorted'⟩ := create_spec hcore hsorted hperiod
        rw [ht] at hstep
        cases hstep
        exact ⟨l', hcore', hsorted'⟩
  | reschedule id period executeTimes add => exact h.reschedule hok hstep
  | reset id => exact h.reset hok hstep
  | cancel id wait => exact h.cancel hstep
  | cancelled p => exact h.cancelled hstep
  | take =>
      obtain ⟨l, hcore, hsorted⟩ := h
      simp only [TaskThread.step, TaskThread.take] at hstep
      split at hstep
      · obtain ⟨ptask, -, rfl⟩ := Option.map_eq_some_iff.mp hstep
        exact ⟨l, hcore.of_eq hsorted rfl rfl rfl rfl hcore.clock⟩
      · cases hstep
  | wake =>
      obtain ⟨l, hcore, hsorted⟩ := h
      simp only [TaskThread.step, TaskThread.wake] at hstep
      split at hstep
      · cases hstep
        exact ⟨l, hcore.of_eq hsorted rfl rfl rfl rfl hcore.clock⟩
      · cases hstep
  | begin => exact h.begin hstep
  | finish => exact h.finish hstep

theorem TaskThread.queued_init
    {clock : Timespec}
    (h : clock.Valid) :
    (TaskThread.init clock).Queued :=
  ⟨[], ⟨LinkedList.threads_nil rfl, List.Perm.refl [], by simp [TaskThread.init], by simp,
    by simp [TaskThread.init], h⟩, List.Pairwise.nil⟩

/-- The list of tasks is well formed and sorted and has exactly the unfinished tasks, so that
its head is the one that is due next, in every run in which rescheduled tasks do not become due
before the one in front of them or, with `add`, behind the next one. -/
theorem tasks_in_order
    {clock : Timespec}
    (hclock : clock.Valid)
    (s : TaskThread)
    (hs : Runs.Reaches TaskThread.step (fun s op => s.keepsOrder op = true) (.init clock) s) :
    ∃ l, s.InOrder l ∧ ∀ p, s.taskList = some p → ∀ q ∈ s.unfinished,
      timespecCmp (s.due p) (s.due q) ≠ 1 := by
  obtain ⟨l, hcore, hsorted⟩ := hs.invariant (fun _ _ _ h hok hstep => h.step hok hstep)
    (TaskThread.queued_init hclock)
  refine ⟨l, ⟨hcore.threads, hcore.members, hsorted⟩, ?_⟩
  intro p hp q hq
  have hhead : s.taskList = l.head? := hcore.threads.head
  cases l with
  | nil =>
      rw [hhead] at hp
      cases hp
  | cons r rest =>
      rw [hhead] at hp
      cases hp
      rcases List.mem_cons.mp (hcore.members.mem_iff.mpr hq) with rfl | hq
      · exact timespecCmp_refl _
      · exact (List.pairwise_cons.mp hsorted).1 q hq

end Steps

section Sample

/-- Two tasks, one of which is executed and then rescheduled. -/
def sampleTasks : List TaskOp :=
  [.schedule 5000 (-1), .schedule 3000 2, .tick ⟨103, 0⟩, .take, .begin, .finish,
    .reschedule 2 9000 5 false, .reset 1, .cancel 1 true]

theorem tasks_in_order_sample :
    ∃ s, Runs.exec TaskThread.step (.init ⟨100, 0⟩) sampleTasks = some s ∧
      s.unfinished = [3145729] ∧
      ∃ l, s.InOrder l ∧ ∀ p, s.taskList = some p → ∀ q ∈ s.unfinished,
        timespecCmp (s.due p) (s.due q) ≠ 1 := by
  have heval : (Runs.exec TaskThread.step (.init ⟨100, 0⟩) sampleTasks).map
      TaskThread.unfinished = some [3145729] := by
    decide +kernel
  obtain ⟨s, hexec, hunfinished⟩ := Option.map_eq_some_iff.mp heval
  have hmeets : Runs.meets TaskThread.step TaskThread.keepsOrder (.init ⟨100, 0⟩) sampleTasks =
      true := by
    decide +kernel
  refine ⟨s, hexec, hunfinished, ?_⟩
  exact tasks_in_order ⟨by decide, by decide, by decide⟩ s
    (Runs.Reaches.refl.exec sampleTasks hmeets hexec)

/-- The periods that are given are not negative. -/
def TaskOp.nonneg : TaskOp → Bool
  | .schedule period _ => 0 ≤ period
  | .reschedule _ period _ _ => 0 ≤ period
  | _ => true

/-- Time is added to the first of two tasks. -/
def sampleAdd : List TaskOp :=
  [.schedule 1000 (-1), .schedule 3000 (-1), .reschedule 1 5000 (-1) true]

theorem tasks_out_of_order :
    ¬ ∀ (clock : Timespec) (s : TaskThread), clock.Valid →
      Runs.Reaches TaskThread.step (fun _ op => op.nonneg = true) (.init clock) s →
      ∃ l, s.InOrder l ∧ ∀ p, s.taskList = some p → ∀ q ∈ s.unfinished,
        timespecCmp (s.due p) (s.due q) ≠ 1 := by
  intro hall
  have heval : (Runs.exec TaskThread.step (.init ⟨100, 0⟩) sampleAdd).map (fun s =>
      (s.taskList, s.unfinished, timespecCmp (s.due 3145728) (s.due 3145729))) =
      some (some 3145728, [3145728, 3145729], 1) := by
    decide +kernel
  obtain ⟨s, hexec, hresult⟩ := Option.map_eq_some_iff.mp heval
  simp only [Prod.mk.injEq] at hresult
  obtain ⟨hlist, hunfinished, hlater⟩ := hresult
  obtain ⟨l, -, hhead⟩ := hall ⟨100, 0⟩ s ⟨by decide, by decide, by decide⟩
    (Runs.Reaches.refl.exec sampleAdd (by decide +kernel) hexec)
  exact hhead 3145728 hlist 3145729 (by simp [hunfinished]) hlater

end Sample

end Obix
