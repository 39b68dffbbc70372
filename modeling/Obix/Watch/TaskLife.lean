import Obix.Watch.Polls

/-!
# The life of a poll task

`watch_create_poll_task` links a task into `watch->tasks` before it sets `task->watch` and
puts the task into `backlog->list_all`.  If the watch is notified or deleted in between, a poll
thread may take the task up, answer it and free it while the creator still works on it or
while it is still in `watch->tasks`.  In the runs in which no task is activated in this window
every task is answered at most once, freed at most once and not touched afterwards
(`polls_answered_once`).
-/

namespace Obix
namespace Watches

/-- The thread is about to activate the tasks of the watch. -/
def Shared.activates (d : Shared) : Pc → Bool
  | .wake => true
  | .enter (.notify node _) true => decide (d.monitors node ≠ [])
  | _ => false

/-- The thread has put a task into `watch->tasks` but not yet into `backlog->list_all`. -/
def Pc.halfQueued : Pc → Bool
  | .setWatch _ | .queue _ => true
  | _ => false

namespace Polls

variable {ι : Type}

/-- No request is answered twice, no poll task is freed twice or touched after it has been
freed, and a freed task is in no list. -/
structure AnsweredOnce (s : Polls ι) : Prop where
  replies : ∀ r, (s.shared.poll r).replies.length ≤ 1
  frees : ∀ r, (s.shared.poll r).frees ≤ 1
  untouched : s.shared.misused = false
  unlinked : ∀ r, 0 < (s.shared.poll r).frees →
    r ∉ s.shared.tasks ∧ r ∉ s.shared.listAll ∧ r ∉ s.shared.listActive

/-- Tasks are activated only when none of them is still missing from `backlog->list_all`. -/
def WakesQueued (s : Polls ι) (x : ι × Option Op) : Prop :=
  s.shared.activates (s.pc x.1) = true → ∀ j, (s.pc j).halfQueued = false

instance [Fintype ι] (s : Polls ι) (x : ι × Option Op) : Decidable (s.WakesQueued x) :=
  inferInstanceAs (Decidable (_ = true → ∀ j, (s.pc j).halfQueued = false))

end Polls

/-- How far a thread has got with a request or with the task made for it. -/
inductive Stage
  | asking
  | leaving
  | linked
  | ready
  | working
  | detached
  | answered
  deriving DecidableEq, Repr

/-- The thread has a task that is in `watch->tasks`. -/
def Stage.attached : Stage → Bool
  | linked | ready | working => true
  | _ => false

def Entry.stage : Entry → Option (Nat × Stage)
  | .poll r _ | .join r => some (r, .asking)
  | .take r | .drop r => some (r, .working)
  | _ => none

/-- The request a thread has in hand. -/
def Pc.stage : Pc → Option (Nat × Stage)
  | .get e | .enter e _ => e.stage
  | .test r _ | .quit r | .leave r => some (r, .asking)
  | .harvest h | .round h _ _ | .take h _ _ _ =>
      some (h.req, if h.task then .working else .asking)
  | .put r => r.map (·, .leaving)
  | .reply r => some (r, .leaving)
  | .setWatch r => some (r, .linked)
  | .queue r => some (r, .ready)
  | .taken r | .leaveTask r | .remove r => some (r, .working)
  | .putTask r | .clear r | .replyTask r => some (r, .detached)
  | .free r => some (r, .answered)
  | _ => none

/-- What is true of a request in the hands of a thread. -/
def Stage.Fits (d : Shared) (r : Nat) : Stage → Prop
  | asking =>
      r ∉ d.tasks ∧ (d.poll r).frees = 0 ∧ (d.poll r).replies = [] ∧ (d.poll r).active = .self
  | leaving => r ∉ d.tasks ∧ (d.poll r).replies = []
  | linked => r ∈ d.tasks ∧ (d.poll r).replies = [] ∧ (d.poll r).active = .self
  | ready =>
      r ∈ d.tasks ∧ (d.poll r).replies = [] ∧ (d.poll r).active = .self ∧ (d.poll r).watch = true
  | working =>
      r ∈ d.tasks ∧ (d.poll r).replies = [] ∧ (d.poll r).active = .poisoned ∧
        (d.poll r).watch = true
  | detached => r ∉ d.tasks ∧ (d.poll r).frees = 0 ∧ (d.poll r).replies = []
  | answered => r ∉ d.tasks ∧ (d.poll r).frees = 0 ∧ (d.poll r).replies.length = 1

/-- A thread has its request for itself: the request is in no queue. -/
def InHand (d : Shared) (p : Pc) : Prop :=
  ∀ r st, p.stage = some (r, st) →
    r < d.next ∧ r ∉ d.listAll ∧ r ∉ d.listActive ∧ st.Fits d r

/-- Two threads have different requests. -/
def Distinct (p q : Pc) : Prop :=
  ∀ r st st', p.stage = some (r, st) → q.stage ≠ some (r, st')

/-- The lists agree with each other and with the links of the tasks. -/
structure Shared.Sound (d : Shared) : Prop where
  untouched : d.misused = false
  replies : ∀ r, (d.poll r).replies.length ≤ 1
  frees : ∀ r, (d.poll r).frees ≤ 1
  unlinked : ∀ r, 0 < (d.poll r).frees → r ∉ d.tasks ∧ r ∉ d.listAll ∧ r ∉ d.listActive
  tasksNodup : d.tasks.Nodup
  allNodup : d.listAll.Nodup
  activeNodup : d.listActive.Nodup
  known : ∀ r ∈ d.tasks, r < d.next
  active_iff : ∀ r, r ∈ d.listActive ↔ (d.poll r).active = .queued
  active_all : ∀ r ∈ d.listActive, r ∈ d.listAll
  all : ∀ r ∈ d.listAll, r ∈ d.tasks ∧ (d.poll r).watch = true ∧
    (d.poll r).active ≠ .poisoned ∧ (d.poll r).replies = []
  tasksCount : d.tasksCount = d.tasks.length

/-- A task that is in `watch->tasks` and not in `backlog->list_all`. -/
def Shared.Needs (d : Shared) (r : Nat) : Prop := r ∈ d.tasks ∧ r ∉ d.listAll

/-- A thread has a task that is in `watch->tasks`. -/
def Pc.Has (p : Pc) (r : Nat) : Prop := ∃ st, p.stage = some (r, st) ∧ st.attached = true

/-- The invariant of the runs in which tasks are activated outside of the window. -/
structure Polls.Kept {ι : Type} (s : Polls ι) : Prop where
  outlined : s.Outlined Shared.Sound InHand Distinct
  covered : s.Covered Shared.Needs Pc.Has

section Frames

variable {d d' : Shared} {p p' q : Pc} {r : Nat}

theorem distinct_symm (p q : Pc) (h : Distinct p q) : Distinct q p := by
  intro r st st' hq hp
  exact h r st' st hp hq

/-- Only one request and its place in the lists have changed. -/
structure Shared.OnlyAt (r : Nat) (d d' : Shared) : Prop where
  next : d.next ≤ d'.next
  poll : ∀ r', r' ≠ r → d'.poll r' = d.poll r'
  tasks : ∀ r', r' ≠ r → (r' ∈ d'.tasks ↔ r' ∈ d.tasks)
  all : ∀ r', r' ≠ r → (r' ∈ d'.listAll ↔ r' ∈ d.listAll)
  active : ∀ r', r' ≠ r → (r' ∈ d'.listActive ↔ r' ∈ d.listActive)

/-- What is true of a request depends on the request alone. -/
theorem Stage.Fits.congr
    {st : Stage}
    (h : st.Fits d r)
    (hpoll : d'.poll r = d.poll r)
    (htasks : r ∈ d'.tasks ↔ r ∈ d.tasks) :
    st.Fits d' r := by
  cases st <;> simpa only [Stage.Fits, hpoll, htasks] using h

/-- A step for one request does not interfere with the others. -/
theorem InHand.onlyAt
    (h : InHand d q)
    (honly : Shared.OnlyAt r d d')
    (hne : ∀ st, q.stage ≠ some (r, st)) :
    InHand d' q := by
  intro r' st hq
  have hr' : r' ≠ r := by
    rintro rfl
    exact hne st hq
  obtain ⟨hknown, hall, hactive, hfits⟩ := h r' st hq
  exact ⟨lt_of_lt_of_le hknown honly.next, fun hm => hall ((honly.all r' hr').mp hm),
    fun hm => hactive ((honly.active r' hr').mp hm),
    hfits.congr (honly.poll r' hr') (honly.tasks r' hr')⟩

theorem inHand_of_none (h : p.stage = none) : InHand d p := by
  intro r st hp
  rw [h] at hp
  cases hp

theorem distinct_of_none (h : p.stage = none) : Distinct p q := by
  intro r st st' hp
  rw [h] at hp
  cases hp

end Frames

section Effects

variable {d d' : Shared} {r : Nat}

/-- Tasks that have not been freed may be read and written. -/
theorem Shared.touch_eq
    (rs : List Nat)
    (h : ∀ r ∈ rs, (d.poll r).frees = 0) :
    d.touch rs = d := by
  have hany : (rs.any fun r => decide (0 < (d.poll r).frees)) = false := by
    rw [List.any_eq_false]
    intro r hr
    simp [h r hr]
  unfold Shared.touch
  rw [hany, Bool.or_false]

theorem Shared.Sound.live
    (h : d.Sound)
    (hr : r ∈ d.tasks) :
    (d.poll r).frees = 0 := by
  by_contra hne
  exact (h.unlinked r (Nat.pos_of_ne_zero hne)).1 hr

/-- The lists are as before, and so are the replies and the tasks of the requests. -/
structure Shared.Alike (d d' : Shared) : Prop where
  misused : d'.misused = d.misused
  tasks : d'.tasks = d.tasks
  tasksCount : d'.tasksCount = d.tasksCount
  listAll : d'.listAll = d.listAll
  listActive : d'.listActive = d.listActive
  next : d.next ≤ d'.next
  replies : ∀ r, (d'.poll r).replies = (d.poll r).replies
  frees : ∀ r, (d'.poll r).frees = (d.poll r).frees
  active : ∀ r, (d'.poll r).active = (d.poll r).active
  watch : ∀ r, (d'.poll r).watch = (d.poll r).watch

/-- Everything but the lists and the requests may have changed. -/
theorem Shared.alike_frame
    (made listed disposed changed : Bool)
    (sync : Tsync)
    (refcnt : Int)
    (items : List Item) :
    Shared.Alike d
      { d with
        made := made
        listed := listed
        disposed := disposed
        changed := changed
        sync := sync
        refcnt := refcnt
        items := items } :=
  ⟨rfl, rfl, rfl, rfl, rfl, le_rfl, fun _ => rfl, fun _ => rfl, fun _ => rfl, fun _ => rfl⟩

theorem Shared.alike_append
    (items : List Item)
    (href : CString.Text)
    (linked : Option Nat) :
    Shared.Alike d (Shared.append { d with items := items } href linked) := by
  cases linked with
  | none => exact Shared.alike_frame _ _ _ _ _ _ _
  | some node =>
      exact ⟨rfl, rfl, rfl, rfl, rfl, Nat.le_succ _, fun _ => rfl, fun _ => rfl, fun _ => rfl,
        fun _ => rfl⟩

theorem Shared.alike_edit (e : Edit) : Shared.Alike d (d.edit e) := by
  cases e with
  | add href linked =>
      simp only [Shared.edit]
      split
      · exact Shared.alike_append d.items href linked
      · split
        · exact Shared.alike_append _ href linked
        · exact Shared.alike_frame _ _ _ _ _ _ _
  | remove href => exact Shared.alike_frame _ _ _ _ _ _ _

theorem Shared.alike_settle (h : Harvest) : Shared.Alike d (d.settle h) := by
  unfold Shared.settle
  split <;> exact Shared.alike_frame _ _ _ _ _ _ _

/-- A harvest changes nothing of a request but its watchOut. -/
theorem Shared.alike_collect (h : Harvest) (key : Nat) : Shared.Alike d (d.collect h key) := by
  have hupdate : ∀ {d' : Shared} {f : Poll → Poll}, Shared.Alike d d' →
      (∀ x, (f x).replies = x.replies ∧ (f x).frees = x.frees ∧ (f x).active = x.active ∧
        (f x).watch = x.watch) → Shared.Alike d (d'.setPoll h.req f) := by
    intro d' f ha hf
    refine ⟨ha.misused, ha.tasks, ha.tasksCount, ha.listAll, ha.listActive, ha.next, ?_, ?_, ?_, ?_⟩
    all_goals
      intro r
      by_cases hr : r = h.req
      · subst hr
        simp [Shared.setPoll, hf, ha.replies, ha.frees, ha.active, ha.watch]
      · simp [Shared.setPoll, Function.update_of_ne hr, ha.replies, ha.frees, ha.active, ha.watch]
  unfold Shared.collect
  split
  · exact hupdate (Shared.alike_frame _ _ _ _ _ _ _) fun _ => ⟨rfl, rfl, rfl, rfl⟩
  · exact hupdate (Shared.alike_frame _ _ _ _ _ _ _) fun _ => ⟨rfl, rfl, rfl, rfl⟩

theorem Shared.Sound.alike
    (h : d.Sound)
    (ha : Shared.Alike d d') :
    d'.Sound := by
  obtain ⟨hm, ht, hc, hall, hact, hnext, hreplies, hfrees, hactive, hwatch⟩ := ha
  constructor
  · rw [hm]
    exact h.untouched
  · simpa only [hreplies] using h.replies
  · simpa only [hfrees] using h.frees
  · simpa only [hfrees, ht, hall, hact] using h.unlinked
  · simpa only [ht] using h.tasksNodup
  · simpa only [hall] using h.allNodup
  · simpa only [hact] using h.activeNodup
  · intro r hr
    rw [ht] at hr
    exact lt_of_lt_of_le (h.known r hr) hnext
  · simpa only [hact, hactive] using h.active_iff
  · simpa only [hact, hall] using h.active_all
  · simpa only [hall, ht, hwatch, hactive, hreplies] using h.all
  · rw [hc, ht]
    exact h.tasksCount

theorem InHand.alike
    {p : Pc}
    (h : InHand d p)
    (ha : Shared.Alike d d') :
    InHand d' p := by
  intro r st hp
  obtain ⟨hknown, hall, hactive, hfits⟩ := h r st hp
  rw [ha.listAll, ha.listActive]
  refine ⟨lt_of_lt_of_le hknown ha.next, hall, hactive, ?_⟩
  cases st <;>
    simpa only [Stage.Fits, ha.tasks, ha.replies, ha.frees, ha.active, ha.watch] using hfits

theorem Shared.onlyAt_setPoll (f : Poll → Poll) : Shared.OnlyAt r d (d.setPoll r f) :=
  { next := le_rfl
    poll := fun _ hr' => Function.update_of_ne hr' _ _
    tasks := fun _ _ => Iff.rfl
    all := fun _ _ => Iff.rfl
    active := fun _ _ => Iff.rfl }

@[simp] theorem Shared.setPoll_poll (f : Poll → Poll) : (d.setPoll r f).poll r = f (d.poll r) := by
  simp [Shared.setPoll]

theorem Shared.setPoll_poll_of_ne
    {r' : Nat}
    (f : Poll → Poll)
    (hr' : r' ≠ r) :
    (d.setPoll r f).poll r' = d.poll r' :=
  Function.update_of_ne hr' _ _

theorem Shared.Sound.not_queued
    (h : d.Sound)
    (hactive : r ∉ d.listActive) :
    (d.poll r).active ≠ .queued :=
  fun hqueued => hactive ((h.active_iff r).mpr hqueued)

/-- A change of a request that is in no queue. -/
theorem Shared.Sound.setPoll
    (h : d.Sound)
    (f : Poll → Poll)
    (hall : r ∉ d.listAll)
    (hactive : r ∉ d.listActive)
    (hlink : (f (d.poll r)).active ≠ .queued)
    (hreplies : (f (d.poll r)).replies.length ≤ 1)
    (hfrees : (f (d.poll r)).frees ≤ 1)
    (htasks : 0 < (f (d.poll r)).frees → r ∉ d.tasks) :
    (d.setPoll r f).Sound := by
  have hcases : ∀ {P : Nat → Poll → Prop}, P r (f (d.poll r)) → (∀ r', P r' (d.poll r')) →
      ∀ r', P r' ((d.setPoll r f).poll r') := by
    intro P hr hother r'
    by_cases heq : r' = r
    · subst heq
      rw [Shared.setPoll_poll]
      exact hr
    · rw [Shared.setPoll_poll_of_ne f heq]
      exact hother r'
  exact
    { untouched := h.untouched
      replies := hcases (P := fun _ x => x.replies.length ≤ 1) hreplies h.replies
      frees := hcases (P := fun _ x => x.frees ≤ 1) hfrees h.frees
      unlinked := hcases
        (P := fun r x => 0 < x.frees → r ∉ d.tasks ∧ r ∉ d.listAll ∧ r ∉ d.listActive)
        (fun hpos => ⟨htasks hpos, hall, hactive⟩) h.unlinked
      tasksNodup := h.tasksNodup
      allNodup := h.allNodup
      activeNodup := h.activeNodup
      known := h.known
      active_iff := hcases (P := fun r x => r ∈ d.listActive ↔ x.active = .queued)
        (iff_of_false hactive hlink) h.active_iff
      active_all := h.active_all
      all := hcases
        (P := fun r x => r ∈ d.listAll → r ∈ d.tasks ∧ x.watch = true ∧ x.active ≠ .poisoned ∧
          x.replies = [])
        (fun hr => absurd hr hall) h.all
      tasksCount := h.tasksCount }

theorem Shared.Sound.joinTasks
    (h : d.Sound)
    (hknown : r < d.next)
    (hfits : Stage.Fits d r .asking)
    (hall : r ∉ d.listAll)
    (hactive : r ∉ d.listActive) :
    (d.joinTasks r).Sound :=
  { h with
    unlinked := by
      intro r' hpos
      obtain ⟨ht, ha⟩ := h.unlinked r' hpos
      refine ⟨?_, ha⟩
      simp only [Shared.joinTasks, List.mem_append, List.mem_singleton, not_or]
      refine ⟨ht, ?_⟩
      rintro rfl
      have hzero := hfits.2.1
      simp only [Shared.joinTasks] at hpos
      omega
    tasksNodup := by
      rw [Shared.joinTasks, List.nodup_append_comm]
      exact List.nodup_cons.mpr ⟨hfits.1, h.tasksNodup⟩
    known := by
      intro r' hr'
      rcases List.mem_append.mp hr' with hr' | hr'
      · exact h.known r' hr'
      · rw [List.mem_singleton.mp hr']
        exact hknown
    all := fun r' hr' => ⟨List.mem_append_left _ (h.all r' hr').1, (h.all r' hr').2⟩
    tasksCount := by
      simp [Shared.joinTasks, h.tasksCount] }

theorem Shared.onlyAt_joinTasks : Shared.OnlyAt r d (d.joinTasks r) :=
  { next := le_rfl
    poll := fun _ _ => rfl
    tasks := fun r' hr' => by simp [Shared.joinTasks, hr']
    all := fun _ _ => Iff.rfl
    active := fun _ _ => Iff.rfl }

theorem Shared.Sound.dropTask_eq
    (h : d.Sound)
    (hr : r ∈ d.tasks) :
    d.dropTask r = { d with tasks := d.tasks.erase r, tasksCount := d.tasksCount - 1 } := by
  have htouch : d.touch [r] = d := Shared.touch_eq [r] (by simpa using h.live hr)
  unfold Shared.dropTask
  rw [htouch]

theorem Shared.Sound.dropTask
    (h : d.Sound)
    (hr : r ∈ d.tasks)
    (hall : r ∉ d.listAll) :
    (d.dropTask r).Sound := by
  rw [h.dropTask_eq hr]
  exact
    { h with
      unlinked := fun r' hpos =>
        ⟨fun hm => (h.unlinked r' hpos).1 (List.mem_of_mem_erase hm), (h.unlinked r' hpos).2⟩
      tasksNodup := h.tasksNodup.erase r
      known := fun r' hr' => h.known r' (List.mem_of_mem_erase hr')
      all := by
        intro r' hr'
        have hne : r' ≠ r := by
          rintro rfl
          exact hall hr'
        exact ⟨(List.mem_erase_of_ne hne).mpr (h.all r' hr').1, (h.all r' hr').2⟩
      tasksCount := by
        have hlen := List.length_erase_of_mem hr
        have hpos := List.length_pos_of_mem hr
        have hcount := h.tasksCount
        simp only
        omega }

theorem Shared.Sound.onlyAt_dropTask
    (h : d.Sound)
    (hr : r ∈ d.tasks) :
    Shared.OnlyAt r d (d.dropTask r) := by
  rw [h.dropTask_eq hr]
  exact
    { next := le_rfl
      poll := fun _ _ => rfl
      tasks := fun _ hr' => List.mem_erase_of_ne hr'
      all := fun _ _ => Iff.rfl
      active := fun _ _ => Iff.rfl }

theorem Shared.mem_enqueue (r' : Nat) :
    r' ∈ (d.enqueue r).listAll ↔ r' = r ∨ r' ∈ d.listAll := by
  simp only [Shared.enqueue]
  rw [List.perm_middle.mem_iff, List.mem_cons, List.takeWhile_append_dropWhile]

theorem Shared.Sound.enqueue_eq
    (h : d.Sound)
    (hr : r ∈ d.tasks) :
    d.enqueue r = { d with listAll := (d.enqueue r).listAll } := by
  have htouch : d.touch (r :: d.listAll) = d := by
    refine Shared.touch_eq _ ?_
    intro r' hr'
    rcases List.mem_cons.mp hr' with rfl | hr'
    · exact h.live hr
    · exact h.live (h.all r' hr').1
  simp only [Shared.enqueue, htouch]

theorem Shared.Sound.enqueue
    (h : d.Sound)
    (hfits : Stage.Fits d r .ready)
    (hall : r ∉ d.listAll) :
    (d.enqueue r).Sound := by
  have hperm : (d.enqueue r).listAll.Perm (r :: d.listAll) := by
    simp only [Shared.enqueue]
    refine List.perm_middle.trans ?_
    rw [List.takeWhile_append_dropWhile]
  have hmem := @Shared.mem_enqueue d r
  rw [h.enqueue_eq hfits.1]
  exact
    { h with
      unlinked := by
        intro r' hpos
        obtain ⟨ht, ha, hq⟩ := h.unlinked r' hpos
        refine ⟨ht, ?_, hq⟩
        simp only [hmem, not_or]
        refine ⟨?_, ha⟩
        rintro rfl
        exact ht hfits.1
      allNodup := hperm.nodup_iff.mpr (List.nodup_cons.mpr ⟨hall, h.allNodup⟩)
      active_all := fun r' hr' => (hmem r').mpr (.inr (h.active_all r' hr'))
      all := by
        intro r' hr'
        rcases (hmem r').mp hr' with rfl | hr'
        · obtain ⟨ht, hreplies, hself, hwatch⟩ := hfits
          exact ⟨ht, hwatch, by simp [hself], hreplies⟩
        · exact h.all r' hr' }

theorem Shared.Sound.onlyAt_enqueue
    (h : d.Sound)
    (hr : r ∈ d.tasks) :
    Shared.OnlyAt r d (d.enqueue r) := by
  have hmem := @Shared.mem_enqueue d r
  rw [h.enqueue_eq hr]
  exact
    { next := le_rfl
      poll := fun _ _ => rfl
      tasks := fun _ _ => Iff.rfl
      all := fun r' hr' => by simp only [hmem, hr', false_or]
      active := fun _ _ => Iff.rfl }

theorem Shared.Sound.dequeue_eq
    (h : d.Sound)
    (hr : r ∈ d.tasks) :
    d.dequeue r =
      Shared.setPoll
        { d with listAll := d.listAll.erase r, listActive := d.listActive.erase r } r
        fun x => { x with active := .poisoned } := by
  have htouch : d.touch [r] = d := Shared.touch_eq [r] (by simpa using h.live hr)
  unfold Shared.dequeue
  rw [htouch]

/-- A poll thread has taken a task out of the queues. -/
theorem Shared.Sound.dequeue
    (h : d.Sound)
    (hr : r ∈ d.listAll) :
    (d.dequeue r).Sound := by
  have hnall : r ∉ d.listAll.erase r := h.allNodup.not_mem_erase
  have hnact : r ∉ d.listActive.erase r := h.activeNodup.not_mem_erase
  rw [h.dequeue_eq (h.all r hr).1]
  -- first the queues, where the task is missing from both, then its link
  have hqueues : ∀ r', r' ≠ r → (r' ∈ d.listActive.erase r ↔ (d.poll r').active = .queued) := by
    intro r' hr'
    rw [List.mem_erase_of_ne hr']
    exact h.active_iff r'
  constructor
  · exact h.untouched
  · intro r'
    by_cases heq : r' = r
    · subst heq
      simpa using h.replies r'
    · rw [Shared.setPoll_poll_of_ne _ heq]
      exact h.replies r'
  · intro r'
    by_cases heq : r' = r
    · subst heq
      simpa using h.frees r'
    · rw [Shared.setPoll_poll_of_ne _ heq]
      exact h.frees r'
  · intro r' hpos
    have hpos' : 0 < (d.poll r').frees := by
      by_cases heq : r' = r
      · subst heq
        simpa using hpos
      · rwa [Shared.setPoll_poll_of_ne _ heq] at hpos
    obtain ⟨ht, ha, hq⟩ := h.unlinked r' hpos'
    exact ⟨ht, fun hm => ha (List.mem_of_mem_erase hm), fun hm => hq (List.mem_of_mem_erase hm)⟩
  · exact h.tasksNodup
  · exact h.allNodup.erase r
  · exact h.activeNodup.erase r
  · exact h.known
  · intro r'
    by_cases heq : r' = r
    · subst heq
      simpa [Shared.setPoll] using hnact
    · rw [Shared.setPoll_poll_of_ne _ heq]
      exact hqueues r' heq
  · intro r' hr'
    have hne : r' ≠ r := by
      rintro rfl
      exact hnact hr'
    exact (List.mem_erase_of_ne hne).mpr (h.active_all r' (List.mem_of_mem_erase hr'))
  · intro r' hr'
    have hne : r' ≠ r := by
      rintro rfl
      exact hnall hr'
    rw [Shared.setPoll_poll_of_ne _ hne]
    exact h.all r' (List.mem_of_mem_erase hr')
  · exact h.tasksCount

/-- A poll thread looks for a task in the queue of all tasks. -/
theorem Shared.Sound.nextTask_mem
    {now : Nat}
    (h : d.Sound)
    (hr : d.nextTask now = some r) :
    r ∈ d.listAll := by
  unfold Shared.nextTask at hr
  split at hr
  · rename_i r' rest hlist
    cases hr
    exact h.active_all r (by rw [hlist]; exact List.mem_cons_self)
  · obtain ⟨hhead, -⟩ := Option.filter_eq_some_iff.mp hr
    exact List.mem_of_mem_head? hhead

/-- A new request takes the place of one that nobody has used. -/
theorem Shared.Sound.startPoll
    (h : d.Sound)
    (expiry : Nat)
    (hall : d.next ∉ d.listAll)
    (hactive : d.next ∉ d.listActive) :
    Shared.Sound
      { d.get with
        poll := Function.update d.poll d.next (Poll.fresh expiry)
        next := d.next + 1 } := by
  have hnew := h.setPoll (r := d.next) (fun _ => Poll.fresh expiry) hall hactive
    (by simp [Poll.fresh]) (by simp [Poll.fresh]) (by simp [Poll.fresh]) (by simp [Poll.fresh])
  exact hnew.alike ⟨rfl, rfl, rfl, rfl, rfl, Nat.le_succ _, fun _ => rfl, fun _ => rfl,
    fun _ => rfl, fun _ => rfl⟩

theorem Shared.Sound.onlyAt_dequeue
    (h : d.Sound)
    (hr : r ∈ d.tasks) :
    Shared.OnlyAt r d (d.dequeue r) := by
  rw [h.dequeue_eq hr]
  exact
    { next := le_rfl
      poll := fun _ hr' => Function.update_of_ne hr' _ _
      tasks := fun _ _ => Iff.rfl
      all := fun _ hr' => List.mem_erase_of_ne hr'
      active := fun _ hr' => List.mem_erase_of_ne hr' }

/-- `__watch_notify_tasks`, when all tasks of the watch that are not active are queued. -/
theorem Shared.Sound.notifyTasks
    (h : d.Sound)
    (hqueued : ∀ r ∈ d.tasks, (d.poll r).active = .self → r ∈ d.listAll) :
    d.notifyTasks.Sound := by
  have htouch : d.touch d.tasks = d := Shared.touch_eq _ fun _ hr => h.live hr
  have hmem : ∀ r', r' ∈ (d.tasks.filter fun r => (d.poll r).active = .self) ↔
      r' ∈ d.tasks ∧ (d.poll r').active = .self := by
    intro r'
    simp
  unfold Shared.notifyTasks
  simp only [htouch, hmem]
  constructor
  · exact h.untouched
  · intro r'
    simp only
    split <;> exact h.replies r'
  · intro r'
    simp only
    split <;> exact h.frees r'
  · intro r' hpos
    have hpos' : 0 < (d.poll r').frees := by
      simp only at hpos
      split at hpos <;> exact hpos
    obtain ⟨ht, ha, hq⟩ := h.unlinked r' hpos'
    refine ⟨ht, ha, ?_⟩
    rw [List.mem_append, hmem, not_or]
    exact ⟨hq, fun hm => ht hm.1⟩
  · exact h.tasksNodup
  · exact h.allNodup
  · refine h.activeNodup.append (h.tasksNodup.filter _) ?_
    intro r' hr' hr''
    have hself := ((hmem r').mp hr'').2
    rw [(h.active_iff r').mp hr'] at hself
    cases hself
  · exact h.known
  · intro r'
    rw [List.mem_append, hmem, h.active_iff]
    simp only
    split
    · rename_i hnew
      simp [hnew]
    · rename_i hnot
      simp [hnot]
  · intro r' hr'
    rcases List.mem_append.mp hr' with hr' | hr'
    · exact h.active_all r' hr'
    · obtain ⟨ht, hself⟩ := (hmem r').mp hr'
      exact hqueued r' ht hself
  · intro r' hr'
    obtain ⟨ht, hwatch, hactive, hreplies⟩ := h.all r' hr'
    simp only
    split
    · exact ⟨ht, hwatch, by simp, hreplies⟩
    · exact ⟨ht, hwatch, hactive, hreplies⟩
  · exact h.tasksCount

/-- Only a thread in the window has a task that is not yet in the queue of all tasks. -/
theorem Pc.halfQueued_of_stage
    {p : Pc}
    (h : p.stage = some (r, .linked) ∨ p.stage = some (r, .ready)) :
    p.halfQueued = true := by
  cases p with
  | setWatch r' => rfl
  | queue r' => rfl
  | get e => cases e <;> simp [Pc.stage, Entry.stage] at h
  | enter e waiting => cases e <;> simp [Pc.stage, Entry.stage] at h
  | harvest h' => cases htask : h'.task <;> simp [Pc.stage, htask] at h
  | round h' passed todo => cases htask : h'.task <;> simp [Pc.stage, htask] at h
  | take h' passed key todo => cases htask : h'.task <;> simp [Pc.stage, htask] at h
  | put r' => cases r' <;> simp [Pc.stage] at h
  | _ => simp [Pc.stage] at h

theorem Harvest.stage_after (h : Harvest) :
    h.after.stage = some (h.req, if h.task then .working else .asking) := by
  unfold Harvest.after
  split
  · split <;> rfl
  · rfl

/-- The activation of tasks does not interfere with a thread outside of the window. -/
theorem InHand.notifyTasks
    {p : Pc}
    (h : InHand d p)
    (hp : p.halfQueued = false) :
    InHand d.notifyTasks p := by
  intro r st hst
  obtain ⟨hknown, hall, hactive, hfits⟩ := h r st hst
  have hmem : r ∈ (d.tasks.filter fun r => (d.poll r).active = .self) ↔
      r ∈ d.tasks ∧ (d.poll r).active = .self := by simp
  -- a task in hand is not among the tasks that are activated
  have hnot : ¬ (r ∈ d.tasks ∧ (d.poll r).active = .self) := by
    rintro ⟨ht, hself⟩
    cases st with
    | asking => exact hfits.1 ht
    | leaving => exact hfits.1 ht
    | linked => simp [Pc.halfQueued_of_stage (.inl hst)] at hp
    | ready => simp [Pc.halfQueued_of_stage (.inr hst)] at hp
    | working => simp [hfits.2.2.1] at hself
    | detached => exact hfits.1 ht
    | answered => exact hfits.1 ht
  refine ⟨hknown, hall, ?_, hfits.congr ?_ Iff.rfl⟩
  · simp only [Shared.notifyTasks, List.mem_append, hmem, not_or]
    exact ⟨hactive, hnot⟩
  · simp only [Shared.notifyTasks, hmem, if_neg hnot]

end Effects

/-- A task that is neither active nor dequeued is in the queue of all tasks, if nobody is in
the window. -/
theorem Polls.Kept.queued_of_self
    {ι : Type} {s : Polls ι} {r : Nat}
    (h : s.Kept)
    (hwindow : ∀ j, (s.pc j).halfQueued = false)
    (hr : r ∈ s.shared.tasks)
    (hself : (s.shared.poll r).active = .self) :
    r ∈ s.shared.listAll := by
  by_contra hnot
  obtain ⟨j, st, hst, hatt⟩ := h.covered r ⟨hr, hnot⟩
  obtain ⟨-, -, -, hfits⟩ := h.outlined.pc j r st hst
  have hj := hwindow j
  cases st with
  | linked => simp [Pc.halfQueued_of_stage (.inl hst)] at hj
  | ready => simp [Pc.halfQueued_of_stage (.inr hst)] at hj
  | working => simp [hfits.2.2.1] at hself
  | asking => cases hatt
  | leaving => cases hatt
  | detached => cases hatt
  | answered => cases hatt

/-- Something else has changed. -/
theorem Polls.Kept.reframe
    {ι : Type} {s : Polls ι} {d : Shared}
    (h : s.Kept)
    (ha : Shared.Alike s.shared d) :
    Polls.Kept { shared := d, pc := s.pc } := by
  refine ⟨⟨h.outlined.shared.alike ha, fun i => (h.outlined.pc i).alike ha, h.outlined.apart⟩, ?_⟩
  intro r hneed
  refine h.covered r ?_
  unfold Shared.Needs at hneed ⊢
  rwa [ha.tasks, ha.listAll] at hneed

section Moves

variable {ι : Type} [DecidableEq ι] {s s' : Polls ι} {x : ι × Option Op} {d : Shared} {p : Pc}
  {r : Nat}

/-- A step after which a thread has the request it had before, or has let go of it. -/
theorem Polls.Kept.alike
    (h : s.Kept)
    (hs' : s' = { shared := d, pc := Function.update s.pc x.1 p })
    (ha : Shared.Alike s.shared d)
    (hstage : ∀ r st, p.stage = some (r, st) →
      (s.pc x.1).stage = some (r, st) ∨ st = .leaving ∧ (s.pc x.1).stage = some (r, .asking))
    (hkeep : ∀ r st, (s.pc x.1).stage = some (r, st) → st.attached = true →
      p.stage = some (r, st)) :
    s'.Kept := by
  have hhand : InHand d p := by
    intro r st hp
    rcases hstage r st hp with hsame | ⟨rfl, hasking⟩
    · exact (h.outlined.pc x.1).alike ha r st hsame
    · obtain ⟨hknown, hall, hactive, hfits⟩ := (h.outlined.pc x.1).alike ha r .asking hasking
      exact ⟨hknown, hall, hactive, hfits.1, hfits.2.2.1⟩
  constructor
  · refine h.outlined.act distinct_symm hs' (h.outlined.shared.alike ha) hhand ?_
    intro j hj
    refine ⟨(h.outlined.pc j).alike ha, ?_⟩
    intro r st st' hp hq
    rcases hstage r st hp with hsame | ⟨-, hasking⟩
    · exact h.outlined.apart x.1 j (Ne.symm hj) r st st' hsame hq
    · exact h.outlined.apart x.1 j (Ne.symm hj) r .asking st' hasking hq
  · refine h.covered.act hs' ?_
    intro r hneed
    have hneed' : s.shared.Needs r := by
      unfold Shared.Needs at hneed ⊢
      rwa [ha.tasks, ha.listAll] at hneed
    by_cases hhas : (s.pc x.1).Has r
    · obtain ⟨st, hst, hatt⟩ := hhas
      exact .inl ⟨st, hkeep r st hst hatt, hatt⟩
    · exact .inr ⟨hneed', hhas⟩

/-- A step for one request, which nobody else has in hand. -/
theorem Polls.Kept.at
    (h : s.Kept)
    (hs' : s' = { shared := d, pc := Function.update s.pc x.1 p })
    (honly : Shared.OnlyAt r s.shared d)
    (hfree : ∀ j, j ≠ x.1 → ∀ st, (s.pc j).stage ≠ some (r, st))
    (hbefore : ∀ r' st, (s.pc x.1).stage = some (r', st) → r' = r)
    (hsound : d.Sound)
    (hhand : InHand d p)
    (hafter : ∀ r' st, p.stage = some (r', st) → r' = r)
    (hneed : d.Needs r → p.Has r) :
    s'.Kept := by
  constructor
  · refine h.outlined.act distinct_symm hs' hsound hhand ?_
    intro j hj
    refine ⟨(h.outlined.pc j).onlyAt honly (hfree j hj), ?_⟩
    intro r' st st' hp hq
    rw [hafter r' st hp] at hq
    exact hfree j hj st' hq
  · refine h.covered.act hs' ?_
    intro r' hr'
    by_cases heq : r' = r
    · subst heq
      exact .inl (hneed hr')
    · refine .inr ⟨⟨(honly.tasks r' heq).mp hr'.1, fun hm => hr'.2 ((honly.all r' heq).mpr hm)⟩, ?_⟩
      rintro ⟨st, hst, -⟩
      exact heq (hbefore r' st hst)

/-- A step of a thread for the request it has in hand. -/
theorem Polls.Kept.own
    {st : Stage}
    (h : s.Kept)
    (hs' : s' = { shared := d, pc := Function.update s.pc x.1 p })
    (hst : (s.pc x.1).stage = some (r, st))
    (honly : Shared.OnlyAt r s.shared d)
    (hsound : d.Sound)
    (hhand : InHand d p)
    (hafter : ∀ r' st, p.stage = some (r', st) → r' = r)
    (hneed : d.Needs r → p.Has r) :
    s'.Kept := by
  refine h.at hs' honly ?_ ?_ hsound hhand hafter hneed
  · intro j hj st'
    exact h.outlined.apart x.1 j (Ne.symm hj) r st st' hst
  · intro r' st' hst'
    rw [hst] at hst'
    cases hst'
    rfl

/-- A poll thread takes its task out of `watch->tasks`. -/
theorem Polls.Kept.dropTask
    (h : s.Kept)
    (hs' : s' = { shared := s.shared.dropTask r, pc := Function.update s.pc x.1 (.putTask r) })
    (hst : (s.pc x.1).stage = some (r, .working)) :
    s'.Kept := by
  have hsound := h.outlined.shared
  obtain ⟨hknown, hall, hactive, hfits⟩ := h.outlined.pc x.1 r .working hst
  have hgone : r ∉ (s.shared.dropTask r).tasks := hsound.tasksNodup.not_mem_erase
  refine h.own hs' hst (hsound.onlyAt_dropTask hfits.1) (hsound.dropTask hfits.1 hall) ?_ ?_ ?_
  · intro r' st hp
    cases hp
    exact ⟨hknown, hall, hactive, hgone, hsound.live hfits.1, hfits.2.1⟩
  · intro r' st hp
    cases hp
    rfl
  · intro hneed
    exact absurd hneed.1 hgone

/-- A thread changes the request it has in hand and goes on with it. -/
theorem Polls.Kept.setPoll
    {st : Stage} {f : Poll → Poll}
    (h : s.Kept)
    (st' : Stage)
    (hs' : s' = { shared := s.shared.setPoll r f, pc := Function.update s.pc x.1 p })
    (hst : (s.pc x.1).stage = some (r, st))
    (hlink : (f (s.shared.poll r)).active = (s.shared.poll r).active)
    (hreplies : (f (s.shared.poll r)).replies.length ≤ 1)
    (hfrees : (f (s.shared.poll r)).frees ≤ 1)
    (htasks : 0 < (f (s.shared.poll r)).frees → r ∉ s.shared.tasks)
    (hp : p.stage = some (r, st'))
    (hfits : st'.Fits (s.shared.setPoll r f) r)
    (hneed : r ∈ s.shared.tasks → st'.attached = true) :
    s'.Kept := by
  obtain ⟨hknown, hall, hactive, -⟩ := h.outlined.pc x.1 r st hst
  have hafter : ∀ r' st'', p.stage = some (r', st'') → r' = r ∧ st'' = st' := by
    intro r' st'' hp'
    rw [hp] at hp'
    cases hp'
    exact ⟨rfl, rfl⟩
  refine h.own hs' hst (Shared.onlyAt_setPoll f)
    (h.outlined.shared.setPoll f hall hactive
      (hlink ▸ h.outlined.shared.not_queued hactive) hreplies hfrees htasks) ?_ ?_ ?_
  · intro r' st'' hp'
    obtain ⟨rfl, rfl⟩ := hafter r' st'' hp'
    exact ⟨hknown, hall, hactive, hfits⟩
  · intro r' st'' hp'
    exact (hafter r' st'' hp').1
  · intro hr
    exact ⟨st', hp, hneed hr.1⟩

/-- A thread changes the request it has in hand and lets go of it. -/
theorem Polls.Kept.done
    {st : Stage} {f : Poll → Poll}
    (h : s.Kept)
    (hs' : s' = { shared := s.shared.setPoll r f, pc := Function.update s.pc x.1 .idle })
    (hst : (s.pc x.1).stage = some (r, st))
    (hlink : (f (s.shared.poll r)).active = (s.shared.poll r).active)
    (hreplies : (f (s.shared.poll r)).replies.length ≤ 1)
    (hfrees : (f (s.shared.poll r)).frees ≤ 1)
    (htasks : r ∉ s.shared.tasks) :
    s'.Kept := by
  obtain ⟨hknown, hall, hactive, -⟩ := h.outlined.pc x.1 r st hst
  refine h.own hs' hst (Shared.onlyAt_setPoll f)
    (h.outlined.shared.setPoll f hall hactive
      (hlink ▸ h.outlined.shared.not_queued hactive) hreplies hfrees fun _ => htasks)
    (inHand_of_none rfl) (fun _ _ hp => by cases hp) ?_
  intro hneed
  exact absurd hneed.1 htasks

/-- Tasks are activated while nobody is in the window. -/
theorem Polls.Kept.notifyTasks
    (h : s.Kept)
    (hs' : s' = { shared := s.shared.notifyTasks, pc := Function.update s.pc x.1 p })
    (hwindow : ∀ j, (s.pc j).halfQueued = false)
    (hbefore : (s.pc x.1).stage = none)
    (hafter : p.stage = none) :
    s'.Kept := by
  constructor
  · refine h.outlined.act distinct_symm hs' ?_ (inHand_of_none hafter) ?_
    · exact h.outlined.shared.notifyTasks fun r hr hself => h.queued_of_self hwindow hr hself
    · intro j _
      exact ⟨(h.outlined.pc j).notifyTasks (hwindow j), distinct_of_none hafter⟩
  · refine h.covered.act hs' ?_
    intro r hr
    refine .inr ⟨hr, ?_⟩
    rintro ⟨st, hst, -⟩
    rw [hbefore] at hst
    cases hst

/-- `watch_notify_watches` in the write region. -/
theorem Polls.Kept.notifyWatches
    {node : Nat} {deleted : Bool}
    (h : s.Kept)
    (hs' : s' =
      { shared := s.shared.notifyWatches node deleted, pc := Function.update s.pc x.1 p })
    (hwindow : s.shared.monitors node ≠ [] → ∀ j, (s.pc j).halfQueued = false)
    (hbefore : (s.pc x.1).stage = none)
    (hafter : p.stage = none) :
    s'.Kept := by
  unfold Shared.notifyWatches at hs'
  split at hs'
  · refine h.alike hs' (Shared.alike_frame _ _ _ _ _ _ _) ?_ ?_
    · intro r st hst
      rw [hafter] at hst
      cases hst
    · intro r st hst
      rw [hbefore] at hst
      cases hst
  · rename_i hnone
    refine Polls.Kept.notifyTasks (h.reframe ?_) hs' (hwindow hnone) hbefore hafter
    refine ⟨rfl, rfl, rfl, rfl, rfl, le_rfl, ?_, ?_, ?_, ?_⟩ <;>
      · intro r
        simp only
        split <;> rfl

/-- What is done in a region of the watch. -/
theorem Polls.Kept.work
    {e : Entry}
    (h : s.Kept)
    (hpc : s.pc x.1 = .enter e true)
    (hok : s.WakesQueued x)
    (hs' : s' = { shared := e.work s.shared, pc := Function.update s.pc x.1 e.granted }) :
    s'.Kept := by
  have hframe : Shared.Alike s.shared (e.work s.shared) → e.granted.stage = e.stage →
      s'.Kept := by
    intro ha hgranted
    refine h.alike hs' ha ?_ ?_
    · intro r st hst
      refine .inl ?_
      rw [hpc]
      exact hgranted.symm.trans hst
    · intro r st hst _
      rw [hpc] at hst
      exact hgranted.trans hst
  have hrefl : Shared.Alike s.shared s.shared := Shared.alike_frame _ _ _ _ _ _ _
  have hsound := h.outlined.shared
  have hhand := h.outlined.pc x.1
  rw [hpc] at hhand
  cases e with
  | notify node deleted =>
      refine h.notifyWatches hs' ?_ (by rw [hpc]; rfl) rfl
      intro hnone
      exact hok (by simp [Shared.activates, hpc, hnone])
  | poll r all => exact hframe hrefl rfl
  | join r =>
      obtain ⟨hknown, hall, hactive, hfits⟩ := hhand r .asking rfl
      have hasking : (s.pc x.1).stage = some (r, .asking) := by rw [hpc]; rfl
      refine h.own hs' hasking Shared.onlyAt_joinTasks
        (hsound.joinTasks hknown hfits hall hactive) ?_ ?_ ?_
      · intro r' st hst
        cases hst
        refine ⟨hknown, hall, hactive, ?_, hfits.2.2.1, hfits.2.2.2⟩
        simp [Entry.work, Shared.joinTasks]
      · intro r' st hst
        cases hst
        rfl
      · intro _
        exact ⟨.linked, rfl, rfl⟩
  | take r => exact hframe hrefl rfl
  | drop r =>
      obtain ⟨hknown, hall, hactive, hfits⟩ := hhand r .working rfl
      exact h.dropTask hs' (by rw [hpc]; rfl)
  | edits e rest =>
      refine hframe (Shared.alike_edit e) ?_
      cases rest <;> rfl
  | visit m leaky => cases m <;> exact hframe hrefl rfl
  | make => exact hframe hrefl rfl
  | cross even => exact hframe hrefl rfl

/-- A step that changes no list and no task, after which the thread has the same request in
the same stage. -/
theorem Polls.Kept.same
    (h : s.Kept)
    (hs' : s' = { shared := d, pc := Function.update s.pc x.1 p })
    (ha : Shared.Alike s.shared d)
    (hstage : p.stage = (s.pc x.1).stage) :
    s'.Kept := by
  refine h.alike hs' ha ?_ ?_
  · intro r st hst
    exact .inl (hstage.symm.trans hst)
  · intro r st hst _
    exact hstage.trans hst

/-- A poll request is done with the watch. -/
theorem Polls.Kept.toLeaving
    (h : s.Kept)
    (hs' : s' = { shared := d, pc := Function.update s.pc x.1 p })
    (ha : Shared.Alike s.shared d)
    (hst : (s.pc x.1).stage = some (r, .asking))
    (hp : p.stage = some (r, .leaving)) :
    s'.Kept := by
  refine h.alike hs' ha ?_ ?_
  · intro r' st hst'
    rw [hp] at hst'
    cases hst'
    exact .inr ⟨rfl, hst⟩
  · intro r' st hst' hatt
    rw [hst] at hst'
    cases hst'
    cases hatt

/-- What a thread does when an entry is refused. -/
theorem Polls.Kept.denied
    {e : Entry} {waiting : Bool}
    (h : s.Kept)
    (hpc : s.pc x.1 = .enter e waiting)
    (hs' : s' = { shared := e.denied s.shared, pc := Function.update s.pc x.1 e.refused }) :
    s'.Kept := by
  have hrefl : Shared.Alike s.shared s.shared := Shared.alike_frame _ _ _ _ _ _ _
  cases e with
  | join r =>
      have hst : (s.pc x.1).stage = some (r, .asking) := by rw [hpc]; rfl
      obtain ⟨-, -, -, hfits⟩ := h.outlined.pc x.1 r .asking hst
      simp only [Entry.denied, Entry.refused, Shared.free] at hs'
      refine h.setPoll .leaving hs' hst rfl ?_ ?_ ?_ rfl ?_ ?_
      · simp [hfits.2.2.1]
      · simp [hfits.2.1]
      · exact fun _ => hfits.1
      · exact ⟨hfits.1, by simp [hfits.2.2.1]⟩
      · exact fun hr => absurd hr hfits.1
  | poll r all => exact h.toLeaving hs' hrefl (by rw [hpc]; rfl) rfl
  | edits e rest =>
      refine h.same hs' hrefl ?_
      rw [hpc]
      cases rest <;> rfl
  | visit m leaky =>
      refine h.same hs' hrefl ?_
      rw [hpc]
      cases leaky <;> rfl
  | notify node deleted => exact h.same hs' hrefl (by rw [hpc]; rfl)
  | take r => exact h.same hs' hrefl (by rw [hpc]; rfl)
  | drop r => exact h.same hs' hrefl (by rw [hpc]; rfl)
  | make => exact h.same hs' hrefl (by rw [hpc]; rfl)
  | cross even => exact h.same hs' hrefl (by rw [hpc]; rfl)

/-- A step of a thread in the middle of its operation. -/
theorem Polls.Kept.advance
    (h : s.Kept)
    (hok : s.WakesQueued x)
    (hstep : s.shared.advance (s.pc x.1) = some (d, p))
    (hs' : s' = { shared := d, pc := Function.update s.pc x.1 p }) :
    s'.Kept := by
  have hsound := h.outlined.shared
  have hhand := h.outlined.pc x.1
  have hframe : ∀ (made listed disposed changed : Bool) (sync : Tsync) (refcnt : Int)
      (items : List Item), Shared.Alike s.shared
        { s.shared with
          made := made
          listed := listed
          disposed := disposed
          changed := changed
          sync := sync
          refcnt := refcnt
          items := items } := fun _ _ _ _ _ _ _ => Shared.alike_frame _ _ _ _ _ _ _
  cases hpc : s.pc x.1 with
  | idle =>
      rw [hpc] at hstep
      cases hstep
  | get e =>
      rw [hpc] at hstep
      cases hstep
      exact h.same hs' (hframe _ _ _ _ _ _ _) (by rw [hpc]; rfl)
  | enter e waiting =>
      rw [hpc] at hstep
      cases waiting with
      | false =>
          simp only [Shared.advance] at hstep
          split at hstep
          · cases hstep
            exact h.denied hpc hs'
          · cases hstep
            exact h.same hs' (hframe _ _ _ _ _ _ _) (by rw [hpc]; rfl)
      | true =>
          simp only [Shared.advance, Option.map_eq_some_iff] at hstep
          obtain ⟨sync, -, heq⟩ := hstep
          cases heq
          exact Polls.Kept.work (h.reframe (hframe _ _ _ _ sync _ _)) hpc hok hs'
  | inside even =>
      rw [hpc] at hstep
      cases even with
      | true =>
          cases hstep
          exact h.same hs' (hframe _ _ _ _ _ _ _) (by rw [hpc]; rfl)
      | false =>
          cases hstep
          exact h.same hs' (hframe _ _ _ _ _ _ _) (by rw [hpc]; rfl)
  | test r all =>
      rw [hpc] at hstep
      cases hstep
      refine h.same hs' (hframe _ _ _ _ _ _ _) ?_
      rw [hpc]
      split <;> rfl
  | quit r =>
      rw [hpc] at hstep
      cases hstep
      exact h.same hs' (hframe _ _ _ _ _ _ _) (by rw [hpc]; rfl)
  | harvest h' =>
      rw [hpc] at hstep
      cases hstep
      refine h.same hs' ?_ ?_
      · split
        · rename_i htask
          obtain ⟨-, -, -, hfits⟩ := hhand h'.req .working (by rw [hpc]; simp [Pc.stage, htask])
          rw [Shared.touch_eq _ (by simpa using hsound.live hfits.1)]
          exact hframe _ _ _ _ _ _ _
        · exact hframe _ _ _ _ _ _ _
      · rw [hpc]
        split
        · rfl
        · exact h'.stage_after
  | round h' passed todo =>
      rw [hpc] at hstep
      cases todo with
      | nil =>
          cases hstep
          exact h.same hs' (Shared.alike_settle h') (by rw [hpc]; exact h'.stage_after)
      | cons key todo =>
          cases hstep
          refine h.same hs' (hframe _ _ _ _ _ _ _) ?_
          rw [hpc]
          split <;> rfl
  | take h' passed key todo =>
      rw [hpc] at hstep
      cases hstep
      exact h.same hs' (Shared.alike_collect h' key) (by rw [hpc]; rfl)
  | leave r =>
      rw [hpc] at hstep
      cases hstep
      exact h.toLeaving hs' (hframe _ _ _ _ _ _ _) (by rw [hpc]; rfl) rfl
  | leaveTask r =>
      rw [hpc] at hstep
      cases hstep
      exact h.same hs' (hframe _ _ _ _ _ _ _) (by rw [hpc]; rfl)
  | put r =>
      rw [hpc] at hstep
      cases hstep
      refine h.same hs' (hframe _ _ _ _ _ _ _) ?_
      rw [hpc]
      cases r <;> rfl
  | reply r =>
      rw [hpc] at hstep
      cases hstep
      have hst : (s.pc x.1).stage = some (r, .leaving) := by rw [hpc]; rfl
      obtain ⟨-, -, -, hfits⟩ := hhand r .leaving hst
      refine h.done hs' hst rfl ?_ ?_ hfits.1
      · simp [hfits.2]
      · exact hsound.frees r
  | setWatch r =>
      rw [hpc] at hstep
      have hst : (s.pc x.1).stage = some (r, .linked) := by rw [hpc]; rfl
      obtain ⟨-, -, -, hfits⟩ := hhand r .linked hst
      have hlive := hsound.live hfits.1
      simp only [Shared.advance, Shared.touch_eq [r] (by simpa using hlive)] at hstep
      cases hstep
      refine h.setPoll .ready hs' hst rfl ?_ ?_ ?_ rfl ?_ fun _ => rfl
      · simp [hfits.2.1]
      · simp [hlive]
      · simp [hlive]
      · refine ⟨hfits.1, ?_, ?_, ?_⟩ <;> simp [hfits.2.1, hfits.2.2]
  | queue r =>
      rw [hpc] at hstep
      cases hstep
      have hst : (s.pc x.1).stage = some (r, .ready) := by rw [hpc]; rfl
      obtain ⟨-, hall, -, hfits⟩ := hhand r .ready hst
      refine h.own hs' hst (hsound.onlyAt_enqueue hfits.1) (hsound.enqueue hfits hall)
        (inHand_of_none rfl) (fun _ _ hp => by cases hp) ?_
      intro hneed
      exact absurd (Shared.mem_enqueue r |>.mpr (.inl rfl)) hneed.2
  | taken r =>
      rw [hpc] at hstep
      have hst : (s.pc x.1).stage = some (r, .working) := by rw [hpc]; rfl
      obtain ⟨-, -, -, hfits⟩ := hhand r .working hst
      simp only [Shared.advance, Shared.touch_eq [r] (by simpa using hsound.live hfits.1),
        hfits.2.2.2, if_true] at hstep
      cases hstep
      exact h.same hs' (hframe _ _ _ _ _ _ _) (by rw [hpc]; rfl)
  | remove r =>
      rw [hpc] at hstep
      cases hstep
      exact h.dropTask hs' (by rw [hpc]; rfl)
  | putTask r =>
      rw [hpc] at hstep
      cases hstep
      exact h.same hs' (hframe _ _ _ _ _ _ _) (by rw [hpc]; rfl)
  | clear r =>
      rw [hpc] at hstep
      have hst : (s.pc x.1).stage = some (r, .detached) := by rw [hpc]; rfl
      obtain ⟨-, -, -, hfits⟩ := hhand r .detached hst
      simp only [Shared.advance, Shared.touch_eq [r] (by simpa using hfits.2.1)] at hstep
      cases hstep
      refine h.setPoll .detached hs' hst rfl ?_ ?_ (fun _ => hfits.1) rfl ?_ ?_
      · simp [hfits.2.2]
      · simp [hfits.2.1]
      · exact ⟨hfits.1, by simp [hfits.2.1], by simp [hfits.2.2]⟩
      · exact fun hr => absurd hr hfits.1
  | replyTask r =>
      rw [hpc] at hstep
      have hst : (s.pc x.1).stage = some (r, .detached) := by rw [hpc]; rfl
      obtain ⟨-, -, -, hfits⟩ := hhand r .detached hst
      simp only [Shared.advance, Shared.touch_eq [r] (by simpa using hfits.2.1),
        Shared.reply] at hstep
      cases hstep
      refine h.setPoll .answered hs' hst rfl ?_ ?_ (fun _ => hfits.1) rfl ?_ ?_
      · simp [hfits.2.2]
      · simp [hfits.2.1]
      · exact ⟨hfits.1, by simp [hfits.2.1], by simp [hfits.2.2]⟩
      · exact fun hr => absurd hr hfits.1
  | free r =>
      rw [hpc] at hstep
      cases hstep
      have hst : (s.pc x.1).stage = some (r, .answered) := by rw [hpc]; rfl
      obtain ⟨-, -, -, hfits⟩ := hhand r .answered hst
      refine h.done hs' hst rfl ?_ ?_ hfits.1
      · simp [hfits.2.2]
      · simp [hfits.2.1]
  | shutdown expire waiting =>
      rw [hpc] at hstep
      cases waiting with
      | false =>
          simp only [Shared.advance] at hstep
          split at hstep
          · cases hstep
            refine h.same hs' (hframe _ _ _ _ _ _ _) ?_
            rw [hpc]
            cases expire <;> rfl
          · cases hstep
            exact h.same hs' (hframe _ _ _ _ _ _ _) (by rw [hpc]; rfl)
      | true =>
          simp only [Shared.advance, Option.map_eq_some_iff] at hstep
          obtain ⟨sync, -, heq⟩ := hstep
          cases heq
          refine h.same hs' (hframe _ _ _ _ _ _ _) ?_
          rw [hpc]
          cases expire <;> rfl
  | wake =>
      rw [hpc] at hstep
      cases hstep
      exact h.notifyTasks hs' (hok (by simp [Shared.activates, hpc])) (by rw [hpc]; rfl) rfl
  | unlist expire =>
      rw [hpc] at hstep
      cases hstep
      refine h.same hs' (hframe _ _ _ _ _ _ _) ?_
      rw [hpc]
      cases expire <;> rfl
  | putDelete =>
      rw [hpc] at hstep
      cases hstep
      exact h.same hs' (hframe _ _ _ _ _ _ _) (by rw [hpc]; rfl)
  | drain =>
      rw [hpc] at hstep
      simp only [Shared.advance] at hstep
      split at hstep
      · cases hstep
      · cases hstep
        exact h.same hs' (hframe _ _ _ _ _ _ _) (by rw [hpc]; rfl)

/-- The beginning of an operation that is not about a poll request yet. -/
theorem Polls.Kept.search
    (h : s.Kept)
    (hidle : s.pc x.1 = .idle)
    (hp : p.stage = none)
    (hs' : s' =
      { shared := (s.shared.search p).1, pc := Function.update s.pc x.1 (s.shared.search p).2 }) :
    s'.Kept := by
  unfold Shared.search at hs'
  split at hs'
  · exact h.same hs' (Shared.alike_frame _ _ _ _ _ _ _) (by rw [hidle]; exact hp)
  · exact h.same hs' (Shared.alike_frame _ _ _ _ _ _ _) (by rw [hidle])

/-- The beginning of a poll request. -/
theorem Polls.Kept.startPoll
    {expiry : Nat} {all : Bool}
    (h : s.Kept)
    (hidle : s.pc x.1 = .idle)
    (hs' : s' =
      { shared := (s.shared.startPoll expiry all).1
        pc := Function.update s.pc x.1 (s.shared.startPoll expiry all).2 }) :
    s'.Kept := by
  unfold Shared.startPoll at hs'
  split at hs'
  · have hsound := h.outlined.shared
    have hnew : s.shared.next ∉ s.shared.tasks :=
      fun hm => absurd (hsound.known _ hm) (Nat.lt_irrefl _)
    have hall : s.shared.next ∉ s.shared.listAll := fun hm => hnew (hsound.all _ hm).1
    have hactive : s.shared.next ∉ s.shared.listActive := fun hm => hall (hsound.active_all _ hm)
    have honly : Shared.OnlyAt s.shared.next s.shared
        { s.shared.get with
          poll := Function.update s.shared.poll s.shared.next (Poll.fresh expiry)
          next := s.shared.next + 1 } :=
      { next := Nat.le_succ _
        poll := fun _ hr' => Function.update_of_ne hr' _ _
        tasks := fun _ _ => Iff.rfl
        all := fun _ _ => Iff.rfl
        active := fun _ _ => Iff.rfl }
    refine h.at hs' honly ?_ ?_ ?_ ?_ ?_ fun hneed => absurd hneed.1 hnew
    · intro j _ st hst
      exact absurd (h.outlined.pc j _ st hst).1 (Nat.lt_irrefl _)
    · intro r' st hst
      rw [hidle] at hst
      cases hst
    · exact hsound.startPoll expiry hall hactive
    · intro r' st hst
      cases hst
      exact ⟨Nat.lt_succ_self _, hall, hactive, hnew, by simp [Poll.fresh], by simp [Poll.fresh],
        by simp [Poll.fresh]⟩
    · intro r' st hst
      cases hst
      rfl
  · exact h.same hs' (Shared.alike_frame _ _ _ _ _ _ _) (by rw [hidle])

/-- A poll thread takes up a task. -/
theorem Polls.Kept.dequeue
    {now : Nat}
    (h : s.Kept)
    (hidle : s.pc x.1 = .idle)
    (hnext : s.shared.nextTask now = some r)
    (hs' : s' = { shared := s.shared.dequeue r, pc := Function.update s.pc x.1 (.taken r) }) :
    s'.Kept := by
  have hsound := h.outlined.shared
  have hr : r ∈ s.shared.listAll := hsound.nextTask_mem hnext
  obtain ⟨ht, hwatch, -, hreplies⟩ := hsound.all r hr
  have heq := hsound.dequeue_eq ht
  have hnall : r ∉ (s.shared.dequeue r).listAll := hsound.allNodup.not_mem_erase
  refine h.at hs' (hsound.onlyAt_dequeue ht) ?_ ?_ (hsound.dequeue hr) ?_ ?_ fun _ => ⟨.working, rfl, rfl⟩
  · intro j _ st hst
    exact (h.outlined.pc j r st hst).2.1 hr
  · intro r' st hst
    rw [hidle] at hst
    cases hst
  · intro r' st hst
    cases hst
    refine ⟨?_, hnall, hsound.activeNodup.not_mem_erase, ?_, ?_, ?_, ?_⟩
    · exact hsound.known r ht
    · exact ht
    · rw [heq]
      simpa using hreplies
    · rw [heq]
      simp
    · rw [heq]
      simpa using hwatch
  · intro r' st hst
    cases hst
    rfl

/-- The beginning of an operation. -/
theorem Polls.Kept.start
    {op : Op}
    (h : s.Kept)
    (hidle : s.pc x.1 = .idle)
    (hstep : s.shared.start op = some (d, p))
    (hs' : s' = { shared := d, pc := Function.update s.pc x.1 p }) :
    s'.Kept := by
  have hframe : Shared.Alike s.shared d → p.stage = none → s'.Kept := by
    intro ha hp
    exact h.same hs' ha (by rw [hidle]; exact hp)
  have hpair : ∀ {y : Shared × Pc}, some y = some (d, p) →
      s' = { shared := y.1, pc := Function.update s.pc x.1 y.2 } := by
    intro y hy
    rw [Option.some.inj hy]
    exact hs'
  cases op with
  | make =>
      simp only [Shared.start] at hstep
      split at hstep
      · cases hstep
      · cases hstep
        exact hframe (Shared.alike_frame _ _ _ _ _ _ _) rfl
  | pollChanges expiry => exact h.startPoll hidle (hpair hstep)
  | pollRefresh => exact h.startPoll hidle (hpair hstep)
  | pollThread now =>
      simp only [Shared.start, Option.map_eq_some_iff] at hstep
      obtain ⟨r, hnext, heq⟩ := hstep
      cases heq
      exact h.dequeue hidle hnext hs'
  | cross even =>
      simp only [Shared.start] at hstep
      split at hstep
      · cases hstep
        exact hframe (Shared.alike_frame _ _ _ _ _ _ _) rfl
      · cases hstep
  | expire =>
      simp only [Shared.start] at hstep
      split at hstep
      · cases hstep
        exact hframe (Shared.alike_frame _ _ _ _ _ _ _) rfl
      · cases hstep
  | notify node deleted => exact h.search hidle rfl (hpair hstep)
  | edits es => exact h.search hidle (by cases es <;> rfl) (hpair hstep)
  | visit m leaky => exact h.search hidle rfl (hpair hstep)
  | delete => exact h.search hidle rfl (hpair hstep)

/-- One step outside of the window. -/
theorem Polls.Kept.act
    (h : s.Kept)
    (hok : s.WakesQueued x)
    (hact : s.act Shared.step x = some s') :
    s'.Kept := by
  obtain ⟨d, p, hstep, hs'⟩ := Threads.act_eq_some_iff.mp hact
  obtain ⟨i, a⟩ := x
  cases a with
  | none => exact h.advance hok hstep hs'
  | some op =>
      simp only [Shared.step] at hstep
      split at hstep
      · rename_i hidle
        exact h.start hidle hstep hs'
      · cases hstep

end Moves

section Runs

variable {ι : Type}

theorem Polls.kept_init : (Polls.init : Polls ι).Kept := by
  constructor
  · refine ⟨?_, fun _ => inHand_of_none rfl, fun _ _ _ => distinct_of_none rfl⟩
    constructor <;> simp [Polls.init, Shared.init, Poll.fresh]
  · intro r hr
    cases hr.1

theorem Polls.Kept.answeredOnce
    {s : Polls ι}
    (h : s.Kept) :
    s.AnsweredOnce :=
  { replies := h.outlined.shared.replies
    frees := h.outlined.shared.frees
    untouched := h.outlined.shared.untouched
    unlinked := h.outlined.shared.unlinked }

variable [DecidableEq ι]

/-- Every state of a run in which tasks are activated outside of the window. -/
theorem Polls.kept_of_run
    {acts : List (ι × Option Op)} {s : Polls ι}
    (hok : Polls.Allows Polls.WakesQueued acts)
    (hrun : Polls.Run acts s) :
    s.Kept :=
  Threads.exec_invariant (fun _ _ _ => Polls.Kept.act) Polls.kept_init hok hrun

/-- Poll tasks are answered once, freed once and left alone afterwards, in every run in which
tasks are activated only when none of them is still missing from `backlog->list_all`. -/
theorem polls_answered_once
    (acts : List (ι × Option Op))
    (s : Polls ι)
    (hok : Polls.Allows Polls.WakesQueued acts)
    (hrun : Polls.Run acts s) :
    s.AnsweredOnce :=
  (Polls.kept_of_run hok hrun).answeredOnce

/-- A poll thread takes up a task and goes through with it. -/
def pollThreadRun : List (Fin 2 × Option Op) := (1, some (.pollThread 0)) :: List.replicate 14 (1, none)

theorem polls_answered_once_notified :
    ∃ s : Polls (Fin 2),
      Polls.Run (makeAddPoll ++ joinQueue ++ notifySeven ++ pollThreadRun) s ∧
        (s.shared.poll 1).replies = [[0]] ∧ (s.shared.poll 1).frees = 1 ∧ s.AnsweredOnce := by
  have hok : Polls.Allows Polls.WakesQueued
      (makeAddPoll ++ joinQueue ++ notifySeven ++ pollThreadRun) := by
    unfold Polls.Allows
    decide +kernel
  exact ⟨_, rfl, rfl, rfl, polls_answered_once _ _ hok rfl⟩

/-- The watch is notified while a new task is in `watch->tasks` only; a poll thread answers the
task and frees it before its creator has set `task->watch`. -/
def notifiedInWindow : List (Fin 2 × Option Op) :=
  makeAddPoll ++ [(0, none), (0, none)] ++ notifySeven ++
    [(1, some (.pollThread 0)), (1, none), (1, none), (1, none), (0, none)]

theorem polls_answered_in_window :
    ¬ ∀ (acts : List (Fin 2 × Option Op)) (s : Polls (Fin 2)), Polls.Run acts s →
      s.AnsweredOnce := by
  intro h
  have huntouched := (h notifiedInWindow _ rfl).untouched
  revert huntouched
  decide

end Runs

end Watches
end Obix
