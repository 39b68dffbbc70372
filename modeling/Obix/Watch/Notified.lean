import Obix.Watch.Polls

/-!
# Long polls and changes that have been recorded

`watch_poll_helper` tests `watch->changed` in the read region, and `watch_create_poll_task`
enters the write region later.  A notification in between finds no task to activate, and the
task sleeps until it expires.  In the runs in which `watch->changed` is still 0 whenever a
task joins `watch->tasks`, no task sleeps while a change has been recorded
(`polls_not_missed`).
-/

namespace Obix
namespace Watches

/-- A thread is about to put a poll task into `watch->tasks`. -/
def Pc.joins : Pc → Bool
  | .enter (.join _) true => true
  | _ => false

/-- In `watch_notify_watches` or in `__watch_harvest_changes`. -/
def Pc.busy : Pc → Bool
  | .enter (.notify ..) _ | .harvest _ | .round .. | .take .. => true
  | _ => false

namespace Polls

variable {ι : Type}

/-- Every poll task of the watch is active or has been dequeued by a poll thread, if a change
has been recorded. -/
def NotMissed (s : Polls ι) : Prop :=
  s.shared.changed = true → (∀ i, (s.pc i).busy = false) →
    ∀ r ∈ s.shared.tasks, r ∈ s.shared.listActive ∨ (s.shared.poll r).active = .poisoned

/-- A poll task joins the watch only while no change has been recorded. -/
def JoinsUnchanged (s : Polls ι) (x : ι × Option Op) : Prop :=
  (s.pc x.1).joins = true → s.shared.changed = false

instance (s : Polls ι) (x : ι × Option Op) : Decidable (s.JoinsUnchanged x) :=
  inferInstanceAs (Decidable (_ = true → _ = false))

end Polls

/-- Active tasks are in the queue of active tasks, and all tasks have been activated if a
change has been recorded. -/
structure Shared.Roused (d : Shared) : Prop where
  queued : ∀ r, (d.poll r).active = .queued → r ∈ d.listActive
  roused : d.changed = true → ∀ r ∈ d.tasks, (d.poll r).active ≠ .self
  known : ∀ r ∈ d.tasks, r < d.next

def Entry.asking : Entry → Option Nat
  | .poll r _ | .join r => some r
  | _ => none

/-- The request of a thread that may yet make a poll task for it. -/
def Pc.asking : Pc → Option Nat
  | .get e | .enter e _ => e.asking
  | .test r _ | .quit r => some r
  | _ => none

/-- A request in hand has been numbered. -/
def AskingKnown (d : Shared) (p : Pc) : Prop :=
  ∀ r, p.asking = some r → r < d.next

section Steps

variable {d d' : Shared} {p p' : Pc}

/-- The queues, the flags and the links of the tasks are as before. -/
theorem Shared.Roused.of_eq
    (h : d.Roused)
    (hactive : ∀ r, (d'.poll r).active = (d.poll r).active)
    (hlist : d'.listActive = d.listActive)
    (hchanged : d'.changed = true → d.changed = true)
    (htasks : ∀ r ∈ d'.tasks, r ∈ d.tasks)
    (hnext : d'.next = d.next) :
    d'.Roused := by
  constructor
  · intro r hr
    rw [hlist]
    exact h.queued r (hactive r ▸ hr)
  · intro hc r hr
    rw [hactive]
    exact h.roused (hchanged hc) r (htasks r hr)
  · intro r hr
    rw [hnext]
    exact h.known r (htasks r hr)

@[simp] theorem Shared.setPoll_poll_active
    {f : Poll → Poll}
    (hf : ∀ x, (f x).active = x.active)
    (r r' : Nat) :
    ((d.setPoll r f).poll r').active = (d.poll r').active := by
  by_cases hr : r' = r
  · subst hr
    simp [Shared.setPoll, hf]
  · simp [Shared.setPoll, Function.update_of_ne hr]

/-- A change of other fields of the poll requests. -/
theorem Shared.Roused.setPoll
    {f : Poll → Poll}
    (h : d.Roused)
    (r : Nat)
    (hf : ∀ x, (f x).active = x.active) :
    (d.setPoll r f).Roused :=
  h.of_eq (fun _ => Shared.setPoll_poll_active hf r _) rfl id (fun _ hr => hr) rfl

/-- `__watch_notify_tasks` activates the tasks that are not active yet. -/
theorem Shared.Roused.notifyTasks
    (hqueued : ∀ r, (d.poll r).active = .queued → r ∈ d.listActive)
    (hknown : ∀ r ∈ d.tasks, r < d.next) :
    d.notifyTasks.Roused := by
  constructor
  · intro r hr
    simp only [Shared.notifyTasks] at hr ⊢
    rw [List.mem_append]
    split at hr
    · rename_i hmem
      exact .inr hmem
    · exact .inl (hqueued r hr)
  · intro _ r hr
    simp only [Shared.notifyTasks] at hr ⊢
    split
    · simp
    · rename_i hnot
      intro hself
      exact hnot (List.mem_filter.mpr ⟨hr, by simpa using hself⟩)
  · exact hknown

theorem Shared.Roused.notifyWatches
    (h : d.Roused)
    (node : Nat)
    (deleted : Bool) :
    (d.notifyWatches node deleted).Roused := by
  unfold Shared.notifyWatches
  split
  · exact h
  · refine Shared.Roused.notifyTasks ?_ h.known
    intro r hr
    refine h.queued r ?_
    revert hr
    simp only
    split <;> exact id

theorem Shared.Roused.edit
    (h : d.Roused)
    (e : Edit) :
    (d.edit e).Roused ∧ d.next ≤ (d.edit e).next := by
  have happend : ∀ (items : List Item) (href : CString.Text) (linked : Option Nat),
      (Shared.append { d with items := items } href linked).Roused ∧
        d.next ≤ (Shared.append { d with items := items } href linked).next := by
    intro items href linked
    cases linked with
    | none => exact ⟨⟨h.queued, h.roused, h.known⟩, le_rfl⟩
    | some node =>
        exact ⟨⟨h.queued, h.roused, fun r hr => Nat.lt_succ_of_lt (h.known r hr)⟩, Nat.le_succ _⟩
  cases e with
  | add href linked =>
      simp only [Shared.edit]
      split
      · exact happend d.items href linked
      · split
        · exact happend _ href linked
        · exact ⟨h, le_rfl⟩
  | remove href => exact ⟨⟨h.queued, h.roused, h.known⟩, le_rfl⟩

theorem askingKnown_of_none
    (h : p.asking = none) :
    AskingKnown d p := by
  intro r hr
  rw [h] at hr
  cases hr

theorem asking_afterEdits (es : List Edit) : (afterEdits es).asking = none := by
  cases es <;> rfl

theorem asking_after (h : Harvest) : h.after.asking = none := by
  unfold Harvest.after
  split
  · split <;> rfl
  · rfl

/-- What a thread does in a region of the watch. -/
theorem Shared.Roused.work
    (h : d.Roused)
    (e : Entry)
    (hp : AskingKnown d (.enter e true))
    (hjoin : Pc.joins (.enter e true) = true → d.changed = false) :
    (e.work d).Roused ∧ AskingKnown (e.work d) e.granted ∧ d.next ≤ (e.work d).next := by
  cases e with
  | notify node deleted =>
      refine ⟨h.notifyWatches node deleted, askingKnown_of_none rfl, ?_⟩
      simp only [Entry.work, Shared.notifyWatches]
      split <;> exact le_rfl
  | poll r all => exact ⟨h, hp, le_rfl⟩
  | join r =>
      refine ⟨⟨h.queued, fun hc => ?_, ?_⟩, askingKnown_of_none rfl, le_rfl⟩
      · have hunchanged := hjoin rfl
        simp only [Entry.work, Shared.joinTasks] at hc
        rw [hunchanged] at hc
        cases hc
      · intro r' hr'
        simp only [Entry.work, Shared.joinTasks, List.mem_append, List.mem_singleton] at hr'
        rcases hr' with hr' | rfl
        · exact h.known r' hr'
        · exact hp r' rfl
  | take r => exact ⟨h, askingKnown_of_none rfl, le_rfl⟩
  | drop r =>
      exact ⟨h.of_eq (fun _ => rfl) rfl id (fun _ hr => List.mem_of_mem_erase hr) rfl,
        askingKnown_of_none rfl, le_rfl⟩
  | edits e rest =>
      obtain ⟨hedit, hnext⟩ := h.edit e
      exact ⟨hedit, askingKnown_of_none (asking_afterEdits rest), hnext⟩
  | visit m leaky =>
      refine ⟨h, askingKnown_of_none ?_, le_rfl⟩
      cases m <;> rfl
  | make => exact ⟨h, askingKnown_of_none rfl, le_rfl⟩
  | cross even => exact ⟨h, askingKnown_of_none rfl, le_rfl⟩

/-- What a thread does when it is refused. -/
theorem Shared.Roused.denied
    (h : d.Roused)
    (e : Entry) :
    (e.denied d).Roused ∧ AskingKnown (e.denied d) e.refused ∧ d.next ≤ (e.denied d).next := by
  cases e with
  | join r =>
      refine ⟨?_, askingKnown_of_none rfl, le_rfl⟩
      show (d.free r).Roused
      exact h.setPoll r fun _ => rfl
  | edits e rest => exact ⟨h, askingKnown_of_none (asking_afterEdits rest), le_rfl⟩
  | visit m leaky =>
      refine ⟨h, askingKnown_of_none ?_, le_rfl⟩
      cases leaky <;> rfl
  | notify => exact ⟨h, askingKnown_of_none rfl, le_rfl⟩
  | poll => exact ⟨h, askingKnown_of_none rfl, le_rfl⟩
  | take => exact ⟨h, askingKnown_of_none rfl, le_rfl⟩
  | drop => exact ⟨h, askingKnown_of_none rfl, le_rfl⟩
  | make => exact ⟨h, askingKnown_of_none rfl, le_rfl⟩
  | cross => exact ⟨h, askingKnown_of_none rfl, le_rfl⟩

/-- Only the regions and the counters have changed. -/
theorem Shared.Roused.frame
    (h : d.Roused)
    (made listed disposed misused : Bool)
    (sync : Tsync)
    (refcnt : Int)
    (items : List Item) :
    Shared.Roused
      { d with
        made := made
        listed := listed
        disposed := disposed
        sync := sync
        refcnt := refcnt
        items := items
        misused := misused } :=
  ⟨h.queued, h.roused, h.known⟩

theorem Shared.Roused.collect
    (h : d.Roused)
    (harvest : Harvest)
    (key : Nat) :
    (d.collect harvest key).Roused := by
  unfold Shared.collect
  split
  · exact (h.frame _ _ _ _ _ _ _).setPoll _ fun _ => rfl
  · exact h.setPoll _ fun _ => rfl

theorem Shared.Roused.settle
    (h : d.Roused)
    (harvest : Harvest) :
    (d.settle harvest).Roused ∧ (d.settle harvest).next = d.next := by
  unfold Shared.settle
  split
  · exact ⟨⟨h.queued, fun hc => by simp at hc, h.known⟩, rfl⟩
  · exact ⟨h, rfl⟩

theorem Shared.collect_next (harvest : Harvest) (key : Nat) :
    (d.collect harvest key).next = d.next := by
  unfold Shared.collect
  split <;> rfl

/-- A step of a thread in the middle of its operation. -/
theorem Shared.Roused.advance
    (h : d.Roused)
    (hp : AskingKnown d p)
    (hjoin : p.joins = true → d.changed = false)
    (hstep : d.advance p = some (d', p')) :
    d'.Roused ∧ AskingKnown d' p' ∧ d.next ≤ d'.next := by
  cases p with
  | idle => cases hstep
  | enter e waiting =>
      cases waiting with
      | false =>
          simp only [Shared.advance] at hstep
          split at hstep
          · cases hstep
            exact h.denied e
          · cases hstep
            exact ⟨h.frame _ _ _ _ _ _ _, hp, le_rfl⟩
      | true =>
          simp only [Shared.advance, Option.map_eq_some_iff] at hstep
          obtain ⟨sync, -, heq⟩ := hstep
          cases heq
          exact Shared.Roused.work (h.frame _ _ _ _ sync _ _) e hp hjoin
  | test r all =>
      cases hstep
      refine ⟨h, ?_, le_rfl⟩
      split
      · exact askingKnown_of_none rfl
      · exact hp
  | quit r =>
      cases hstep
      exact ⟨h.frame _ _ _ _ _ _ _, hp, le_rfl⟩
  | harvest h' =>
      cases hstep
      refine ⟨?_, askingKnown_of_none ?_, ?_⟩
      · split
        · exact h.frame _ _ _ _ _ _ _
        · exact h
      · split
        · rfl
        · exact asking_after h'
      · split <;> exact le_rfl
  | round h' passed todo =>
      cases todo with
      | nil =>
          cases hstep
          obtain ⟨hsettle, hnext⟩ := h.settle h'
          exact ⟨hsettle, askingKnown_of_none (asking_after h'), hnext.ge⟩
      | cons key todo =>
          cases hstep
          refine ⟨h, askingKnown_of_none ?_, le_rfl⟩
          split <;> rfl
  | take h' passed key todo =>
      cases hstep
      exact ⟨h.collect h' key, askingKnown_of_none rfl, (Shared.collect_next h' key).ge⟩
  | inside even =>
      cases even with
      | true =>
          cases hstep
          exact ⟨h.frame _ _ _ _ _ _ _, askingKnown_of_none rfl, le_rfl⟩
      | false =>
          cases hstep
          exact ⟨h, askingKnown_of_none rfl, le_rfl⟩
  | get e =>
      cases hstep
      exact ⟨h.frame _ _ _ _ _ _ _, hp, le_rfl⟩
  | leave r =>
      cases hstep
      exact ⟨h.frame _ _ _ _ _ _ _, askingKnown_of_none rfl, le_rfl⟩
  | leaveTask r =>
      cases hstep
      exact ⟨h.frame _ _ _ _ _ _ _, askingKnown_of_none rfl, le_rfl⟩
  | put r =>
      cases hstep
      refine ⟨h.frame _ _ _ _ _ _ _, askingKnown_of_none ?_, le_rfl⟩
      cases r <;> rfl
  | reply r =>
      cases hstep
      exact ⟨h.setPoll r fun _ => rfl, askingKnown_of_none rfl, le_rfl⟩
  | setWatch r =>
      cases hstep
      exact ⟨(h.frame _ _ _ _ _ _ _).setPoll r fun _ => rfl, askingKnown_of_none rfl, le_rfl⟩
  | queue r =>
      cases hstep
      exact ⟨h.of_eq (fun _ => rfl) rfl id (fun _ hr => hr) rfl, askingKnown_of_none rfl, le_rfl⟩
  | taken r =>
      cases hstep
      refine ⟨h.frame _ _ _ _ _ _ _, askingKnown_of_none ?_, le_rfl⟩
      split <;> rfl
  | remove r =>
      cases hstep
      exact ⟨h.of_eq (fun _ => rfl) rfl id (fun _ hr => List.mem_of_mem_erase hr) rfl,
        askingKnown_of_none rfl, le_rfl⟩
  | putTask r =>
      cases hstep
      exact ⟨h.frame _ _ _ _ _ _ _, askingKnown_of_none rfl, le_rfl⟩
  | clear r =>
      cases hstep
      exact ⟨(h.frame _ _ _ _ _ _ _).setPoll r fun _ => rfl, askingKnown_of_none rfl, le_rfl⟩
  | replyTask r =>
      cases hstep
      exact ⟨(h.frame _ _ _ _ _ _ _).setPoll r fun _ => rfl, askingKnown_of_none rfl, le_rfl⟩
  | free r =>
      cases hstep
      exact ⟨h.setPoll r fun _ => rfl, askingKnown_of_none rfl, le_rfl⟩
  | shutdown expire waiting =>
      cases waiting with
      | false =>
          simp only [Shared.advance] at hstep
          split at hstep
          · cases hstep
            refine ⟨h, askingKnown_of_none ?_, le_rfl⟩
            cases expire <;> rfl
          · cases hstep
            exact ⟨h.frame _ _ _ _ _ _ _, askingKnown_of_none rfl, le_rfl⟩
      | true =>
          simp only [Shared.advance, Option.map_eq_some_iff] at hstep
          obtain ⟨sync, -, heq⟩ := hstep
          cases heq
          refine ⟨h.frame _ _ _ _ _ _ _, askingKnown_of_none ?_, le_rfl⟩
          cases expire <;> rfl
  | wake =>
      cases hstep
      exact ⟨Shared.Roused.notifyTasks h.queued h.known, askingKnown_of_none rfl, le_rfl⟩
  | unlist expire =>
      cases hstep
      refine ⟨h.frame _ _ _ _ _ _ _, askingKnown_of_none ?_, le_rfl⟩
      cases expire <;> rfl
  | putDelete =>
      cases hstep
      exact ⟨h.frame _ _ _ _ _ _ _, askingKnown_of_none rfl, le_rfl⟩
  | drain =>
      simp only [Shared.advance] at hstep
      split at hstep
      · cases hstep
      · cases hstep
        exact ⟨h.frame _ _ _ _ _ _ _, askingKnown_of_none rfl, le_rfl⟩

/-- A poll thread takes a task out of the queues. -/
theorem Shared.Roused.dequeue
    (h : d.Roused)
    (r : Nat) :
    (d.dequeue r).Roused := by
  have hself : ((d.dequeue r).poll r).active = .poisoned := by
    simp [Shared.dequeue, Shared.setPoll]
  have hother : ∀ r', r' ≠ r → (d.dequeue r).poll r' = d.poll r' := by
    intro r' hr'
    simp [Shared.dequeue, Shared.setPoll, Shared.touch, Function.update_of_ne hr']
  constructor
  · intro r' hr'
    by_cases heq : r' = r
    · rw [heq, hself] at hr'
      cases hr'
    · rw [hother r' heq] at hr'
      exact (List.mem_erase_of_ne heq).mpr (h.queued r' hr')
  · intro hc r' hr'
    by_cases heq : r' = r
    · rw [heq, hself]
      simp
    · rw [hother r' heq]
      exact h.roused hc r' hr'
  · exact h.known

/-- The beginning of a poll request. -/
theorem Shared.Roused.startPoll
    (h : d.Roused)
    (expiry : Nat)
    (all : Bool) :
    (d.startPoll expiry all).1.Roused ∧
      AskingKnown (d.startPoll expiry all).1 (d.startPoll expiry all).2 ∧
      d.next ≤ (d.startPoll expiry all).1.next := by
  unfold Shared.startPoll
  split
  · refine ⟨⟨?_, ?_, ?_⟩, ?_, Nat.le_succ _⟩
    · intro r hr
      refine h.queued r ?_
      by_cases heq : r = d.next
      · simp [heq, Poll.fresh] at hr
      · simpa [Function.update_of_ne heq] using hr
    · intro hc r hr
      have hne : r ≠ d.next := Nat.ne_of_lt (h.known r hr)
      simpa [Function.update_of_ne hne] using h.roused hc r hr
    · intro r hr
      exact Nat.lt_succ_of_lt (h.known r hr)
    · intro r hr
      simp only [Pc.asking, Entry.asking, Option.some.injEq] at hr
      subst hr
      exact Nat.lt_succ_self _
  · exact ⟨h, askingKnown_of_none rfl, le_rfl⟩

theorem Shared.Roused.search
    (h : d.Roused)
    (hp : p.asking = none) :
    (d.search p).1.Roused ∧ AskingKnown (d.search p).1 (d.search p).2 ∧
      d.next ≤ (d.search p).1.next := by
  unfold Shared.search
  split
  · exact ⟨h.frame _ _ _ _ _ _ _, askingKnown_of_none hp, le_rfl⟩
  · exact ⟨h, askingKnown_of_none rfl, le_rfl⟩

/-- The beginning of an operation. -/
theorem Shared.Roused.start
    {op : Op}
    (h : d.Roused)
    (hstep : d.start op = some (d', p')) :
    d'.Roused ∧ AskingKnown d' p' ∧ d.next ≤ d'.next := by
  cases op with
  | make =>
      simp only [Shared.start] at hstep
      split at hstep
      · cases hstep
      · cases hstep
        exact ⟨h.frame _ _ _ _ _ _ _, askingKnown_of_none rfl, le_rfl⟩
  | pollChanges expiry =>
      have hnew := h.startPoll expiry false
      rwa [Option.some.inj hstep] at hnew
  | pollRefresh =>
      have hnew := h.startPoll 0 true
      rwa [Option.some.inj hstep] at hnew
  | pollThread now =>
      simp only [Shared.start, Option.map_eq_some_iff] at hstep
      obtain ⟨r, -, heq⟩ := hstep
      cases heq
      exact ⟨h.dequeue r, askingKnown_of_none rfl, le_rfl⟩
  | cross even =>
      simp only [Shared.start] at hstep
      split at hstep
      · cases hstep
        exact ⟨h, askingKnown_of_none rfl, le_rfl⟩
      · cases hstep
  | expire =>
      simp only [Shared.start] at hstep
      split at hstep
      · cases hstep
        exact ⟨h, askingKnown_of_none rfl, le_rfl⟩
      · cases hstep
  | notify node deleted =>
      have hnew := h.search (p := .enter (.notify node deleted) false) rfl
      rwa [Option.some.inj hstep] at hnew
  | edits es =>
      have hnew := h.search (asking_afterEdits es)
      rwa [Option.some.inj hstep] at hnew
  | visit m leaky =>
      have hnew := h.search (p := .enter (.visit m leaky) false) rfl
      rwa [Option.some.inj hstep] at hnew
  | delete =>
      have hnew := h.search (p := .shutdown false false) rfl
      rwa [Option.some.inj hstep] at hnew

end Steps

section Runs

variable {ι : Type} [DecidableEq ι]

/-- Every state reached keeps the tasks awake. -/
theorem Polls.roused_act
    {s s' : Polls ι} {x : ι × Option Op}
    (h : s.Outlined Shared.Roused AskingKnown fun _ _ => True)
    (hok : s.JoinsUnchanged x)
    (hact : s.act Shared.step x = some s') :
    s'.Outlined Shared.Roused AskingKnown fun _ _ => True := by
  obtain ⟨d, p, hstep, hs'⟩ := Threads.act_eq_some_iff.mp hact
  have hnew : d.Roused ∧ AskingKnown d p ∧ s.shared.next ≤ d.next := by
    obtain ⟨i, a⟩ := x
    cases a with
    | none => exact h.shared.advance (h.pc i) hok hstep
    | some op =>
        simp only [Shared.step] at hstep
        split at hstep
        · exact h.shared.start hstep
        · cases hstep
  refine h.act (fun _ _ _ => trivial) hs' hnew.1 hnew.2.1 ?_
  intro j _
  exact ⟨fun r hr => lt_of_lt_of_le (h.pc j r hr) hnew.2.2, trivial⟩

/-- No long poll sleeps while a change has been recorded, in every run in which poll tasks
join the watch only while no change has been recorded. -/
theorem polls_not_missed
    (acts : List (ι × Option Op))
    (s : Polls ι)
    (hok : Polls.Allows Polls.JoinsUnchanged acts)
    (hrun : Polls.Run acts s) :
    s.NotMissed := by
  have hinit : (Polls.init : Polls ι).Outlined Shared.Roused AskingKnown fun _ _ => True := by
    refine ⟨⟨?_, ?_, ?_⟩, fun _ => askingKnown_of_none rfl, fun _ _ _ => trivial⟩
    · intro r hr
      cases hr
    · intro hc
      cases hc
    · intro r hr
      cases hr
  have h := Threads.exec_invariant (fun _ _ _ => Polls.roused_act) hinit hok hrun
  intro hc _ r hr
  have hnot := h.shared.roused hc r hr
  cases hactive : (s.shared.poll r).active with
  | self => exact absurd hactive hnot
  | queued => exact .inl (h.shared.queued r hactive)
  | poisoned => exact .inr rfl

theorem polls_not_missed_notified :
    ∃ s : Polls (Fin 2), Polls.Run (makeAddPoll ++ joinQueue ++ notifySeven) s ∧
      s.shared.changed = true ∧ s.shared.tasks = [1] ∧ s.NotMissed := by
  have hok : Polls.Allows Polls.JoinsUnchanged (makeAddPoll ++ joinQueue ++ notifySeven) := by
    unfold Polls.Allows
    decide +kernel
  exact ⟨_, rfl, rfl, rfl, polls_not_missed _ _ hok rfl⟩

/-- The watch is notified between the test of `watch->changed` and the write region. -/
theorem polls_missed :
    ¬ ∀ (acts : List (Fin 2 × Option Op)) (s : Polls (Fin 2)), Polls.Run acts s → s.NotMissed := by
  intro h
  have hmissed := h (makeAddPoll ++ notifySeven ++ joinQueue) _ rfl rfl
    (by intro i; fin_cases i <;> rfl) 1 (by decide)
  revert hmissed
  decide

end Runs

end Watches
end Obix
