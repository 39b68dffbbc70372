import Obix.Watch.Harvests
import Obix.Watch.TaskLife

/-!
# Long polls that share a watch

A harvest resets the counters if it finds at most one task in `watch->tasks`, so that the last
of several tasks still finds the changes.  But a pollChanges request that is answered at once
resets them as well when there is one task, a task that has been harvested stays in
`watch->tasks` for a while, and a new task is in `watch->tasks` for a while before a poll thread
finds its watch.  In the runs that keep clear of these three windows every task that is in
`watch->tasks` when an item is notified carries the item when it is answered
(`polls_served`).
-/

namespace Obix
namespace Watches

/-- The task that a poll thread has harvested for and is about to take out of
`watch->tasks`. -/
def Pc.harvested : Pc → Option Nat
  | .leaveTask r | .enter (.drop r) _ | .remove r => some r
  | _ => none

/-- The thread answers a request at once and is about to reset a counter. -/
def Shared.resetsDirectly (d : Shared) : Pc → Bool
  | .take h _ _ _ => !h.task && d.resets h.all
  | _ => false

/-- Whether an edit keeps all items. -/
def Shared.keepsItems (d : Shared) : Pc → Bool
  | .enter (.edits e _) true => d.items.all fun item => (d.edit e).items.contains item
  | _ => true

namespace Polls

variable {ι : Type}

/-- Every answer to a poll task carries the items that have been notified while the task was in
`watch->tasks`. -/
def Served (s : Polls ι) : Prop :=
  ∀ r, ∀ key ∈ (s.shared.poll r).owed, ∀ out ∈ (s.shared.poll r).replies, key ∈ out

/-- The runs of notifications, poll threads, pollChanges, additions to the watch and uses of its
nodes. -/
def Unrefreshed (s : Polls ι) (x : ι × Option Op) : Prop :=
  s.Undisturbed x ∧ x.2 ≠ some .pollRefresh ∧ s.shared.keepsItems (s.pc x.1) = true

/-- A request that is answered at once resets a counter only when all tasks in `watch->tasks`
have been harvested. -/
def SparesTasks (s : Polls ι) (x : ι × Option Op) : Prop :=
  s.shared.resetsDirectly (s.pc x.1) = true →
    ∀ r ∈ s.shared.tasks, ∃ j, (s.pc j).harvested = some r

/-- The watch is notified only when no task in `watch->tasks` has been harvested. -/
def NotifiesUnharvested (s : Polls ι) (x : ι × Option Op) : Prop :=
  s.shared.activates (s.pc x.1) = true → ∀ j, (s.pc j).harvested = none

/-- A step that keeps clear of the three windows. -/
structure Clear (s : Polls ι) (x : ι × Option Op) : Prop where
  unrefreshed : s.Unrefreshed x
  wakesQueued : s.WakesQueued x
  sparesTasks : s.SparesTasks x
  notifiesUnharvested : s.NotifiesUnharvested x

instance (s : Polls ι) (x : ι × Option Op) : Decidable (s.Unrefreshed x) :=
  inferInstanceAs (Decidable (_ ∧ _ ∧ _))

instance [Fintype ι] (s : Polls ι) (x : ι × Option Op) : Decidable (s.Clear x) :=
  decidable_of_iff
    (s.Unrefreshed x ∧ s.WakesQueued x ∧
      (s.shared.resetsDirectly (s.pc x.1) = true →
        ∀ r ∈ s.shared.tasks, ∃ j, (s.pc j).harvested = some r) ∧
      (s.shared.activates (s.pc x.1) = true → ∀ j, (s.pc j).harvested = none))
    ⟨fun h => ⟨h.1, h.2.1, h.2.2.1, h.2.2.2⟩, fun h => ⟨h.1, h.2, h.3, h.4⟩⟩

end Polls

/-- What a thread owes to its request. -/
inductive Debt
  /-- No item has been notified for it. -/
  | free
  /-- The items wait to be harvested. -/
  | due
  /-- Some are in the watchOut contract, and the harvest is yet to come to the others. -/
  | scanning (todo : List Nat)
  /-- All are in the watchOut contract. -/
  | paid
  deriving DecidableEq, Repr

def Harvest.debt (h : Harvest) (debt : Debt) : Option (Nat × Debt) :=
  some (h.req, if h.task then debt else .free)

def Entry.debt : Entry → Option (Nat × Debt)
  | .poll r _ | .join r => some (r, .free)
  | .take r => some (r, .due)
  | .drop r => some (r, .paid)
  | _ => none

def Pc.debt : Pc → Option (Nat × Debt)
  | .enter e _ => e.debt
  | .test r _ | .quit r | .leave r | .reply r | .setWatch r | .queue r => some (r, .free)
  | .put r => r.map (·, .free)
  | .harvest h => h.debt .due
  | .round h _ todo => h.debt (.scanning todo)
  | .take h _ key todo => h.debt (.scanning (key :: todo))
  | .taken r => some (r, .due)
  | .leaveTask r | .remove r | .putTask r | .clear r | .replyTask r => some (r, .paid)
  | _ => none

/-- An item with a change that has not been harvested. -/
def Shared.Pending (d : Shared) (key : Nat) : Prop :=
  ∃ item ∈ d.items, item.key = key ∧ 0 < item.count

def Debt.Fits (d : Shared) (r : Nat) : Debt → Prop
  | free => (d.poll r).owed = []
  | due => ∀ key ∈ (d.poll r).owed, d.Pending key
  | scanning todo => ∀ key ∈ (d.poll r).owed, key ∈ (d.poll r).out ∨ d.Pending key ∧ key ∈ todo
  | paid => ∀ key ∈ (d.poll r).owed, key ∈ (d.poll r).out

/-- A poll thread does not harvest all items, and no thread has a request in hand before it
has its reference. -/
def Pc.moderate : Pc → Bool
  | .get e => e.debt.isNone
  | .harvest h | .round h _ _ | .take h _ _ _ => !(h.task && h.all)
  | _ => true

/-- What the threads owe is still there. -/
def Carries (d : Shared) (p : Pc) : Prop :=
  p.moderate = true ∧ ∀ r debt, p.debt = some (r, debt) → debt.Fits d r

/-- What is owed to the tasks in the queue is still there, and the answers carry what was
owed. -/
structure Shared.Owing (d : Shared) : Prop where
  queued : ∀ r ∈ d.listAll, Debt.Fits d r .due
  answered : ∀ r, ∀ key ∈ (d.poll r).owed, ∀ out ∈ (d.poll r).replies, key ∈ out

section Frames

variable {d d' : Shared} {p p' : Pc} {r : Nat}

/-- Nothing is owed in addition, nothing is taken away, and no harvest has been forgotten. -/
structure Shared.Kindly (d d' : Shared) : Prop where
  owed : ∀ r, (d'.poll r).owed = (d.poll r).owed
  out : ∀ r, ∀ key ∈ (d.poll r).out, key ∈ (d'.poll r).out
  pending : ∀ key, d.Pending key → d'.Pending key

theorem Debt.Fits.kindly
    {debt : Debt}
    (h : debt.Fits d r)
    (hk : Shared.Kindly d d') :
    debt.Fits d' r := by
  cases debt with
  | free => exact (hk.owed r).trans h
  | due =>
      intro key hkey
      rw [hk.owed] at hkey
      exact hk.pending key (h key hkey)
  | scanning todo =>
      intro key hkey
      rw [hk.owed] at hkey
      exact (h key hkey).imp (hk.out r key) fun hp => ⟨hk.pending key hp.1, hp.2⟩
  | paid =>
      intro key hkey
      rw [hk.owed] at hkey
      exact hk.out r key (h key hkey)

theorem Carries.kindly
    (h : Carries d p)
    (hk : Shared.Kindly d d') :
    Carries d' p :=
  ⟨h.1, fun r debt hp => (h.2 r debt hp).kindly hk⟩

theorem carries_of_none
    (h : p.debt = none)
    (hget : ∀ e, p ≠ .get e) :
    Carries d p := by
  constructor
  · cases p with
    | get e => exact absurd rfl (hget e)
    | harvest h' => cases h
    | round h' passed todo => cases h
    | take h' passed key todo => cases h
    | _ => rfl
  · intro r debt hp
    rw [h] at hp
    cases hp

theorem Shared.Owing.kindly
    (h : d.Owing)
    (hk : Shared.Kindly d d')
    (hlist : ∀ r ∈ d'.listAll, r ∈ d.listAll)
    (hreplies : ∀ r, (d'.poll r).replies = (d.poll r).replies) :
    d'.Owing := by
  refine ⟨fun r hr => (h.queued r (hlist r hr)).kindly hk, ?_⟩
  intro r key hkey out hout
  rw [hk.owed] at hkey
  rw [hreplies] at hout
  exact h.answered r key hkey out hout

/-- Neither the items nor the requests have changed. -/
theorem Shared.kindly_of_eq
    (hitems : d'.items = d.items)
    (hpoll : d'.poll = d.poll) :
    Shared.Kindly d d' := by
  refine ⟨fun r => by rw [hpoll], fun r key hkey => by rwa [hpoll], ?_⟩
  intro key hpending
  unfold Shared.Pending
  rwa [hitems]

/-- A change of other fields of a request. -/
theorem Shared.kindly_setPoll
    {f : Poll → Poll}
    (r : Nat)
    (hf : ∀ x, (f x).owed = x.owed ∧ (f x).out = x.out) :
    Shared.Kindly d (d.setPoll r f) := by
  refine ⟨?_, ?_, fun _ hpending => hpending⟩
  · intro r'
    by_cases hr : r' = r
    · subst hr
      simp [Shared.setPoll, hf]
    · simp [Shared.setPoll, Function.update_of_ne hr]
  · intro r' key hkey
    by_cases hr : r' = r
    · subst hr
      simpa [Shared.setPoll, hf] using hkey
    · simpa [Shared.setPoll, Function.update_of_ne hr] using hkey

theorem Shared.Kindly.trans
    {d'' : Shared}
    (h : Shared.Kindly d d')
    (h' : Shared.Kindly d' d'') :
    Shared.Kindly d d'' :=
  ⟨fun r => (h'.owed r).trans (h.owed r), fun r key hkey => h'.out r key (h.out r key hkey),
    fun key hpending => h'.pending key (h.pending key hpending)⟩

/-- A thread that owes something to a request has it in hand. -/
theorem Pc.stage_of_debt
    {debt : Debt}
    (h : p.debt = some (r, debt)) :
    ∃ st, p.stage = some (r, st) := by
  cases p with
  | enter e waiting => cases e <;> simp_all [Pc.debt, Pc.stage, Entry.debt, Entry.stage]
  | put r' => cases r' <;> simp_all [Pc.debt, Pc.stage]
  | _ => simp_all [Pc.debt, Pc.stage, Harvest.debt]

theorem Shared.Pending.notifyWatches
    {node key : Nat} {deleted : Bool}
    (h : d.Pending key ∨ key ∈ d.monitors node) :
    (d.notifyWatches node deleted).Pending key := by
  unfold Shared.Pending
  rw [Shared.notifyWatches_items]
  rcases h with ⟨item, hitem, hkey, hpos⟩ | hmem
  · refine ⟨item.notified node deleted, List.mem_map_of_mem hitem, ?_, ?_⟩
    · rw [Item.notified_key]
      exact hkey
    · exact lt_of_lt_of_le hpos (Item.notified_count_le node deleted item)
  · obtain ⟨item, hitem, hkey⟩ := List.mem_map.mp hmem
    obtain ⟨hitem, hnode⟩ := List.mem_filter.mp hitem
    refine ⟨item.notified node deleted, List.mem_map_of_mem hitem, ?_, ?_⟩
    · rw [Item.notified_key]
      exact hkey
    · have hnode' : item.node = some node := by simpa using hnode
      simp [Item.notified, hnode']

/-- A harvest for a task is in the read region. -/
theorem Pc.reading_of_scanning
    {todo : List Nat}
    (h : p.debt = some (r, .scanning todo))
    (hplain : p.plain = true) :
    p.phase = .read := by
  cases p with
  | enter e waiting => cases e <;> simp [Pc.debt, Entry.debt] at h
  | put r' => cases r' <;> simp [Pc.debt] at h
  | round h' passed todo' =>
      simp only [Pc.plain] at hplain
      simp [Pc.phase, hplain]
  | take h' passed key todo' =>
      simp only [Pc.plain] at hplain
      simp [Pc.phase, hplain]
  | harvest h' => cases htask : h'.task <;> simp [Pc.debt, Harvest.debt, htask] at h
  | _ => simp [Pc.debt] at h

end Frames

section Kept

variable {ι : Type} {s : Polls ι} {r : Nat} {j : ι}

theorem Polls.Kept.replies_of_mem_tasks
    (h : s.Kept)
    (hr : r ∈ s.shared.tasks) :
    (s.shared.poll r).replies = [] := by
  by_cases hall : r ∈ s.shared.listAll
  · exact (h.outlined.shared.all r hall).2.2.2
  · obtain ⟨i, st, hst, hatt⟩ := h.covered r ⟨hr, hall⟩
    obtain ⟨-, -, -, hfits⟩ := h.outlined.pc i r st hst
    cases st with
    | linked => exact hfits.2.1
    | ready => exact hfits.2.1
    | working => exact hfits.2.1
    | asking => cases hatt
    | leaving => cases hatt
    | detached => cases hatt
    | answered => cases hatt

/-- A thread that owes nothing has a task of the watch only in the window. -/
theorem Polls.Kept.not_mem_of_free
    (h : s.Kept)
    (hdebt : (s.pc j).debt = some (r, .free))
    (hwindow : (s.pc j).halfQueued = false) :
    r ∉ s.shared.tasks := by
  have hstage : (s.pc j).stage = some (r, .asking) ∨ (s.pc j).stage = some (r, .leaving) := by
    cases hpc : s.pc j with
    | enter e waiting =>
        rw [hpc] at hdebt
        cases e <;> simp_all [Pc.debt, Entry.debt, Pc.stage, Entry.stage]
    | put r' => rw [hpc] at hdebt; cases r' <;> simp_all [Pc.debt, Pc.stage]
    | harvest h' => cases htask : h'.task <;> simp_all [Pc.debt, Harvest.debt, Pc.stage]
    | round h' passed todo => cases htask : h'.task <;> simp_all [Pc.debt, Harvest.debt, Pc.stage]
    | take h' passed key todo =>
        cases htask : h'.task <;> simp_all [Pc.debt, Harvest.debt, Pc.stage]
    | setWatch r' => simp [hpc, Pc.halfQueued] at hwindow
    | queue r' => simp [hpc, Pc.halfQueued] at hwindow
    | _ => simp_all [Pc.debt, Pc.stage]
  rcases hstage with hst | hst
  · exact (h.outlined.pc j r _ hst).2.2.2.1
  · exact (h.outlined.pc j r _ hst).2.2.2.1

/-- A task whose watchOut contract is complete is still in `watch->tasks` only right after its
harvest. -/
theorem Polls.Kept.not_mem_of_paid
    (h : s.Kept)
    (hdebt : (s.pc j).debt = some (r, .paid))
    (hharvested : (s.pc j).harvested = none) :
    r ∉ s.shared.tasks := by
  have hst : (s.pc j).stage = some (r, .detached) := by
    cases hpc : s.pc j with
    | enter e waiting =>
        rw [hpc] at hdebt hharvested
        cases e <;> simp_all [Pc.debt, Entry.debt, Pc.harvested]
    | put r' => rw [hpc] at hdebt; cases r' <;> simp_all [Pc.debt]
    | harvest h' => cases htask : h'.task <;> simp_all [Pc.debt, Harvest.debt]
    | round h' passed todo => cases htask : h'.task <;> simp_all [Pc.debt, Harvest.debt]
    | take h' passed key todo => cases htask : h'.task <;> simp_all [Pc.debt, Harvest.debt]
    | _ => simp_all [Pc.debt, Pc.stage, Pc.harvested]
  exact (h.outlined.pc j r _ hst).2.2.2.1

/-- A thread that still has to harvest for a task has it in `watch->tasks`. -/
theorem Polls.Kept.mem_of_unharvested
    {debt : Debt}
    (h : s.Kept)
    (hdebt : (s.pc j).debt = some (r, debt))
    (hne : debt ≠ .free ∧ debt ≠ .paid) :
    r ∈ s.shared.tasks ∧ (s.pc j).harvested = none ∧ ∃ st, (s.pc j).stage = some (r, st) := by
  have hst : (s.pc j).stage = some (r, .working) ∧ (s.pc j).harvested = none := by
    cases hpc : s.pc j with
    | enter e waiting =>
        rw [hpc] at hdebt
        cases e <;> simp_all [Pc.debt, Entry.debt, Pc.stage, Entry.stage, Pc.harvested]
    | put r' => rw [hpc] at hdebt; cases r' <;> simp_all [Pc.debt]
    | harvest h' => cases htask : h'.task <;> simp_all [Pc.debt, Harvest.debt, Pc.stage, Pc.harvested]
    | round h' passed todo =>
        cases htask : h'.task <;> simp_all [Pc.debt, Harvest.debt, Pc.stage, Pc.harvested]
    | take h' passed key todo =>
        cases htask : h'.task <;> simp_all [Pc.debt, Harvest.debt, Pc.stage, Pc.harvested]
    | _ => simp_all [Pc.debt, Pc.stage, Pc.harvested]
  exact ⟨(h.outlined.pc j r _ hst.1).2.2.2.1, hst.2, _, hst.1⟩

end Kept

/-- The outline of the runs that keep clear of the windows. -/
def Polls.Owes {ι : Type} (s : Polls ι) : Prop := s.Outlined Shared.Owing Carries fun _ _ => True

/-- Nothing but the regions has changed. -/
theorem Polls.Owes.reframe
    {ι : Type} {s : Polls ι}
    (h : s.Owes)
    (sync : Tsync) :
    Polls.Owes { shared := { s.shared with sync := sync }, pc := s.pc } := by
  have hk : Shared.Kindly s.shared { s.shared with sync := sync } := Shared.kindly_of_eq rfl rfl
  exact ⟨h.shared.kindly hk (fun _ hr => hr) fun _ => rfl, fun j => (h.pc j).kindly hk, h.apart⟩

section Moves

variable {ι : Type} [DecidableEq ι] {s s' : Polls ι} {x : ι × Option Op} {d : Shared} {p : Pc}
  {r : Nat}

/-- A step that takes nothing away. -/
theorem Polls.Owes.kindly
    (h : s.Owes)
    (hs' : s' = { shared := d, pc := Function.update s.pc x.1 p })
    (hk : Shared.Kindly s.shared d)
    (hlist : ∀ r ∈ d.listAll, r ∈ s.shared.listAll)
    (hreplies : ∀ r, (d.poll r).replies = (s.shared.poll r).replies)
    (hp : Carries d p) :
    s'.Owes :=
  h.act (fun _ _ _ => trivial) hs' (h.shared.kindly hk hlist hreplies) hp
    fun j _ => ⟨(h.pc j).kindly hk, trivial⟩

/-- A step that takes nothing away, after which the thread owes what it owed before. -/
theorem Polls.Owes.same
    (h : s.Owes)
    (hs' : s' = { shared := d, pc := Function.update s.pc x.1 p })
    (hk : Shared.Kindly s.shared d)
    (hlist : ∀ r ∈ d.listAll, r ∈ s.shared.listAll)
    (hreplies : ∀ r, (d.poll r).replies = (s.shared.poll r).replies)
    (hmoderate : p.moderate = true)
    (hdebt : p.debt = (s.pc x.1).debt) :
    s'.Owes := by
  refine h.kindly hs' hk hlist hreplies ⟨hmoderate, ?_⟩
  intro r debt hp
  exact ((h.pc x.1).2 r debt (hdebt ▸ hp)).kindly hk

/-- A change of the flags of a request. -/
theorem Polls.Owes.setPoll
    {f : Poll → Poll}
    (h : s.Owes)
    (hs' : s' = { shared := d, pc := Function.update s.pc x.1 p })
    (hitems : d.items = s.shared.items)
    (hlist : d.listAll = s.shared.listAll)
    (hpoll : d.poll = (s.shared.setPoll r f).poll)
    (hf : ∀ y, (f y).owed = y.owed ∧ (f y).out = y.out ∧ (f y).replies = y.replies)
    (hmoderate : p.moderate = true)
    (hdebt : p.debt = (s.pc x.1).debt) :
    s'.Owes := by
  have hset : Shared.Kindly s.shared (s.shared.setPoll r f) :=
    Shared.kindly_setPoll r fun y => ⟨(hf y).1, (hf y).2.1⟩
  refine h.same hs' (hset.trans (Shared.kindly_of_eq hitems hpoll)) ?_ ?_ hmoderate hdebt
  · intro r' hr'
    rwa [hlist] at hr'
  · intro r'
    rw [hpoll]
    by_cases hr : r' = r
    · subst hr
      simp [Shared.setPoll, hf]
    · rw [Shared.setPoll_poll_of_ne _ hr]

/-- A watchOut contract that carries what is owed is sent. -/
theorem Polls.Owes.reply
    (h : s.Owes)
    (hs' : s' = { shared := d, pc := Function.update s.pc x.1 p })
    (hp : p.debt = none)
    (hget : ∀ e, p ≠ .get e)
    (hlist : d.listAll = s.shared.listAll)
    (hitems : d.items = s.shared.items)
    (hpoll : d.poll = (s.shared.reply r).poll)
    (hcarries : ∀ key ∈ (s.shared.poll r).owed, key ∈ (s.shared.poll r).out) :
    s'.Owes := by
  have hreply : Shared.Kindly s.shared (s.shared.reply r) :=
    Shared.kindly_setPoll r fun _ => ⟨rfl, rfl⟩
  have hk : Shared.Kindly s.shared d := hreply.trans (Shared.kindly_of_eq hitems hpoll)
  refine h.act (fun _ _ _ => trivial) hs' ⟨?_, ?_⟩ (carries_of_none hp hget)
    fun j _ => ⟨(h.pc j).kindly hk, trivial⟩
  · intro r' hr'
    rw [hlist] at hr'
    exact (h.shared.queued r' hr').kindly hk
  · intro r' key hkey out hout
    rw [hk.owed] at hkey
    by_cases hr : r' = r
    · subst hr
      rw [hpoll] at hout
      simp only [Shared.reply, Shared.setPoll, Function.update_self, List.mem_append,
        List.mem_singleton] at hout
      rcases hout with hout | rfl
      · exact h.shared.answered r' key hkey out hout
      · exact hcarries key hkey
    · rw [hpoll] at hout
      simp only [Shared.reply, Shared.setPoll, Function.update_of_ne hr] at hout
      exact h.shared.answered r' key hkey out hout

/-- A task to which nothing is owed joins the queue of all tasks. -/
theorem Polls.Owes.enqueue
    (h : s.Owes)
    (hs' : s' = { shared := s.shared.enqueue r, pc := Function.update s.pc x.1 .idle })
    (howed : (s.shared.poll r).owed = []) :
    s'.Owes := by
  have hk : Shared.Kindly s.shared (s.shared.enqueue r) := Shared.kindly_of_eq rfl rfl
  refine h.act (fun _ _ _ => trivial) hs' ⟨?_, h.shared.answered⟩ (carries_of_none rfl (by simp))
    fun j _ => ⟨(h.pc j).kindly hk, trivial⟩
  intro r' hr'
  rcases (Shared.mem_enqueue r').mp hr' with rfl | hr'
  · intro key hkey
    have hnone : (s.shared.poll r').owed = [] := howed
    rw [show ((s.shared.enqueue r').poll r').owed = (s.shared.poll r').owed from rfl, hnone] at hkey
    cases hkey
  · exact (h.shared.queued r' hr').kindly hk

/-- A poll thread takes up a task. -/
theorem Polls.Owes.dequeue
    (h : s.Owes)
    (hkept : s.Kept)
    (hr : r ∈ s.shared.listAll)
    (hs' : s' = { shared := s.shared.dequeue r, pc := Function.update s.pc x.1 (.taken r) }) :
    s'.Owes := by
  have hsound := hkept.outlined.shared
  have heq := hsound.dequeue_eq (hsound.all r hr).1
  have hk : Shared.Kindly s.shared (s.shared.dequeue r) := by
    have hset : Shared.Kindly s.shared
        (s.shared.setPoll r fun x => { x with active := .poisoned }) :=
      Shared.kindly_setPoll r fun _ => ⟨rfl, rfl⟩
    refine hset.trans (Shared.kindly_of_eq ?_ ?_) <;> rw [heq] <;> rfl
  refine h.kindly hs' hk ?_ ?_ ?_
  · intro r' hr'
    exact List.mem_of_mem_erase hr'
  · intro r'
    rw [heq]
    by_cases hr' : r' = r
    · subst hr'
      simp
    · rw [Shared.setPoll_poll_of_ne _ hr']
  · refine ⟨rfl, ?_⟩
    intro r' debt hp
    cases hp
    exact (h.shared.queued r hr).kindly hk

/-- The watch is notified while nobody harvests and all tasks of the watch wait for their
harvest. -/
theorem Polls.Owes.notifyWatches
    {node : Nat} {deleted : Bool}
    (h : s.Owes)
    (hkept : s.Kept)
    (hplain : ∀ j, (s.pc j).plain = true)
    (hreading : ∀ j, (s.pc j).phase ≠ .read)
    (hwindow : s.shared.monitors node ≠ [] → ∀ j, (s.pc j).halfQueued = false)
    (hharvested : s.shared.monitors node ≠ [] → ∀ j, (s.pc j).harvested = none)
    (hs' : s' =
      { shared := s.shared.notifyWatches node deleted, pc := Function.update s.pc x.1 p })
    (hp : p.debt = none)
    (hget : ∀ e, p ≠ .get e) :
    s'.Owes := by
  by_cases hnone : s.shared.monitors node = []
  · have hsame : s.shared.notifyWatches node deleted = s.shared := by
      simp [Shared.notifyWatches, hnone]
    rw [hsame] at hs'
    exact h.kindly hs' (Shared.kindly_of_eq rfl rfl) (fun _ hr => hr) (fun _ => rfl)
      (carries_of_none hp hget)
  · have hout := Shared.sameOut_notifyWatches (d := s.shared) node deleted
    have howed : ∀ r, ((s.shared.notifyWatches node deleted).poll r).owed =
        if r ∈ s.shared.tasks then (s.shared.poll r).owed ++ s.shared.monitors node
        else (s.shared.poll r).owed := by
      intro r
      simp only [Shared.notifyWatches, hnone, if_false, Shared.notifyTasks]
      split <;> split <;> rfl
    have hlist : (s.shared.notifyWatches node deleted).listAll = s.shared.listAll := by
      simp [Shared.notifyWatches, hnone, Shared.notifyTasks, Shared.touch]
    have hpending : ∀ key, s.shared.Pending key →
        (s.shared.notifyWatches node deleted).Pending key := fun key hkey => .notifyWatches (.inl hkey)
    -- a task that waits for its harvest is owed the items that have been notified
    have hdue : ∀ r, Debt.Fits s.shared r .due →
        Debt.Fits (s.shared.notifyWatches node deleted) r .due := by
      intro r hfits key hkey
      rw [howed] at hkey
      split at hkey
      · rcases List.mem_append.mp hkey with hkey | hkey
        · exact hpending key (hfits key hkey)
        · exact .notifyWatches (.inr hkey)
      · exact hpending key (hfits key hkey)
    -- nothing is owed in addition to a request that is not in `watch->tasks`
    have hother : ∀ r debt, r ∉ s.shared.tasks → Debt.Fits s.shared r debt →
        Debt.Fits (s.shared.notifyWatches node deleted) r debt := by
      intro r debt hr hfits
      have howed' : ((s.shared.notifyWatches node deleted).poll r).owed = (s.shared.poll r).owed := by
        rw [howed, if_neg hr]
      cases debt with
      | free => exact howed'.trans hfits
      | due => exact hdue r hfits
      | scanning todo =>
          intro key hkey
          rw [howed'] at hkey
          rw [hout.out]
          exact (hfits key hkey).imp_right fun hp => ⟨hpending key hp.1, hp.2⟩
      | paid =>
          intro key hkey
          rw [howed'] at hkey
          rw [hout.out]
          exact hfits key hkey
    refine h.act (fun _ _ _ => trivial) hs' ⟨?_, ?_⟩ (carries_of_none hp hget) ?_
    · intro r hr
      rw [hlist] at hr
      exact hdue r (h.shared.queued r hr)
    · intro r key hkey out hmem
      rw [hout.replies] at hmem
      rw [howed] at hkey
      split at hkey
      · rename_i hr
        rw [hkept.replies_of_mem_tasks hr] at hmem
        cases hmem
      · exact h.shared.answered r key hkey out hmem
    · intro j _
      refine ⟨⟨(h.pc j).1, ?_⟩, trivial⟩
      intro r debt hdebt
      have hfits := (h.pc j).2 r debt hdebt
      by_cases hr : r ∈ s.shared.tasks
      · cases debt with
        | due => exact hdue r hfits
        | free =>
            exact absurd hr (hkept.not_mem_of_free hdebt (hwindow hnone j))
        | scanning todo => exact absurd (Pc.reading_of_scanning hdebt (hplain j)) (hreading j)
        | paid =>
            exact absurd hr (hkept.not_mem_of_paid hdebt (hharvested hnone j))
      · exact hother r debt hr hfits

/-- A counter is reset only when no other thread and no queued task needs it. -/
theorem Polls.Kept.none_waiting
    {h' : Harvest} {passed todo : List Nat} {key : Nat}
    (hkept : s.Kept)
    (hpc : s.pc x.1 = .take h' passed key todo)
    (hmoderate : h'.task = true → h'.all = false)
    (hspares : s.SparesTasks x)
    (hresets : s.shared.resets h'.all = true) :
    (∀ r, r ∉ s.shared.listAll) ∧
      ∀ j, j ≠ x.1 → ∀ r debt, (s.pc j).debt = some (r, debt) → debt = .free ∨ debt = .paid := by
  have hsound := hkept.outlined.shared
  -- whoever has one of the tasks has harvested for it, or is the harvester
  have howner : ∀ r ∈ s.shared.tasks, ∃ i st, (s.pc i).stage = some (r, st) ∧
      (i = x.1 ∨ (s.pc i).harvested = some r) := by
    intro r hr
    cases htask : h'.task with
    | false =>
        obtain ⟨i, hi⟩ := hspares (by simp [Shared.resetsDirectly, hpc, htask, hresets]) r hr
        have hst : ∃ st, (s.pc i).stage = some (r, st) := by
          cases hpci : s.pc i with
          | enter e waiting =>
              rw [hpci] at hi
              cases e <;> simp_all [Pc.harvested, Pc.stage, Entry.stage]
          | _ => simp_all [Pc.harvested, Pc.stage]
        obtain ⟨st, hst⟩ := hst
        exact ⟨i, st, hst, .inr hi⟩
    | true =>
        -- there is one task at most, and this thread has it
        have hst : (s.pc x.1).stage = some (h'.req, .working) := by
          rw [hpc]
          simp [Pc.stage, htask]
        have hmine := (hkept.outlined.pc x.1 h'.req .working hst).2.2.2.1
        have hlen : s.shared.tasks.length ≤ 1 := by
          have hcount := hsound.tasksCount
          simp only [Shared.resets, hmoderate htask, Bool.false_or, decide_eq_true_eq] at hresets
          omega
        have hone : r = h'.req := by
          obtain ⟨a, ha⟩ := List.length_eq_one_iff.mp
            (le_antisymm hlen (List.length_pos_of_mem hr))
          rw [ha, List.mem_singleton] at hr hmine
          rw [hr, hmine]
        exact ⟨x.1, .working, hone ▸ hst, .inl rfl⟩
  constructor
  · intro r hr
    obtain ⟨i, st, hst, -⟩ := howner r (hsound.all r hr).1
    exact (hkept.outlined.pc i r st hst).2.1 hr
  · intro j hj r debt hdebt
    by_contra hne
    rw [not_or] at hne
    obtain ⟨hr, hharvested, st', hst'⟩ := hkept.mem_of_unharvested hdebt hne
    obtain ⟨i, st, hst, hi⟩ := howner r hr
    have hij : i = j := by
      by_contra hne'
      exact hkept.outlined.apart i j hne' r st st' hst hst'
    rcases hi with rfl | hi
    · exact hj hij.symm
    · rw [hij, hharvested] at hi
      cases hi

theorem Shared.collect_owed (h : Harvest) (key r : Nat) :
    ((d.collect h key).poll r).owed = (d.poll r).owed := by
  unfold Shared.collect
  split <;>
    · by_cases hr : r = h.req
      · subst hr
        simp [Shared.setPoll, Shared.resetItem]
      · simp [Shared.setPoll, Shared.resetItem, Function.update_of_ne hr]

theorem Shared.mem_collect_out (h : Harvest) (key r key' : Nat) :
    key' ∈ ((d.collect h key).poll r).out ↔ key' ∈ (d.poll r).out ∨ r = h.req ∧ key' = key := by
  unfold Shared.collect
  split <;>
    · by_cases hr : r = h.req
      · subst hr
        simp [Shared.setPoll, Shared.resetItem]
      · simp [Shared.setPoll, Shared.resetItem, hr]

/-- A harvest takes away at most the change of the item it has come to. -/
theorem Shared.Pending.collect
    {h : Harvest} {key key' : Nat}
    (hp : d.Pending key')
    (hne : key' ≠ key ∨ d.resets h.all = false) :
    (d.collect h key).Pending key' := by
  obtain ⟨item, hitem, hkey, hpos⟩ := hp
  unfold Shared.Pending
  rw [Shared.collect_items]
  split
  · rename_i hresets
    have hne' : item.key ≠ key := by
      rw [hkey]
      exact hne.resolve_right (by simp [hresets])
    exact ⟨item, List.mem_map.mpr ⟨item, hitem, by simp [hne']⟩, hkey, hpos⟩
  · exact ⟨item, hitem, hkey, hpos⟩

/-- A harvest comes to the next item. -/
theorem Polls.Owes.collect
    {h' : Harvest} {passed todo : List Nat} {key : Nat}
    (h : s.Owes)
    (hkept : s.Kept)
    (hpc : s.pc x.1 = .take h' passed key todo)
    (hspares : s.SparesTasks x)
    (hs' : s' =
      { shared := s.shared.collect h' key
        pc := Function.update s.pc x.1 (.round h' (passed ++ [key]) todo) }) :
    s'.Owes := by
  have hown := h.pc x.1
  rw [hpc] at hown
  have hmoderate : h'.task = true → h'.all = false := by
    intro htask
    simpa [Pc.moderate, htask] using hown.1
  have howed := Shared.collect_owed (d := s.shared) h' key
  have hout := Shared.mem_collect_out (d := s.shared) h' key
  have hcarries : Carries (s.shared.collect h' key) (.round h' (passed ++ [key]) todo) := by
    refine ⟨hown.1, ?_⟩
    intro r debt hdebt
    simp only [Pc.debt, Harvest.debt, Option.some.injEq, Prod.mk.injEq] at hdebt
    obtain ⟨rfl, rfl⟩ := hdebt
    have hbefore := hown.2 h'.req _ rfl
    cases htask : h'.task with
    | false =>
        simp only [htask, Bool.false_eq_true, if_false] at hbefore ⊢
        exact (howed _).trans hbefore
    | true =>
        simp only [htask, if_true] at hbefore ⊢
        intro key' hkey'
        rw [howed] at hkey'
        by_cases heq : key' = key
        · exact .inl ((hout _ _).mpr (.inr ⟨rfl, heq⟩))
        · rcases hbefore key' hkey' with hmem | ⟨hpending, hmem⟩
          · exact .inl ((hout _ _).mpr (.inl hmem))
          · exact .inr ⟨hpending.collect (.inl heq), (List.mem_cons.mp hmem).resolve_left heq⟩
  have hreplies : ∀ r, ((s.shared.collect h' key).poll r).replies = (s.shared.poll r).replies :=
    (Shared.alike_collect h' key).replies
  have hlist : (s.shared.collect h' key).listAll = s.shared.listAll :=
    (Shared.alike_collect h' key).listAll
  cases hresets : s.shared.resets h'.all with
  | false =>
      refine h.kindly hs' ⟨howed, fun r key' hkey' => (hout r key').mpr (.inl hkey'),
        fun key' hp => hp.collect (.inr hresets)⟩ (fun r hr => hlist ▸ hr) hreplies hcarries
  | true =>
      obtain ⟨hnone, hpaid⟩ := hkept.none_waiting hpc hmoderate hspares hresets
      refine h.act (fun _ _ _ => trivial) hs' ⟨?_, ?_⟩ hcarries ?_
      · intro r hr
        rw [hlist] at hr
        exact absurd hr (hnone r)
      · intro r key' hkey' out hmem
        rw [howed] at hkey'
        rw [hreplies] at hmem
        exact h.shared.answered r key' hkey' out hmem
      · intro j hj
        refine ⟨⟨(h.pc j).1, ?_⟩, trivial⟩
        intro r debt hdebt
        have hfits := (h.pc j).2 r debt hdebt
        rcases hpaid j hj r debt hdebt with rfl | rfl
        · exact (howed r).trans hfits
        · intro key' hkey'
          rw [howed] at hkey'
          exact (hout r key').mpr (.inl (hfits key' hkey'))

/-- The beginning of a poll request. -/
theorem Polls.Owes.startPoll
    {expiry : Nat} {all : Bool}
    (h : s.Owes)
    (hkept : s.Kept)
    (hs' : s' =
      { shared := (s.shared.startPoll expiry all).1
        pc := Function.update s.pc x.1 (s.shared.startPoll expiry all).2 }) :
    s'.Owes := by
  unfold Shared.startPoll at hs'
  split at hs'
  · have hsound := hkept.outlined.shared
    have hother : ∀ r, r ≠ s.shared.next →
        Function.update s.shared.poll s.shared.next (Poll.fresh expiry) r = s.shared.poll r :=
      fun r hr => Function.update_of_ne hr _ _
    have hfits : ∀ r debt, r ≠ s.shared.next → Debt.Fits s.shared r debt →
        Debt.Fits
          { s.shared.get with
            poll := Function.update s.shared.poll s.shared.next (Poll.fresh expiry)
            next := s.shared.next + 1 } r debt := by
      intro r debt hr hfits
      cases debt with
      | free => simpa only [Debt.Fits, hother r hr] using hfits
      | due =>
          intro key hkey
          simp only [hother r hr] at hkey
          exact hfits key hkey
      | scanning todo =>
          intro key hkey
          simp only [hother r hr] at hkey ⊢
          exact hfits key hkey
      | paid =>
          intro key hkey
          simp only [hother r hr] at hkey ⊢
          exact hfits key hkey
    refine h.act (fun _ _ _ => trivial) hs' ⟨?_, ?_⟩ ⟨rfl, ?_⟩ ?_
    · intro r hr
      have hne : r ≠ s.shared.next := Nat.ne_of_lt (hsound.known r (hsound.all r hr).1)
      exact hfits r .due hne (h.shared.queued r hr)
    · intro r key hkey out hout
      by_cases hr : r = s.shared.next
      · simp [hr, Poll.fresh] at hkey
      · simp only [hother r hr] at hkey hout
        exact h.shared.answered r key hkey out hout
    · intro r debt hdebt
      cases hdebt
      simp [Debt.Fits, Poll.fresh]
    · intro j _
      refine ⟨⟨(h.pc j).1, ?_⟩, trivial⟩
      intro r debt hdebt
      obtain ⟨st, hst⟩ := Pc.stage_of_debt hdebt
      have hne : r ≠ s.shared.next := Nat.ne_of_lt (hkept.outlined.pc j r st hst).1
      exact hfits r debt hne ((h.pc j).2 r debt hdebt)
  · exact h.kindly hs' (Shared.kindly_of_eq rfl rfl) (fun _ hr => hr) (fun _ => rfl)
      (carries_of_none rfl (by simp))

/-- The items that an edit keeps have kept their counters. -/
theorem Shared.Pending.edit
    {e : Edit} {rest : List Edit} {key : Nat}
    (hkeeps : d.keepsItems (.enter (.edits e rest) true) = true)
    (hp : d.Pending key) :
    (d.edit e).Pending key := by
  obtain ⟨item, hitem, hkey, hpos⟩ := hp
  simp only [Shared.keepsItems, List.all_eq_true] at hkeeps
  exact ⟨item, List.contains_iff_mem.mp (hkeeps item hitem), hkey, hpos⟩

theorem Shared.keepsItems_reframe (sync : Tsync) (p : Pc) :
    Shared.keepsItems { d with sync := sync } p = d.keepsItems p := by
  have hedit : ∀ e, (Shared.edit { d with sync := sync } e).items = (d.edit e).items := by
    intro e
    cases e with
    | add href linked =>
        simp only [Shared.edit]
        split
        · cases linked <;> rfl
        · split
          · cases linked <;> rfl
          · rfl
    | remove href => rfl
  unfold Shared.keepsItems
  split
  · rw [hedit]
  · rfl

/-- What is done in a region of the watch. -/
theorem Polls.Owes.work
    {e : Entry}
    (h : s.Owes)
    (hkept : s.Kept)
    (hplain : ∀ j, (s.pc j).plain = true)
    (hreading : e.mode = .write → ∀ j, (s.pc j).phase ≠ .read)
    (hpc : s.pc x.1 = .enter e true)
    (hkeeps : s.shared.keepsItems (s.pc x.1) = true)
    (hwakes : s.WakesQueued x)
    (hunharvested : s.NotifiesUnharvested x)
    (hs' : s' = { shared := e.work s.shared, pc := Function.update s.pc x.1 e.granted }) :
    s'.Owes := by
  have hframe : e.work s.shared = s.shared → e.granted.moderate = true →
      e.granted.debt = e.debt → s'.Owes := by
    intro hwork hmoderate hdebt
    rw [hwork] at hs'
    exact h.same hs' (Shared.kindly_of_eq rfl rfl) (fun _ hr => hr) (fun _ => rfl) hmoderate
      (by rw [hpc]; exact hdebt)
  cases e with
  | notify node deleted =>
      refine h.notifyWatches hkept hplain (hreading rfl) ?_ ?_ hs' rfl (by simp [Entry.granted])
      · intro hnone
        exact hwakes (by simp [Shared.activates, hpc, hnone])
      · intro hnone
        exact hunharvested (by simp [Shared.activates, hpc, hnone])
  | poll r all => exact hframe rfl rfl rfl
  | join r =>
      exact h.same hs' (Shared.kindly_of_eq rfl rfl) (fun _ hr => hr) (fun _ => rfl) rfl
        (by rw [hpc]; rfl)
  | take r => exact hframe rfl rfl rfl
  | drop r =>
      exact h.same hs' (Shared.kindly_of_eq rfl rfl) (fun _ hr => hr) (fun _ => rfl) rfl
        (by rw [hpc]; rfl)
  | edits e rest =>
      rw [hpc] at hkeeps
      obtain ⟨-, -, hpoll⟩ := Shared.edit_frame (d := s.shared) e
      have hlist : (s.shared.edit e).listAll = s.shared.listAll := (Shared.alike_edit e).listAll
      refine h.kindly hs' ⟨?_, ?_, fun key hp => hp.edit hkeeps⟩ ?_ ?_ ?_
      · intro r
        simp only [Entry.work, hpoll]
      · intro r key hkey
        simpa only [Entry.work, hpoll] using hkey
      · intro r hr
        exact hlist ▸ hr
      · intro r
        simp only [Entry.work, hpoll]
      · refine carries_of_none ?_ ?_ <;> cases rest <;> simp [Entry.granted, afterEdits, Pc.debt, Entry.debt]
  | visit m leaky => cases m <;> exact hframe rfl rfl rfl
  | make => exact hframe rfl rfl rfl
  | cross even => exact hframe rfl rfl rfl

/-- Behind a harvest a request is owed nothing, or all is in its watchOut contract. -/
theorem Harvest.carries_after
    {h' : Harvest}
    (hinside : h'.inside = true)
    (hfits : Debt.Fits d h'.req (if h'.task then .paid else .free)) :
    Carries d h'.after := by
  cases htask : h'.task with
  | false =>
      simp only [htask, Bool.false_eq_true, if_false] at hfits
      refine ⟨by simp [Harvest.after, htask, Pc.moderate], ?_⟩
      intro r debt hdebt
      simp only [Harvest.after, htask, Bool.false_eq_true, if_false, Pc.debt] at hdebt
      cases hdebt
      exact hfits
  | true =>
      simp only [htask, if_true] at hfits
      refine ⟨by simp [Harvest.after, htask, hinside, Pc.moderate], ?_⟩
      intro r debt hdebt
      simp only [Harvest.after, htask, hinside, if_true, Pc.debt] at hdebt
      cases hdebt
      exact hfits

/-- A harvest begins, or finds no change. -/
theorem Polls.Owes.harvest
    {h' : Harvest}
    (h : s.Owes)
    (hd : s.shared.Counted)
    (hpc : s.pc x.1 = .harvest h')
    (hinside : h'.inside = true)
    (hs' : s' =
      { shared := if h'.task then s.shared.touch [h'.req] else s.shared
        pc := Function.update s.pc x.1
          (if s.shared.changed || h'.all then .round h' [] (s.shared.items.map Item.key)
            else h'.after) }) :
    s'.Owes := by
  have hown := h.pc x.1
  rw [hpc] at hown
  have hbefore := hown.2 h'.req _ rfl
  have hk : Shared.Kindly s.shared (if h'.task then s.shared.touch [h'.req] else s.shared) := by
    split <;> exact Shared.kindly_of_eq rfl rfl
  refine h.kindly hs' hk ?_ ?_ (Carries.kindly ?_ hk)
  · split <;> exact fun _ hr => hr
  · split <;> exact fun _ => rfl
  · split
    · refine ⟨hown.1, ?_⟩
      intro r debt hdebt
      simp only [Pc.debt, Harvest.debt, Option.some.injEq, Prod.mk.injEq] at hdebt
      obtain ⟨rfl, rfl⟩ := hdebt
      cases htask : h'.task with
      | false => simpa [htask] using hbefore
      | true =>
          simp only [htask, if_true] at hbefore ⊢
          intro key hkey
          obtain ⟨item, hitem, rfl, hpos⟩ := hbefore key hkey
          exact .inr ⟨⟨item, hitem, rfl, hpos⟩, List.mem_map_of_mem hitem⟩
    · rename_i hgo
      have hchanged : s.shared.changed = false := by
        cases hch : s.shared.changed <;> simp_all
      refine h'.carries_after hinside ?_
      cases htask : h'.task with
      | false => simpa [htask] using hbefore
      | true =>
          -- what is owed would have been recorded
          simp only [htask, if_true] at hbefore ⊢
          intro key hkey
          obtain ⟨item, hitem, -, hpos⟩ := hbefore key hkey
          rw [hd.recorded item hitem hpos] at hchanged
          cases hchanged

/-- A harvest goes past an item without changes. -/
theorem Polls.Owes.round
    {h' : Harvest} {passed todo : List Nat} {key : Nat}
    (h : s.Owes)
    (hd : s.shared.Counted)
    (hpc : s.pc x.1 = .round h' passed (key :: todo))
    (hs' : s' =
      { shared := s.shared
        pc := Function.update s.pc x.1
          (if s.shared.count key = 0 ∧ h'.all = false then .round h' (passed ++ [key]) todo
            else .take h' passed key todo) }) :
    s'.Owes := by
  have hown := h.pc x.1
  rw [hpc] at hown
  refine h.kindly hs' (Shared.kindly_of_eq rfl rfl) (fun _ hr => hr) (fun _ => rfl) ?_
  split
  · rename_i hzero
    refine ⟨hown.1, ?_⟩
    intro r debt hdebt
    simp only [Pc.debt, Harvest.debt, Option.some.injEq, Prod.mk.injEq] at hdebt
    obtain ⟨rfl, rfl⟩ := hdebt
    have hbefore := hown.2 h'.req _ rfl
    cases htask : h'.task with
    | false => simpa [htask] using hbefore
    | true =>
        simp only [htask, if_true] at hbefore ⊢
        intro key' hkey'
        refine (hbefore key' hkey').imp_right ?_
        rintro ⟨⟨item, hitem, heq, hpos⟩, hmem⟩
        refine ⟨⟨item, hitem, heq, hpos⟩, (List.mem_cons.mp hmem).resolve_left ?_⟩
        rintro rfl
        have hcount := hd.count_eq_zero hitem heq hzero.1
        omega
  · exact hown

/-- The end of a harvest. -/
theorem Polls.Owes.settle
    {h' : Harvest} {passed : List Nat}
    (h : s.Owes)
    (hpc : s.pc x.1 = .round h' passed [])
    (hinside : h'.inside = true)
    (hs' : s' =
      { shared := s.shared.settle h', pc := Function.update s.pc x.1 h'.after }) :
    s'.Owes := by
  have hown := h.pc x.1
  rw [hpc] at hown
  have hbefore := hown.2 h'.req _ rfl
  have hk : Shared.Kindly s.shared (s.shared.settle h') := by
    unfold Shared.settle
    split <;> exact Shared.kindly_of_eq rfl rfl
  refine h.kindly hs' hk ?_ ?_ (Carries.kindly ?_ hk)
  · intro r hr
    exact (Shared.alike_settle h').listAll ▸ hr
  · exact (Shared.alike_settle h').replies
  · refine h'.carries_after hinside ?_
    cases htask : h'.task with
    | false => simpa [htask] using hbefore
    | true =>
        simp only [htask, if_true] at hbefore ⊢
        intro key hkey
        exact (hbefore key hkey).resolve_right fun hmem => by cases hmem.2

/-- The beginning of an operation. -/
theorem Polls.Owes.start
    {op : Op}
    (h : s.Owes)
    (hkept : s.Kept)
    (hstep : s.shared.start op = some (d, p))
    (hs' : s' = { shared := d, pc := Function.update s.pc x.1 p }) :
    s'.Owes := by
  have hframe : d.items = s.shared.items → d.poll = s.shared.poll →
      d.listAll = s.shared.listAll → Carries d p → s'.Owes := by
    intro hitems hpoll hlist hcarries
    refine h.kindly hs' (Shared.kindly_of_eq hitems hpoll) ?_ ?_ hcarries
    · intro r hr
      rwa [hlist] at hr
    · intro r
      rw [hpoll]
  have hsearch : ∀ {q : Pc}, some (s.shared.search q) = some (d, p) → (∀ d, Carries d q) →
      s'.Owes := by
    intro q hq hcarries
    unfold Shared.search at hq
    split at hq
    · cases hq
      exact hframe rfl rfl rfl (hcarries _)
    · cases hq
      exact hframe rfl rfl rfl (carries_of_none rfl (by simp))
  have hpair : ∀ {y : Shared × Pc}, some y = some (d, p) →
      s' = { shared := y.1, pc := Function.update s.pc x.1 y.2 } := by
    intro y hy
    rw [Option.some.inj hy]
    exact hs'
  cases op with
  | make =>
      simp only [Shared.start] at hstep
      split at hstep <;> cases hstep
      exact hframe rfl rfl rfl ⟨rfl, fun _ _ hdebt => by cases hdebt⟩
  | pollChanges expiry => exact h.startPoll hkept (hpair hstep)
  | pollRefresh => exact h.startPoll hkept (hpair hstep)
  | pollThread now =>
      simp only [Shared.start, Option.map_eq_some_iff] at hstep
      obtain ⟨r, hnext, heq⟩ := hstep
      cases heq
      exact h.dequeue hkept (hkept.outlined.shared.nextTask_mem hnext) hs'
  | cross even =>
      simp only [Shared.start] at hstep
      split at hstep <;> cases hstep
      exact hframe rfl rfl rfl ⟨rfl, fun _ _ hdebt => by cases hdebt⟩
  | expire =>
      simp only [Shared.start] at hstep
      split at hstep <;> cases hstep
      exact hframe rfl rfl rfl (carries_of_none rfl (by simp))
  | notify node deleted => exact hsearch hstep fun _ => carries_of_none rfl (by simp)
  | edits es =>
      refine hsearch hstep fun _ => carries_of_none ?_ ?_
      · cases es <;> rfl
      · cases es <;> simp [afterEdits]
  | visit m leaky => exact hsearch hstep fun _ => carries_of_none rfl (by simp)
  | delete => exact hsearch hstep fun _ => carries_of_none rfl (by simp)

end Moves

section Steps

variable {ι : Type} [Fintype ι] [DecidableEq ι] {s s' : Polls ι} {x : ι × Option Op} {d : Shared}
  {p : Pc}

/-- What one step of an operation does to the outline. -/
theorem Polls.Owes.advance
    (h : s.Owes)
    (hkept : s.Kept)
    (hharvested : s.Harvested)
    (hok : s.Clear x)
    (hstep : s.shared.advance (s.pc x.1) = some (d, p))
    (hs' : s' = { shared := d, pc := Function.update s.pc x.1 p }) :
    s'.Owes := by
  have hd := hharvested.outlined.shared
  have hown := h.pc x.1
  have hplain : ∀ j, (s.pc j).plain = true := fun j => (hharvested.outlined.pc j).1
  have hplain' := hplain x.1
  -- a step that changes neither the items nor the requests
  have hsame : d.items = s.shared.items → d.poll = s.shared.poll →
      d.listAll = s.shared.listAll → p.moderate = true → p.debt = (s.pc x.1).debt → s'.Owes := by
    intro hitems hpoll hlist hmoderate hdebt
    refine h.same hs' (Shared.kindly_of_eq hitems hpoll) ?_ ?_ hmoderate hdebt
    · intro r hr
      rwa [hlist] at hr
    · intro r
      rw [hpoll]
  cases hpc : s.pc x.1 with
  | idle =>
      rw [hpc] at hstep
      cases hstep
  | get e =>
      rw [hpc] at hstep hown
      cases hstep
      refine h.kindly hs' (Shared.kindly_of_eq rfl rfl) (fun _ hr => hr) (fun _ => rfl) ⟨rfl, ?_⟩
      intro r debt hdebt
      have hnone : e.debt = none := Option.isNone_iff_eq_none.mp hown.1
      rw [show (Pc.enter e false).debt = e.debt from rfl, hnone] at hdebt
      cases hdebt
  | enter e waiting =>
      rw [hpc] at hstep
      cases waiting with
      | false =>
          simp only [Shared.advance] at hstep
          split at hstep
          · -- nothing is refused while the watch is not being shut down
            rename_i hnone
            exact absurd hnone (Tsync.request_of_up hd.up)
          · cases hstep
            exact hsame rfl rfl rfl rfl (by rw [hpc]; rfl)
      | true =>
          simp only [Shared.advance, Option.map_eq_some_iff] at hstep
          obtain ⟨sync, hpass, heq⟩ := hstep
          cases heq
          have hreading : e.mode = .write → ∀ j, (s.pc j).phase ≠ .read := by
            intro hm
            rw [hm] at hpass
            obtain ⟨inner, hgrant, -⟩ := Option.map_eq_some_iff.mp hpass
            exact hharvested.tracked.none_reading hgrant
          refine Polls.Owes.work (h.reframe sync)
            (hkept.reframe (Shared.alike_frame _ _ _ _ sync _ _)) hplain hreading hpc ?_
            hok.wakesQueued hok.notifiesUnharvested hs'
          exact (Shared.keepsItems_reframe sync _).trans hok.unrefreshed.2.2
  | inside even =>
      rw [hpc] at hstep
      cases even <;> cases hstep <;> exact hsame rfl rfl rfl rfl (by rw [hpc]; rfl)
  | test r all =>
      rw [hpc] at hstep
      cases hstep
      refine hsame rfl rfl rfl ?_ ?_
      · split <;> rfl
      · rw [hpc]
        split <;> rfl
  | quit r =>
      rw [hpc] at hstep
      cases hstep
      exact hsame rfl rfl rfl rfl (by rw [hpc]; rfl)
  | harvest h' =>
      rw [hpc] at hstep hplain'
      cases hstep
      exact h.harvest hd hpc hplain' hs'
  | round h' passed todo =>
      rw [hpc] at hstep hplain'
      cases todo with
      | nil =>
          cases hstep
          exact h.settle hpc hplain' hs'
      | cons key todo =>
          cases hstep
          exact h.round hd hpc hs'
  | take h' passed key todo =>
      rw [hpc] at hstep
      cases hstep
      exact h.collect hkept hpc hok.sparesTasks hs'
  | leave r =>
      rw [hpc] at hstep
      cases hstep
      exact hsame rfl rfl rfl rfl (by rw [hpc]; rfl)
  | leaveTask r =>
      rw [hpc] at hstep
      cases hstep
      exact hsame rfl rfl rfl rfl (by rw [hpc]; rfl)
  | put r =>
      rw [hpc] at hstep
      cases hstep
      refine hsame rfl rfl rfl ?_ ?_
      · cases r <;> rfl
      · rw [hpc]
        cases r <;> rfl
  | reply r =>
      rw [hpc] at hstep hown
      cases hstep
      have hnone : (s.shared.poll r).owed = [] := hown.2 r .free rfl
      refine h.reply hs' rfl (by simp) rfl rfl rfl ?_
      rw [hnone]
      exact fun _ hkey => by cases hkey
  | setWatch r =>
      rw [hpc] at hstep
      cases hstep
      exact h.setPoll (f := fun x => { x with watch := true }) hs' rfl rfl rfl
        (fun _ => ⟨rfl, rfl, rfl⟩) rfl (by rw [hpc]; rfl)
  | queue r =>
      rw [hpc] at hstep hown
      cases hstep
      exact h.enqueue hs' (hown.2 r .free rfl)
  | taken r =>
      rw [hpc] at hstep
      cases hstep
      have hwatch : (s.shared.poll r).watch = true :=
        (hkept.outlined.pc x.1 r .working (by rw [hpc]; rfl)).2.2.2.2.2.2
      refine hsame rfl rfl rfl ?_ ?_
      · rw [hwatch]
        rfl
      · rw [hwatch, hpc]
        rfl
  | remove r =>
      rw [hpc] at hplain'
      cases hplain'
  | putTask r =>
      rw [hpc] at hstep
      cases hstep
      exact hsame rfl rfl rfl rfl (by rw [hpc]; rfl)
  | clear r =>
      rw [hpc] at hstep
      cases hstep
      exact h.setPoll (f := fun x => { x with watch := false }) hs' rfl rfl rfl
        (fun _ => ⟨rfl, rfl, rfl⟩) rfl (by rw [hpc]; rfl)
  | replyTask r =>
      rw [hpc] at hstep hown
      cases hstep
      exact h.reply hs' rfl (by simp) rfl rfl rfl (hown.2 r .paid rfl)
  | free r =>
      rw [hpc] at hstep
      cases hstep
      exact h.setPoll (f := fun x => { x with frees := x.frees + 1 }) hs' rfl rfl rfl
        (fun _ => ⟨rfl, rfl, rfl⟩) rfl (by rw [hpc]; rfl)
  | shutdown expire waiting =>
      rw [hpc] at hplain'
      cases hplain'
  | wake =>
      rw [hpc] at hplain'
      cases hplain'
  | unlist expire =>
      rw [hpc] at hplain'
      cases hplain'
  | putDelete =>
      rw [hpc] at hplain'
      cases hplain'
  | drain =>
      rw [hpc] at hplain'
      cases hplain'

end Steps

section Runs

variable {ι : Type} [Fintype ι]

/-- The invariant of the runs that keep clear of the windows. -/
structure Polls.Serving (s : Polls ι) : Prop where
  kept : s.Kept
  harvested : s.Harvested
  owes : s.Owes

theorem Polls.serving_init : (Polls.init : Polls ι).Serving := by
  refine ⟨Polls.kept_init, Polls.harvested_init, ⟨?_, ?_⟩, fun _ => carries_of_none rfl ?_,
    fun _ _ _ => trivial⟩
  · intro r hr
    cases hr
  · intro r key hkey
    cases hkey
  · exact fun _ hpc => by cases hpc

variable [DecidableEq ι]

/-- One step that keeps clear of the windows. -/
theorem Polls.Serving.act
    {s s' : Polls ι} {x : ι × Option Op}
    (h : s.Serving)
    (hok : s.Clear x)
    (hact : s.act Shared.step x = some s') :
    s'.Serving := by
  refine ⟨h.kept.act hok.wakesQueued hact, h.harvested.act hok.unrefreshed.1 hact, ?_⟩
  obtain ⟨d, p, hstep, hs'⟩ := Threads.act_eq_some_iff.mp hact
  obtain ⟨i, a⟩ := x
  cases a with
  | none => exact h.owes.advance h.kept h.harvested hok hstep hs'
  | some op =>
      simp only [Shared.step] at hstep
      split at hstep
      · exact h.owes.start h.kept hstep hs'
      · cases hstep

/-- In a run that keeps clear of the three windows every answer to a poll task carries the items
that have been notified while the task was in `watch->tasks`. -/
theorem polls_served
    (acts : List (ι × Option Op))
    (s : Polls ι)
    (hok : Polls.Allows Polls.Clear acts)
    (hrun : Polls.Run acts s) :
    s.Served := by
  have h : s.Serving :=
    Threads.exec_invariant (fun _ _ _ => Polls.Serving.act) Polls.serving_init hok hrun
  exact h.owes.shared.answered

/-- A task is notified, taken up and answered. -/
theorem polls_served_notified :
    ∃ s : Polls (Fin 2),
      Polls.Run (makeAddPoll ++ joinQueue ++ notifySeven ++ pollThreadRun) s ∧
        (s.shared.poll 1).owed = [0] ∧ (s.shared.poll 1).replies = [[0]] ∧ s.Served := by
  have hok : Polls.Allows Polls.Clear
      (makeAddPoll ++ joinQueue ++ notifySeven ++ pollThreadRun) := by
    unfold Polls.Allows
    decide +kernel
  exact ⟨_, rfl, rfl, rfl, polls_served _ _ hok rfl⟩

/-- A second pollChanges request of the client is answered at once and resets the counter that
the pending task has been activated for. -/
def answeredBetween : List (Fin 2 × Option Op) :=
  makeAddPoll ++ joinQueue ++ notifySeven ++
    (0, some (.pollChanges 10)) :: List.replicate 10 (0, none) ++
    (1, some (.pollThread 0)) :: List.replicate 11 (1, none)

theorem polls_not_served :
    ¬ ∀ (acts : List (Fin 2 × Option Op)) (s : Polls (Fin 2)),
      Polls.Allows Polls.Unrefreshed acts → Polls.Run acts s → s.Served := by
  intro h
  have hok : Polls.Allows Polls.Unrefreshed answeredBetween := by
    unfold Polls.Allows
    decide +kernel
  have hserved := h answeredBetween _ hok rfl 1 0 (by decide +kernel) [] (by decide +kernel)
  cases hserved

end Runs

end Watches
end Obix
