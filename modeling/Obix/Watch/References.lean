import Obix.Utils.RegionBalance
import Obix.Watch.TaskLife

/-!
# References of a watch

A thread that has found a watch holds a reference to it until it calls `watch_put`; the
reference of a poll request goes over to its task, and with the task to the poll thread that
takes it up.  `watch_notify_watches` and `watch_obj_copy_uri` keep theirs for ever when the
watch is being shut down, and so does `__watch_set_copy_node` when it does not find out that it
leaves the watch.  In all other runs the reference count is the number of threads that hold a
reference plus the number of tasks in the queue (`references_balanced`), so that a deletion waits
only for operations in progress.
-/

namespace Obix
namespace Watches

/-- The thread holds a reference. -/
def Pc.holds : Pc → Bool
  | .idle | .get _ | .reply _ | .clear _ | .replyTask _ | .free _ | .drain => false
  | .shutdown expire _ | .unlist expire => !expire
  | _ => true

/-- The operation does not give back its reference when the entry is refused. -/
def Entry.keepsReference : Entry → Bool
  | .notify .. => true
  | .visit _ leaky => leaky
  | _ => false

/-- The thread is about to end its operation without giving back its reference. -/
def Shared.forgets (d : Shared) : Pc → Bool
  | .enter e false => e.keepsReference && d.sync.beingShutdown
  | .inside even => !even
  | _ => false

namespace Polls

variable {ι : Type}

/-- The reference count is the number of threads that hold a reference plus the number of
pending poll tasks, and a positive one has a thread or a task to it. -/
structure Referenced [Fintype ι] (s : Polls ι) : Prop where
  balance :
    s.shared.refcnt = occupancy (fun p : Pc => p.holds = true) s.pc + s.shared.listAll.length
  inUse : 0 < s.shared.refcnt → (∃ i, (s.pc i).holds = true) ∨ s.shared.listAll ≠ []

/-- Tasks are activated only when none of them is still missing from `backlog->list_all`, and
no operation ends without giving back its reference. -/
def GivesBack (s : Polls ι) (x : ι × Option Op) : Prop :=
  s.WakesQueued x ∧ s.shared.forgets (s.pc x.1) = false

instance [Fintype ι] (s : Polls ι) (x : ι × Option Op) : Decidable (s.GivesBack x) :=
  inferInstanceAs (Decidable (_ ∧ _))

end Polls

section Shares

variable {d d' : Shared} {p p' : Pc}

/-- The references of the threads. -/
def Shared.lent (d : Shared) : Int := d.refcnt - d.listAll.length

/-- The references of a thread. -/
def Pc.share (p : Pc) : Int := if p.holds = true then 1 else 0

theorem Shared.lent_edit (e : Edit) : (d.edit e).lent = d.lent := by
  cases e with
  | add href linked =>
      simp only [Shared.edit]
      split
      · cases linked <;> rfl
      · split
        · cases linked <;> rfl
        · rfl
  | remove href => rfl

theorem Shared.lent_notifyWatches (node : Nat) (deleted : Bool) :
    (d.notifyWatches node deleted).lent = d.lent := by
  unfold Shared.notifyWatches
  split <;> rfl

theorem Shared.lent_collect (h : Harvest) (key : Nat) : (d.collect h key).lent = d.lent := by
  unfold Shared.collect
  split <;> rfl

theorem Shared.lent_settle (h : Harvest) : (d.settle h).lent = d.lent := by
  unfold Shared.settle
  split <;> rfl

/-- A task takes the reference of its request along into the queue. -/
theorem Shared.lent_enqueue (r : Nat) : (d.enqueue r).lent = d.lent - 1 := by
  have hlen : (d.enqueue r).listAll.length = d.listAll.length + 1 := by
    have hsplit := congrArg List.length (List.takeWhile_append_dropWhile
      (p := fun r' => decide ((d.poll r').expiry ≤ (d.poll r).expiry)) (l := d.listAll))
    simp only [Shared.enqueue, List.length_append, List.length_cons] at hsplit ⊢
    omega
  have hrefcnt : (d.enqueue r).refcnt = d.refcnt := rfl
  unfold Shared.lent
  rw [hlen, hrefcnt]
  push_cast
  omega

/-- A poll thread takes over the reference of a task. -/
theorem Shared.lent_dequeue
    {r : Nat}
    (hr : r ∈ d.listAll) :
    (d.dequeue r).lent = d.lent + 1 := by
  have hlen : (d.dequeue r).listAll.length = d.listAll.length - 1 := List.length_erase_of_mem hr
  have hpos := List.length_pos_of_mem hr
  have hrefcnt : (d.dequeue r).refcnt = d.refcnt := rfl
  unfold Shared.lent
  rw [hlen, hrefcnt]
  omega

theorem afterEdits_holds (es : List Edit) : (afterEdits es).holds = true := by
  cases es <;> rfl

theorem Harvest.after_holds (h : Harvest) : h.after.holds = true := by
  cases htask : h.task <;> cases hinside : h.inside <;> simp [Harvest.after, htask, hinside, Pc.holds]

/-- An entry keeps the reference of its thread, and so does a refused one that gives it back
later. -/
theorem Entry.holds_of_refused
    {e : Entry}
    (h : e.keepsReference = false) :
    e.refused.holds = true := by
  cases e with
  | notify node deleted => cases h
  | edits e rest => exact afterEdits_holds rest
  | visit m leaky =>
      cases leaky with
      | true => cases h
      | false => rfl
  | _ => rfl

theorem Entry.granted_holds (e : Entry) : e.granted.holds = true := by
  cases e with
  | edits e rest => exact afterEdits_holds rest
  | visit m leaky => cases m <;> rfl
  | _ => rfl

theorem Entry.lent_work (e : Entry) : (e.work d).lent = d.lent := by
  cases e with
  | notify node deleted => exact Shared.lent_notifyWatches node deleted
  | edits e rest => exact Shared.lent_edit e
  | _ => rfl

/-- What a thread gains or loses in one step of its operation is taken or given back. -/
theorem Shared.advance_lent
    (hstep : d.advance p = some (d', p'))
    (hforgets : d.forgets p = false)
    (hwatch : ∀ r, p = .taken r → (d.poll r).watch = true) :
    d'.lent + p.share = d.lent + p'.share := by
  have hsame : d'.lent = d.lent → p.holds = true → p'.holds = true →
      d'.lent + p.share = d.lent + p'.share := by
    intro hlent hp hp'
    simp [Pc.share, hlent, hp, hp']
  have hput : ∀ {q : Pc}, some (d.put, q) = some (d', p') → p.holds = true → q.holds = false →
      d'.lent + p.share = d.lent + p'.share := by
    intro q hq hp hq'
    cases hq
    simp only [Pc.share, hp, hq', Shared.lent, Shared.put]
    simp
    omega
  cases p with
  | idle => cases hstep
  | get e =>
      cases hstep
      simp only [Pc.share, Pc.holds, Shared.lent, Shared.get]
      simp
      omega
  | enter e waiting =>
      cases waiting with
      | false =>
          simp only [Shared.advance] at hstep
          split at hstep
          · rename_i hnone
            have hdown : d.sync.beingShutdown = true := by
              by_contra hup
              exact Tsync.request_of_up (by simpa using hup) hnone
            have hkeeps : e.keepsReference = false := by
              simpa [Shared.forgets, hdown] using hforgets
            cases hstep
            exact hsame (by cases e <;> rfl) rfl (Entry.holds_of_refused hkeeps)
          · cases hstep
            exact hsame rfl rfl rfl
      | true =>
          simp only [Shared.advance, Option.map_eq_some_iff] at hstep
          obtain ⟨sync, -, heq⟩ := hstep
          cases heq
          exact hsame (e.lent_work.trans rfl) rfl e.granted_holds
  | inside even =>
      cases even with
      | true =>
          cases hstep
          exact hsame rfl rfl rfl
      | false => cases hforgets
  | test r all =>
      cases hstep
      refine hsame rfl rfl ?_
      split <;> rfl
  | harvest h =>
      cases hstep
      refine hsame ?_ rfl ?_
      · split <;> rfl
      · split
        · rfl
        · exact h.after_holds
  | round h passed todo =>
      cases todo with
      | nil =>
          cases hstep
          exact hsame (Shared.lent_settle h) rfl h.after_holds
      | cons key todo =>
          cases hstep
          refine hsame rfl rfl ?_
          split <;> rfl
  | take h passed key todo =>
      cases hstep
      exact hsame (Shared.lent_collect h key) rfl rfl
  | put r =>
      refine hput hstep rfl ?_
      cases r <;> rfl
  | queue r =>
      cases hstep
      simp only [Pc.share, Pc.holds, Shared.lent_enqueue]
      simp
  | taken r =>
      cases hstep
      refine hsame rfl rfl ?_
      rw [hwatch r rfl]
      rfl
  | putTask r => exact hput hstep rfl rfl
  | shutdown expire waiting =>
      cases waiting with
      | false =>
          simp only [Shared.advance] at hstep
          split at hstep
          · cases hstep
            cases expire <;> rfl
          · cases hstep
            cases expire <;> rfl
      | true =>
          simp only [Shared.advance, Option.map_eq_some_iff] at hstep
          obtain ⟨sync, -, heq⟩ := hstep
          cases heq
          cases expire <;> rfl
  | unlist expire =>
      cases hstep
      cases expire <;> rfl
  | putDelete => exact hput hstep rfl rfl
  | drain =>
      simp only [Shared.advance] at hstep
      split at hstep
      · cases hstep
      · cases hstep
        rfl
  | _ =>
      cases hstep
      rfl

/-- What a thread takes at the beginning of an operation. -/
theorem Shared.start_lent
    {op : Op}
    (hstep : d.start op = some (d', p'))
    (hnext : ∀ now, ∀ r ∈ d.nextTask now, r ∈ d.listAll) :
    d'.lent = d.lent + p'.share := by
  have hsearch : ∀ {q : Pc}, some (d.search q) = some (d', p') → q.holds = true →
      d'.lent = d.lent + p'.share := by
    intro q hq hq'
    unfold Shared.search at hq
    split at hq
    · cases hq
      simp only [Pc.share, hq', Shared.lent, Shared.get]
      simp
      omega
    · cases hq
      simp [Pc.share, Pc.holds]
  have hpoll : ∀ {expiry : Nat} {all : Bool}, some (d.startPoll expiry all) = some (d', p') →
      d'.lent = d.lent + p'.share := by
    intro expiry all hq
    unfold Shared.startPoll at hq
    split at hq
    · cases hq
      simp only [Pc.share, Pc.holds, Shared.lent, Shared.get]
      simp
      omega
    · cases hq
      simp [Pc.share, Pc.holds]
  cases op with
  | make =>
      simp only [Shared.start] at hstep
      split at hstep <;> cases hstep
      simp [Pc.share, Pc.holds, Shared.lent]
  | cross even =>
      simp only [Shared.start] at hstep
      split at hstep <;> cases hstep
      simp [Pc.share, Pc.holds]
  | expire =>
      simp only [Shared.start] at hstep
      split at hstep <;> cases hstep
      simp [Pc.share, Pc.holds]
  | pollThread now =>
      simp only [Shared.start, Option.map_eq_some_iff] at hstep
      obtain ⟨r, hr, heq⟩ := hstep
      cases heq
      rw [Shared.lent_dequeue (hnext now r hr)]
      rfl
  | pollChanges expiry => exact hpoll hstep
  | pollRefresh => exact hpoll hstep
  | edits es => exact hsearch hstep (afterEdits_holds es)
  | notify node deleted => exact hsearch hstep rfl
  | visit m leaky => exact hsearch hstep rfl
  | delete => exact hsearch hstep rfl

end Shares

section Runs

variable {ι : Type} [Fintype ι]

/-- What the threads hold is what has been lent to them. -/
structure Polls.Lent (s : Polls ι) : Prop where
  kept : s.Kept
  lent : s.shared.lent = occupancy (fun p : Pc => p.holds = true) s.pc

theorem Polls.lent_init : (Polls.init : Polls ι).Lent := by
  refine ⟨Polls.kept_init, ?_⟩
  rw [occupancy_eq_zero_iff.mpr (by simp [Polls.init, Pc.holds])]
  rfl

theorem Polls.Lent.referenced
    {s : Polls ι}
    (h : s.Lent) :
    s.Referenced := by
  have hlent := h.lent
  unfold Shared.lent at hlent
  refine ⟨by omega, ?_⟩
  intro hpos
  by_contra hnone
  rw [not_or] at hnone
  obtain ⟨hnobody, hempty⟩ := hnone
  have hzero : occupancy (fun p : Pc => p.holds = true) s.pc = 0 :=
    occupancy_eq_zero_iff.mpr fun i hi => hnobody ⟨i, hi⟩
  have hlen : s.shared.listAll.length = 0 := by
    rw [not_not.mp hempty]
    rfl
  omega

variable [DecidableEq ι]

/-- One step after which the reference is still known. -/
theorem Polls.Lent.act
    {s s' : Polls ι} {x : ι × Option Op}
    (h : s.Lent)
    (hok : s.GivesBack x)
    (hact : s.act Shared.step x = some s') :
    s'.Lent := by
  refine ⟨h.kept.act hok.1 hact, ?_⟩
  obtain ⟨d, p, hstep, rfl⟩ := Threads.act_eq_some_iff.mp hact
  have hmoved : d.lent + (s.pc x.1).share = s.shared.lent + p.share := by
    obtain ⟨i, a⟩ := x
    cases a with
    | none =>
        refine Shared.advance_lent hstep hok.2 ?_
        intro r hpc
        exact (h.kept.outlined.pc i r .working (by rw [hpc]; rfl)).2.2.2.2.2.2
    | some op =>
        simp only [Shared.step] at hstep
        split at hstep
        · rename_i hidle
          rw [Shared.start_lent hstep fun _ _ hr => h.kept.outlined.shared.nextTask_mem hr, hidle]
          simp [Pc.share, Pc.holds]
        · cases hstep
  have hcount := occupancy_update (p := fun p : Pc => p.holds = true) (f := s.pc) x.1 p
  have hlent := h.lent
  have hshare : ∀ q : Pc, q.share = ((if q.holds = true then 1 else 0 : Nat) : Int) := by
    intro q
    unfold Pc.share
    split <;> rfl
  rw [hshare, hshare] at hmoved
  simp only
  omega

/-- The reference count of a watch is the number of threads that hold a reference plus the
number of its pending tasks, in every run in which nobody forgets its reference. -/
theorem references_balanced
    (acts : List (ι × Option Op))
    (s : Polls ι)
    (hok : Polls.Allows Polls.GivesBack acts)
    (hrun : Polls.Run acts s) :
    s.Referenced := by
  have h : s.Lent :=
    Threads.exec_invariant (fun _ _ _ => Polls.Lent.act) Polls.lent_init hok hrun
  exact h.referenced

/-- A deletion waits for a pending task, which has a reference of its own. -/
theorem references_balanced_pending :
    ∃ s : Polls (Fin 2),
      Polls.Run (makeAddPoll ++ joinQueue ++ (1, some .delete) :: List.replicate 5 (1, none)) s ∧
        s.pc 1 = .drain ∧ s.shared.refcnt = 1 ∧ s.shared.listAll = [1] ∧ s.Referenced := by
  have hok : Polls.Allows Polls.GivesBack
      (makeAddPoll ++ joinQueue ++ (1, some .delete) :: List.replicate 5 (1, none)) := by
    unfold Polls.Allows
    decide +kernel
  exact ⟨_, rfl, rfl, rfl, rfl, references_balanced _ _ hok rfl⟩

/-- A device finds the watch and then finds it being shut down. -/
def notifyRefused : List (Fin 2 × Option Op) :=
  makeAddPoll.take 6 ++ [(1, some (.notify 7 false)), (0, some .delete), (0, none), (1, none)]

theorem references_not_balanced :
    ¬ ∀ (acts : List (Fin 2 × Option Op)) (s : Polls (Fin 2)), Polls.Run acts s →
      s.Referenced := by
  intro h
  have hbalance := (h notifyRefused _ rfl).balance
  revert hbalance
  decide +kernel

end Runs

end Watches
end Obix
