import Mathlib.Data.List.TakeWhile
import Obix.Utils.Ptask

/-!
# The list of periodic tasks stays well formed

The functions that edit the list follow only pointers to tasks, whatever the due times are: the
list may be out of order, and its pointers are still those of a list whose members are the tasks
that have not been freed.  For each function there is the list that it leaves behind, and the
tasks up to their pointers.
-/

namespace Obix

section Pointers

variable {s s' s'' : TaskThread} {p : Nat} {l l₁ l₂ : List Nat}

/-- A task without its pointers. -/
def PeriodicTask.bare (ptask : PeriodicTask) : PeriodicTask :=
  { ptask with prev := none, next := none }

/-- Only pointers have changed. -/
structure Relinked (s s' : TaskThread) : Prop where
  bare : ∀ p, (s'.heap p).map PeriodicTask.bare = (s.heap p).map PeriodicTask.bare
  rest : s' = { s with heap := s'.heap, taskList := s'.taskList }

theorem Relinked.trans
    (h : Relinked s s')
    (h' : Relinked s' s'') :
    Relinked s s'' := by
  refine ⟨fun p => (h'.bare p).trans (h.bare p), ?_⟩
  rw [h'.rest, h.rest]

theorem Relinked.live
    (h : Relinked s s')
    (p : Nat) :
    s'.heap p ≠ none ↔ s.heap p ≠ none := by
  have hbare := h.bare p
  cases hs : s.heap p <;> cases hs' : s'.heap p <;> simp [hs, hs'] at hbare ⊢

/-- A task has the same times as before. -/
theorem Relinked.times
    {ptask : PeriodicTask}
    (h : Relinked s s')
    (hp : s'.heap p = some ptask) :
    ∃ ptask', s.heap p = some ptask' ∧ ptask'.period = ptask.period ∧
      ptask'.nextScheduledTime = ptask.nextScheduledTime := by
  have hbare := h.bare p
  rw [hp] at hbare
  obtain ⟨ptask', hp', hbare⟩ := Option.map_eq_some_iff.mp hbare.symm
  have hperiod : ptask'.bare.period = ptask.bare.period := by rw [hbare]
  have htime : ptask'.bare.nextScheduledTime = ptask.bare.nextScheduledTime := by rw [hbare]
  exact ⟨ptask', hp', hperiod, htime⟩

theorem Relinked.due
    (h : Relinked s s')
    (p : Nat) :
    s'.due p = s.due p := by
  unfold TaskThread.due
  cases hs' : s'.heap p with
  | none =>
      have hnone : s.heap p = none := by
        by_contra hne
        exact (h.live p).mpr hne hs'
      rw [hnone]
  | some ptask =>
      obtain ⟨ptask', hs, -, htime⟩ := h.times hs'
      rw [hs]
      exact htime.symm

/-- One task is written to, in its pointers only. -/
theorem relinked_modify
    {ptask : PeriodicTask} {f : PeriodicTask → PeriodicTask}
    (hp : s.heap p = some ptask)
    (hf : (f ptask).bare = ptask.bare) :
    Relinked s { s with heap := Function.update s.heap p (some (f ptask)) } := by
  refine ⟨fun q => ?_, rfl⟩
  by_cases hq : q = p
  · subst hq
    simp [hp, hf]
  · simp [hq]

theorem setNext_spec
    (q r : Option Nat)
    (hlive : ∀ x, q = some x → s.heap x ≠ none) :
    ∃ s', s.setNext q r = some s' ∧ Relinked s s' ∧
      s'.taskList = (if q = none then r else s.taskList) ∧
      (∀ y, s'.links.next y = if q = some y then r else s.links.next y) ∧
      ∀ y, s'.links.prev y = s.links.prev y := by
  cases q with
  | none => exact ⟨_, rfl, ⟨fun _ => rfl, rfl⟩, rfl, fun _ => rfl, fun _ => rfl⟩
  | some x =>
      obtain ⟨ptask, hx⟩ := Option.ne_none_iff_exists'.mp (hlive x rfl)
      refine ⟨_, by rw [TaskThread.setNext, TaskThread.modify, hx]; rfl,
        relinked_modify hx rfl, by simp, ?_, ?_⟩
      · intro y
        by_cases hy : y = x
        · subst hy
          simp [TaskThread.links]
        · simp [TaskThread.links, hy, Ne.symm hy]
      · intro y
        by_cases hy : y = x
        · subst hy
          simp [TaskThread.links, hx]
        · simp [TaskThread.links, hy]

theorem setPrev_spec
    (q r : Option Nat)
    (hlive : ∀ x, q = some x → s.heap x ≠ none) :
    ∃ s', (s.modifyAt q fun ptask => { ptask with prev := r }) = some s' ∧ Relinked s s' ∧
      s'.taskList = s.taskList ∧
      (∀ y, s'.links.prev y = if q = some y then r else s.links.prev y) ∧
      ∀ y, s'.links.next y = s.links.next y := by
  cases q with
  | none => exact ⟨_, rfl, ⟨fun _ => rfl, rfl⟩, rfl, fun _ => rfl, fun _ => rfl⟩
  | some x =>
      obtain ⟨ptask, hx⟩ := Option.ne_none_iff_exists'.mp (hlive x rfl)
      refine ⟨_, by rw [TaskThread.modifyAt, Option.elim_some, TaskThread.modify, hx]; rfl,
        relinked_modify hx rfl, rfl, ?_, ?_⟩
      · intro y
        by_cases hy : y = x
        · subst hy
          simp [TaskThread.links]
        · simp [TaskThread.links, hy, Ne.symm hy]
      · intro y
        by_cases hy : y = x
        · subst hy
          simp [TaskThread.links, hx]
        · simp [TaskThread.links, hy]

/-- The pointers of a member. -/
theorem links_of_heap
    {ptask : PeriodicTask}
    (hp : s.heap p = some ptask) :
    s.links.prev p = ptask.prev ∧ s.links.next p = ptask.next := by
  simp [TaskThread.links, hp]

/-- The neighbours of a place are tasks. -/
theorem live_neighbours
    (hlive : ∀ q ∈ l₁ ++ l₂, s.heap q ≠ none) :
    (∀ x, l₁.getLast? = some x → s.heap x ≠ none) ∧ ∀ x, l₂.head? = some x → s.heap x ≠ none := by
  refine ⟨fun x hx => hlive x ?_, fun x hx => hlive x ?_⟩
  · exact List.mem_append_left _ (List.mem_of_getLast? hx)
  · exact List.mem_append_right _ (List.mem_of_mem_head? hx)

theorem removeFromList_spec
    (h : s.links.Threads (l₁ ++ p :: l₂))
    (hlive : ∀ q ∈ l₁ ++ p :: l₂, s.heap q ≠ none) :
    ∃ s', s.removeFromList p = some s' ∧ Relinked s s' ∧ s'.links.Threads (l₁ ++ l₂) := by
  obtain ⟨ptask, hp⟩ := Option.ne_none_iff_exists'.mp (hlive p (by simp))
  have hprev : ptask.prev = l₁.getLast? := by
    rw [← (links_of_heap hp).1, h.prev l₁ p l₂ rfl]
  have hnext : ptask.next = l₂.head? := by
    rw [← (links_of_heap hp).2, h.next l₁ p l₂ rfl]
  have hothers : ∀ q ∈ l₁ ++ l₂, s.heap q ≠ none := by
    intro q hq
    refine hlive q ?_
    rcases List.mem_append.mp hq with hq | hq
    · simp [hq]
    · simp [hq]
  obtain ⟨hlast, hfirst⟩ := live_neighbours hothers
  obtain ⟨t, ht, hst, hthead, htnext, htprev⟩ := setNext_spec ptask.prev ptask.next
    (fun x hx => hlast x (hprev ▸ hx))
  obtain ⟨u, hu, htu, huhead, huprev, hunext⟩ := setPrev_spec (s := t) ptask.next ptask.prev
    (fun x hx => (hst.live x).mpr (hfirst x (hnext ▸ hx)))
  obtain ⟨ptask', hp'⟩ := Option.ne_none_iff_exists'.mp
    (((hst.trans htu).live p).mpr (hlive p (by simp)))
  refine ⟨_, ?_, (hst.trans htu).trans (relinked_modify hp'
    (f := fun ptask => { ptask with prev := some listPoison1, next := some listPoison2 }) rfl), ?_⟩
  · simp only [TaskThread.removeFromList, hp, Option.bind_eq_bind, Option.bind_some, ht, hu,
      TaskThread.modify, hp', Option.map_some]
  · refine h.unlink ?_ ?_ ?_
    · have hhead : u.taskList = if l₁ = [] then l₂.head? else s.taskList := by
        rw [huhead, hthead, hprev, hnext]
        simp
      exact hhead
    · intro y hy
      have hrest : u.links.next y = if l₁.getLast? = some y then l₂.head? else s.links.next y := by
        rw [hunext, htnext, hprev, hnext]
      rw [← hrest]
      simp [TaskThread.links, hy]
    · intro y hy
      have hrest : u.links.prev y = if l₂.head? = some y then l₁.getLast? else s.links.prev y := by
        rw [huprev, htprev, hprev, hnext]
      rw [← hrest]
      simp [TaskThread.links, hy]

theorem insertBetween_spec
    (h : s.links.Threads (l₁ ++ l₂))
    (hlive : ∀ q ∈ l₁ ++ l₂, s.heap q ≠ none)
    (hp : s.heap p ≠ none)
    (hnew : p ∉ l₁ ++ l₂) :
    ∃ s', s.insertBetween p l₁.getLast? l₂.head? = some s' ∧ Relinked s s' ∧
      s'.links.Threads (l₁ ++ p :: l₂) := by
  obtain ⟨hlast, hfirst⟩ := live_neighbours hlive
  obtain ⟨t, ht, hst, hthead, htnext, htprev⟩ := setNext_spec l₁.getLast? (some p) hlast
  obtain ⟨u, hu, htu, huhead, huprev, hunext⟩ := setPrev_spec (s := t) (some p) l₁.getLast?
    (fun x hx => by
      cases hx
      exact (hst.live p).mpr hp)
  obtain ⟨v, hv, huv, hvhead, hvprev, hvnext⟩ := setPrev_spec (s := u) l₂.head? (some p)
    (fun x hx => ((hst.trans htu).live x).mpr (hfirst x hx))
  obtain ⟨w, hw, hvw, hwhead, hwnext, hwprev⟩ := setNext_spec (s := v) (some p) l₂.head?
    (fun x hx => by
      cases hx
      exact (((hst.trans htu).trans huv).live p).mpr hp)
  have hother₁ : l₁.getLast? ≠ some p := fun hlast =>
    hnew (List.mem_append_left _ (List.mem_of_getLast? hlast))
  have hother₂ : l₂.head? ≠ some p := fun hhead =>
    hnew (List.mem_append_right _ (List.mem_of_mem_head? hhead))
  refine ⟨w, ?_, ((hst.trans htu).trans huv).trans hvw, h.insert hnew ?_ ?_ ?_ ?_ ?_⟩
  · have hu' : (t.modify p fun ptask => { ptask with prev := l₁.getLast? }) = some u := hu
    have hw' : (v.modify p fun ptask => { ptask with next := l₂.head? }) = some w := hw
    simp only [TaskThread.insertBetween, ht, hu', hv, hw', Option.bind_eq_bind, Option.bind_some]
  · have hhead : w.taskList = if l₁ = [] then some p else s.taskList := by
      rw [hwhead, hvhead, huhead, hthead]
      simp
    exact hhead
  · intro y hy
    rw [hwnext, hvnext, hunext, htnext]
    simp [Ne.symm hy]
  · intro y hy
    rw [hwprev, hvprev, huprev, htprev]
    simp [Ne.symm hy]
  · rw [hwnext]
    simp
  · rw [hwprev, hvprev, huprev, if_neg hother₂]
    simp

/-- A task is later than another one. -/
def TaskThread.later (s : TaskThread) (time : Timespec) (q : Nat) : Bool :=
  timespecCmp time (s.due q) = 1

/-- The loop goes on past the tasks that are due earlier. -/
theorem findPlace_spec
    {time : Timespec} {n : Nat}
    (h : s.links.Threads (l₁ ++ l₂))
    (hlive : ∀ q ∈ l₁ ++ l₂, s.heap q ≠ none)
    (hn : l₂.length < n) :
    s.findPlace time n l₁.getLast? l₂.head? =
      some ((l₁ ++ l₂.takeWhile (s.later time)).getLast?, (l₂.dropWhile (s.later time)).head?) := by
  induction l₂ generalizing l₁ n with
  | nil =>
      obtain ⟨n, rfl⟩ : ∃ m, n = m + 1 := ⟨n - 1, by simp at hn; omega⟩
      simp [TaskThread.findPlace]
  | cons q l₂ ih =>
      obtain ⟨n, rfl⟩ : ∃ m, n = m + 1 := ⟨n - 1, by simp at hn; omega⟩
      obtain ⟨ptask, hq⟩ := Option.ne_none_iff_exists'.mp (hlive q (by simp))
      have hdue : s.due q = ptask.nextScheduledTime := by simp [TaskThread.due, hq]
      have hnext : ptask.next = l₂.head? := by
        rw [← (links_of_heap hq).2, h.next l₁ q l₂ rfl]
      rw [List.head?_cons, TaskThread.findPlace, hq, Option.bind_some]
      split
      · rename_i hlater
        have hstep := @ih (l₁ ++ [q]) n (by simpa using h) (by simpa using hlive)
          (by simpa using hn)
        have hq : s.later time q = true := by simpa [TaskThread.later, hdue] using hlater
        rw [List.getLast?_concat] at hstep
        rw [hnext, hstep, List.takeWhile_cons_of_pos hq, List.dropWhile_cons_of_pos hq]
        simp
      · rename_i hearlier
        have hq : ¬ s.later time q = true := by simpa [TaskThread.later, hdue] using hearlier
        rw [List.takeWhile_cons_of_neg hq, List.dropWhile_cons_of_neg hq]
        simp

/-- The list after a task has been put at its place, which is looked for behind `l₁`. -/
def TaskThread.placed (s : TaskThread) (p : Nat) (l₁ l₂ : List Nat) : List Nat :=
  l₁ ++ l₂.takeWhile (s.later (s.due p)) ++ p :: l₂.dropWhile (s.later (s.due p))

theorem placed_perm : (s.placed p l₁ l₂).Perm (p :: (l₁ ++ l₂)) := by
  have hsplit : l₁ ++ l₂.takeWhile (s.later (s.due p)) ++ l₂.dropWhile (s.later (s.due p)) =
      l₁ ++ l₂ := by
    rw [List.append_assoc, List.takeWhile_append_dropWhile]
  rw [← hsplit]
  exact List.perm_middle

/-- The place of a task depends on the times only. -/
theorem Relinked.placed
    (h : Relinked s s') :
    s'.placed p l₁ l₂ = s.placed p l₁ l₂ := by
  have hlater : s'.later (s'.due p) = s.later (s.due p) := by
    funext q
    rw [TaskThread.later, TaskThread.later, h.due, h.due]
  rw [TaskThread.placed, TaskThread.placed, hlater]

theorem place_links
    (h : s.links.Threads (l₁ ++ l₂))
    (hlive : ∀ q ∈ l₁ ++ l₂, s.heap q ≠ none)
    (hp : s.heap p ≠ none)
    (hnew : p ∉ l₁ ++ l₂)
    (hbound : ∀ q ∈ l₁ ++ l₂, q < s.brk) :
    ∃ s', s.place p l₁.getLast? l₂.head? = some s' ∧ Relinked s s' ∧
      s'.links.Threads (s.placed p l₁ l₂) := by
  obtain ⟨ptask, htask⟩ := Option.ne_none_iff_exists'.mp hp
  have hdue : s.due p = ptask.nextScheduledTime := by simp [TaskThread.due, htask]
  have hlength : l₂.length < s.brk + 1 := by
    have hsub : l₂.Subperm (List.range s.brk) := by
      refine List.Nodup.subperm (List.nodup_append.mp h.nodup).2.1 ?_
      intro q hq
      exact List.mem_range.mpr (hbound q (List.mem_append_right _ hq))
    have hle := hsub.length_le
    rw [List.length_range] at hle
    omega
  have hfind := @findPlace_spec s l₁ l₂ (s.due p) _ h hlive hlength
  have hsplit : l₁ ++ l₂.takeWhile (s.later (s.due p)) ++ l₂.dropWhile (s.later (s.due p)) =
      l₁ ++ l₂ := by
    rw [List.append_assoc, List.takeWhile_append_dropWhile]
  rw [← hsplit] at h hlive hnew
  obtain ⟨s', hinsert, hrelinked, hthreads⟩ := insertBetween_spec h hlive hp hnew
  refine ⟨s', ?_, hrelinked, hthreads⟩
  simp only [TaskThread.place, htask, Option.bind_eq_bind, Option.bind_some, ← hdue, hfind,
    hinsert]

end Pointers

section Held

variable {s s' : TaskThread} {p : Nat} {l l₁ l₂ : List Nat} {ptask ptask' : PeriodicTask}

/-- The list is well formed, and its members are the tasks in the heap. -/
structure TaskThread.Held (s : TaskThread) (l : List Nat) : Prop where
  threads : s.links.Threads l
  live : ∀ p, s.heap p ≠ none ↔ p ∈ l
  bound : ∀ p ∈ l, p < s.brk

theorem TaskThread.Held.relinked
    {l' : List Nat}
    (h : s.Held l)
    (hr : Relinked s s')
    (ht : s'.links.Threads l')
    (hperm : l'.Perm l) :
    s'.Held l' := by
  have hbrk : s'.brk = s.brk := by rw [hr.rest]
  refine ⟨ht, ?_, ?_⟩
  · intro p
    rw [hr.live p, h.live p, hperm.mem_iff]
  · intro p hp
    rw [hbrk]
    exact h.bound p (hperm.mem_iff.mp hp)

/-- A task is not among the others. -/
theorem TaskThread.Held.not_mem
    (h : s.Held (l₁ ++ p :: l₂)) :
    p ∉ l₁ ++ l₂ := by
  have hperm : (p :: (l₁ ++ l₂)).Nodup := (List.perm_middle.nodup_iff).mp h.threads.nodup
  exact (List.nodup_cons.mp hperm).1

/-- A task that is in the heap is somewhere in the list. -/
theorem TaskThread.Held.split
    (h : s.Held l)
    (hp : s.heap p = some ptask) :
    ∃ l₁ l₂, l = l₁ ++ p :: l₂ :=
  List.append_of_mem ((h.live p).mp (by simp [hp]))

/-- A state in which one task has other data. -/
def TaskThread.written (s : TaskThread) (p : Nat) (ptask : PeriodicTask) : TaskThread :=
  { s with heap := Function.update s.heap p (some ptask) }

theorem modify_eq_written
    {f : PeriodicTask → PeriodicTask}
    (hp : s.heap p = some ptask) :
    s.modify p f = some (s.written p (f ptask)) := by
  rw [TaskThread.modify, hp]
  rfl

@[simp] theorem heap_written_self : (s.written p ptask).heap p = some ptask := by
  simp [TaskThread.written]

@[simp] theorem due_written_self : (s.written p ptask).due p = ptask.nextScheduledTime := by
  simp [TaskThread.due]

theorem due_written_of_ne
    {q : Nat}
    (hq : q ≠ p) :
    (s.written p ptask).due q = s.due q := by
  simp [TaskThread.due, TaskThread.written, hq]

theorem written_written : (s.written p ptask).written p ptask' = s.written p ptask' := by
  simp [TaskThread.written]

/-- The data of a task change, and its pointers stay. -/
theorem TaskThread.Held.written
    (h : s.Held l)
    (hp : s.heap p = some ptask)
    (hprev : ptask'.prev = ptask.prev)
    (hnext : ptask'.next = ptask.next) :
    (s.written p ptask').Held l := by
  refine ⟨h.threads.congr rfl ?_, ?_, h.bound⟩
  · intro q _
    by_cases hq : q = p
    · subst hq
      simp [TaskThread.links, hp, hprev, hnext]
    · simp [TaskThread.links, TaskThread.written, hq]
  · intro q
    rw [← h.live q]
    by_cases hq : q = p
    · subst hq
      simp [hp]
    · simp [TaskThread.written, hq]

/-- A task that is due one period after a time. -/
def PeriodicTask.dueAfter (ptask : PeriodicTask) (time : Timespec) : PeriodicTask :=
  { ptask with nextScheduledTime := timespecAdd time ptask.period }

theorem generateNextExecTime_links
    (h : s.Held (l₁ ++ p :: l₂))
    (hp : s.heap p = some ptask) :
    ∃ s', s.generateNextExecTime p false = some s' ∧
      Relinked (s.written p (ptask.dueAfter ptask.nextScheduledTime)) s' ∧
      s'.links.Threads
        ((s.written p (ptask.dueAfter ptask.nextScheduledTime)).placed p l₁ l₂) := by
  have hnew := h.not_mem
  have hheld : (s.written p (ptask.dueAfter ptask.nextScheduledTime)).Held (l₁ ++ p :: l₂) :=
    h.written hp rfl rfl
  have hprev : ptask.prev = l₁.getLast? := by
    rw [← (links_of_heap hp).1, h.threads.prev l₁ p l₂ rfl]
  have hnext : ptask.next = l₂.head? := by
    rw [← (links_of_heap hp).2, h.threads.next l₁ p l₂ rfl]
  have hmodify : (s.modify p fun ptask => { ptask with
      nextScheduledTime := timespecAdd ptask.nextScheduledTime ptask.period }) =
      some (s.written p (ptask.dueAfter ptask.nextScheduledTime)) := modify_eq_written hp
  simp only [TaskThread.generateNextExecTime, hmodify, Option.bind_eq_bind, Option.bind_some,
    heap_written_self, Bool.false_eq_true, if_false]
  split
  · -- the task is the only one
    rename_i hsingle
    obtain rfl : l₁ = [] := by simpa [PeriodicTask.dueAfter, hprev] using hsingle.1
    obtain rfl : l₂ = [] := by simpa [PeriodicTask.dueAfter, hnext] using hsingle.2
    exact ⟨_, rfl, ⟨fun _ => rfl, rfl⟩, hheld.threads⟩
  · obtain ⟨t, ht, hrelinked, hthreads⟩ := removeFromList_spec hheld.threads
      fun q hq => (hheld.live q).mpr hq
    have hlive : ∀ q ∈ p :: (l₁ ++ l₂), t.heap q ≠ none := by
      intro q hq
      rw [hrelinked.live, hheld.live]
      exact (List.perm_middle.mem_iff).mpr hq
    have hbrk : t.brk = s.brk := by rw [hrelinked.rest]; rfl
    obtain ⟨s', hs', hplaced, hthreads'⟩ := place_links hthreads
      (fun q hq => hlive q (List.mem_cons_of_mem p hq)) (hlive p (by simp)) hnew
      (fun q hq => by
        rw [hbrk]
        exact h.bound q ((List.perm_middle.mem_iff).mpr (List.mem_cons_of_mem p hq)))
    refine ⟨s', ?_, hrelinked.trans hplaced, ?_⟩
    · rw [ht, Option.bind_some]
      simp only [PeriodicTask.dueAfter, hprev, hnext]
      exact hs'
    · rw [← hrelinked.placed]
      exact hthreads'

theorem resetExecTime_links
    (h : s.Held (l₁ ++ p :: l₂))
    (hp : s.heap p = some ptask) :
    ∃ s', s.resetExecTime p false = some s' ∧
      Relinked (s.written p (ptask.dueAfter s.clock)) s' ∧
      s'.links.Threads ((s.written p (ptask.dueAfter s.clock)).placed p l₁ l₂) := by
  have hheld : (s.written p { ptask with nextScheduledTime := s.clock }).Held (l₁ ++ p :: l₂) :=
    h.written hp rfl rfl
  obtain ⟨s', hs', hrelinked, hthreads⟩ := generateNextExecTime_links hheld heap_written_self
  rw [written_written] at hrelinked hthreads
  refine ⟨s', ?_, hrelinked, hthreads⟩
  simp only [TaskThread.resetExecTime, modify_eq_written hp, Option.bind_eq_bind, Option.bind_some]
  exact hs'

/-- The task that `__periodicTask_create` makes. -/
def TaskThread.newTask (s : TaskThread) (period executeTimes : Int) : PeriodicTask :=
  { id := s.idGen, period := timespecFromMillis period,
    nextScheduledTime := timespecAdd s.clock (timespecFromMillis period),
    executeTimes := executeTimes, isCancelled := false, isExecuting := false,
    prev := some listPoison1, next := some listPoison2 }

/-- A state with one more task in the heap. -/
def TaskThread.allocated (s : TaskThread) (ptask : PeriodicTask) : TaskThread :=
  { s with
    heap := Function.update s.heap s.brk (some ptask)
    brk := s.brk + 1
    idGen := s.idGen + 1
    unfinished := s.unfinished ++ [s.brk] }

@[simp] theorem heap_allocated_self : (s.allocated ptask).heap s.brk = some ptask := by
  simp [TaskThread.allocated]

theorem heap_allocated_of_ne
    {q : Nat}
    (hq : q ≠ s.brk) :
    (s.allocated ptask).heap q = s.heap q := by
  simp [TaskThread.allocated, hq]

theorem create_links
    {period executeTimes : Int}
    (h : s.Held l) :
    ∃ s', s.create period executeTimes = some s' ∧
      Relinked (s.allocated (s.newTask period executeTimes)) s' ∧
      s'.links.Threads ((s.allocated (s.newTask period executeTimes)).placed s.brk [] l) := by
  have hnew : s.brk ∉ l := fun hmem => absurd (h.bound _ hmem) (lt_irrefl _)
  have hne : ∀ q ∈ l, q ≠ s.brk := fun q hq hqp => hnew (hqp ▸ hq)
  generalize ht : s.allocated (s.newTask period executeTimes) = t
  have hheap : ∀ q, q ≠ s.brk → t.heap q = s.heap q := by
    intro q hq
    rw [← ht, heap_allocated_of_ne hq]
  have hself : t.heap s.brk = some (s.newTask period executeTimes) := by
    rw [← ht, heap_allocated_self]
  have hcreate : s.create period executeTimes = t.place s.brk none t.taskList := by
    rw [← ht]
    simp [TaskThread.create, TaskThread.resetExecTime, TaskThread.generateNextExecTime,
      TaskThread.modify, TaskThread.allocated, TaskThread.newTask]
  have hthreads : t.links.Threads ([] ++ l) := by
    refine h.threads.congr (by rw [← ht]; rfl) ?_
    intro q hq
    simp [TaskThread.links, hheap q (hne q hq)]
  obtain ⟨s', hs', hplaced, hthreads'⟩ := place_links hthreads
    (fun q hq => by
      rw [hheap q (hne q hq), h.live]
      exact hq)
    (by rw [hself]; simp) hnew
    (fun q hq => by
      rw [← ht]
      exact Nat.lt_succ_of_lt (h.bound q hq))
  have hhead : l.head? = t.taskList := hthreads.head.symm
  rw [List.getLast?_nil, hhead] at hs'
  exact ⟨s', hcreate.trans hs', hplaced, hthreads'⟩

theorem TaskThread.Held.allocated
    {l' : List Nat}
    (h : s.Held l)
    (hr : Relinked (s.allocated ptask) s')
    (ht : s'.links.Threads l')
    (hperm : l'.Perm (s.brk :: l)) :
    s'.Held l' := by
  have hbrk : s'.brk = s.brk + 1 := by rw [hr.rest]; rfl
  refine ⟨ht, ?_, ?_⟩
  · intro q
    rw [hr.live, hperm.mem_iff, List.mem_cons]
    by_cases hq : q = s.brk
    · simp [hq]
    · rw [heap_allocated_of_ne hq, h.live]
      simp [hq]
  · intro q hq
    rw [hbrk]
    rcases List.mem_cons.mp (hperm.mem_iff.mp hq) with rfl | hq
    · exact Nat.lt_succ_self _
    · exact Nat.lt_succ_of_lt (h.bound q hq)

/-- A state with one task less. -/
def TaskThread.without (s : TaskThread) (p : Nat) : TaskThread :=
  { s with heap := Function.update s.heap p none, unfinished := s.unfinished.erase p }

theorem heap_without_of_ne
    {q : Nat}
    (hq : q ≠ p) :
    (s.without p).heap q = s.heap q := by
  simp [TaskThread.without, hq]

theorem dispose_links
    (h : s.Held (l₁ ++ p :: l₂)) :
    ∃ s', s.dispose p = some s' ∧ Relinked (s.without p) s' ∧ s'.links.Threads (l₁ ++ l₂) := by
  obtain ⟨t, ht, hrelinked, hthreads⟩ := removeFromList_spec h.threads
    fun q hq => (h.live q).mpr hq
  have hnew := h.not_mem
  have hne : ∀ q ∈ l₁ ++ l₂, q ≠ p := fun q hq hqp => hnew (hqp ▸ hq)
  refine ⟨_, by rw [TaskThread.dispose, ht]; rfl, ⟨?_, ?_⟩, ?_⟩
  · intro q
    by_cases hq : q = p
    · simp [TaskThread.without, hq]
    · simpa [TaskThread.without, hq] using hrelinked.bare q
  · rw [hrelinked.rest]
    rfl
  · refine hthreads.congr rfl ?_
    intro q hq
    simp [TaskThread.links, hne q hq]

theorem TaskThread.Held.without
    (h : s.Held (l₁ ++ p :: l₂))
    (hr : Relinked (s.without p) s')
    (ht : s'.links.Threads (l₁ ++ l₂)) :
    s'.Held (l₁ ++ l₂) := by
  have hsplit : ∀ q, q ∈ l₁ ++ p :: l₂ ↔ q ∈ p :: (l₁ ++ l₂) := fun q => List.perm_middle.mem_iff
  refine ⟨ht, ?_, ?_⟩
  · intro q
    rw [hr.live]
    by_cases hq : q = p
    · subst hq
      simpa [TaskThread.without] using h.not_mem
    · rw [heap_without_of_ne hq, h.live, hsplit, List.mem_cons]
      simp [hq]
  · intro q hq
    have hbrk : s'.brk = s.brk := by rw [hr.rest]; rfl
    rw [hbrk]
    exact h.bound q ((hsplit q).mpr (List.mem_cons_of_mem p hq))

theorem getFrom_spec
    {id n : Nat}
    (h : s.Held (l₁ ++ l₂))
    (hn : l₂.length < n) :
    ∃ r, s.getFrom id n l₂.head? = some r ∧ ∀ p, r = some p → p ∈ l₂ := by
  induction l₂ generalizing l₁ n with
  | nil =>
      obtain ⟨n, rfl⟩ : ∃ m, n = m + 1 := ⟨n - 1, by simp at hn; omega⟩
      exact ⟨none, rfl, by simp⟩
  | cons q l₂ ih =>
      obtain ⟨n, rfl⟩ : ∃ m, n = m + 1 := ⟨n - 1, by simp at hn; omega⟩
      obtain ⟨qtask, hq⟩ := Option.ne_none_iff_exists'.mp ((h.live q).mpr (by simp))
      have hnext : qtask.next = l₂.head? := by
        rw [← (links_of_heap hq).2, h.threads.next l₁ q l₂ rfl]
      rw [List.head?_cons, TaskThread.getFrom, hq, Option.bind_some]
      split
      · refine ⟨_, rfl, ?_⟩
        rintro p ⟨⟩
        simp
      · obtain ⟨r, hr, hmem⟩ := @ih (l₁ ++ [q]) n (by simpa using h) (by simpa using hn)
        rw [hnext]
        exact ⟨r, hr, fun p hp => List.mem_cons_of_mem q (hmem p hp)⟩

/-- The list is short enough for its loops to end, and only tasks are found. -/
theorem get_spec
    (h : s.Held l)
    (id : Nat) :
    ∃ r, s.get id = some r ∧ ∀ p, r = some p → p ∈ l := by
  have hlength : l.length < s.brk + 1 := by
    have hsub : l.Subperm (List.range s.brk) :=
      List.Nodup.subperm h.threads.nodup fun q hq => List.mem_range.mpr (h.bound q hq)
    have hle := hsub.length_le
    rw [List.length_range] at hle
    omega
  have hhead : s.taskList = l.head? := h.threads.head
  rw [TaskThread.get, hhead]
  exact @getFrom_spec s [] l id (s.brk + 1) h hlength

theorem held_init (clock : Timespec) : (TaskThread.init clock).Held [] :=
  ⟨LinkedList.threads_nil rfl, by simp [TaskThread.init], by simp⟩

end Held

end Obix
