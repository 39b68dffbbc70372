import Obix.Lib.Occupancy
import Obix.Lib.Runs
import Obix.Utils.Cache

/-!
# The mutex of the cache

`cache_search`, `cache_update` and `cache_invalidate` from any number of threads.  A call waits
for the mutex, goes through the slots and unlocks.  `__cache_update` unlocks the mutex by itself
when the first slot has the href already, and then its caller unlocks it once more.  As long as
`cache_update` does not come upon its href in the first slot, the mutex is unlocked once in each
call, by the thread that holds it (`cache_mutex_kept`).
-/

namespace Obix

open CString

/-- A call on a cache. -/
inductive CacheCall (κ : Type)
  | search (href : Text)
  | update (href : Text) (item : κ)
  | invalidate (href : Text)
  deriving DecidableEq, Repr

/-- Where a thread is. -/
inductive CachePc (κ : Type)
  | idle
  | waiting (call : CacheCall κ)
  /-- Going through the slots. -/
  | inside (call : CacheCall κ)
  /-- At `pthread_mutex_unlock` in `__cache_update`. -/
  | early
  /-- At the last `pthread_mutex_unlock` of a call that has unlocked `n` times. -/
  | leaving (n : Nat)
  deriving DecidableEq, Repr

/-- A cache, the thread that holds its mutex, the threads, and how often each completed call has
unlocked the mutex. -/
structure CacheThreads (ι κ : Type) where
  slots : Cache κ
  holder : Option ι
  pc : ι → CachePc κ
  completed : List Nat

namespace CacheCall

variable {κ : Type}

/-- `is_str_identical(c->items[0].href, href, 1)`. -/
def firstHolds (slots : Cache κ) (href : Text) : Bool := slots.head?.any (Cache.slotHolds href)

/-- The call comes to the early exit of `__cache_update`. -/
def exitsEarly (slots : Cache κ) : CacheCall κ → Bool
  | search href =>
      ((slots.findIdx? (Cache.slotHolds href)).bind fun n =>
        (slots[n]?.join).map fun x => (n, x)).any fun hit =>
          0 < hit.1 && firstHolds slots hit.2.1
  | update href _ => firstHolds slots href
  | invalidate _ => false

/-- The slots after the call. -/
def effect (slots : Cache κ) : CacheCall κ → Cache κ
  | search href => (slots.search href).2
  | update href item => slots.update href item
  | invalidate href => slots.invalidate href

end CacheCall

namespace CacheThreads

variable {ι κ : Type} [DecidableEq ι]

/-- No thread has called yet. -/
def init (slots : Cache κ) : CacheThreads ι κ :=
  { slots := slots, holder := none, pc := fun _ => .idle, completed := [] }

variable (s : CacheThreads ι κ)

def setPc (i : ι) (p : CachePc κ) : CacheThreads ι κ := { s with pc := Function.update s.pc i p }

/-- One step of a thread: it begins a call, or goes on with it. -/
def step (x : ι × Option (CacheCall κ)) : Option (CacheThreads ι κ) :=
  match x.2, s.pc x.1 with
  | some call, .idle => some (s.setPc x.1 (.waiting call))
  | none, .waiting call =>
      if s.holder.isNone then some ({ s with holder := some x.1 }.setPc x.1 (.inside call)) else none
  | none, .inside call =>
      some ({ s with slots := call.effect s.slots }.setPc x.1
        (if call.exitsEarly s.slots then .early else .leaving 0))
  | none, .early => some ({ s with holder := none }.setPc x.1 (.leaving 1))
  | none, .leaving n =>
      some ({ s with holder := none, completed := (n + 1) :: s.completed }.setPc x.1 .idle)
  | _, _ => none

/-- `cache_update` does not come upon its href in the first slot. -/
def pushes (x : ι × Option (CacheCall κ)) : Bool :=
  match s.pc x.1 with
  | .inside (.update href _) => !CacheCall.firstHolds s.slots href
  | _ => true

/-- The mutex is unlocked only by the thread that holds it and once in each call, and one thread
at a time goes through the slots. -/
structure Disciplined : Prop where
  unlocks : ∀ i, (s.pc i = .early ∨ ∃ n, s.pc i = .leaving n) → s.holder = some i
  once : ∀ n ∈ s.completed, n = 1
  exclusive : ∀ i j, (∃ call, s.pc i = .inside call) → (∃ call, s.pc j = .inside call) → i = j

end CacheThreads

section Discipline

variable {ι κ : Type}

/-- `cache_search` does not come to the early exit: a slot that it finds behind the first one has
another href than that one. -/
theorem exitsEarly_search (slots : Cache κ) (href : Text) :
    (CacheCall.search href).exitsEarly slots = false := by
  rw [CacheCall.exitsEarly, Option.any_eq_false]
  rintro ⟨n, h, item⟩ hhit
  obtain ⟨n', hfind, hhit⟩ := Option.bind_eq_some_iff.mp hhit
  obtain ⟨x, hslot, heq⟩ := Option.map_eq_some_iff.mp hhit
  cases heq
  obtain ⟨hn, hholds, hbefore⟩ := List.findIdx?_eq_some_iff_getElem.mp hfind
  rw [List.getElem?_eq_getElem hn, Option.join_some] at hslot
  rw [hslot] at hholds
  have hid : isStrIdentical h href = true := by simpa [Cache.slotHolds] using hholds
  cases slots with
  | nil => simp at hn
  | cons first rest =>
      cases n with
      | zero => simp
      | succ n =>
          have hfirst : ¬ Cache.slotHolds href first = true := hbefore 0 (Nat.succ_pos n)
          have hsame : Cache.slotHolds h first = Cache.slotHolds href first := by
            simp only [isStrIdentical, decide_eq_true_eq] at hid
            simp only [Cache.slotHolds, isStrIdentical, hid]
          simpa [CacheCall.firstHolds, hsame] using hfirst

/-- Where a thread holds the mutex. -/
def CachePc.holds : CachePc κ → Bool
  | .inside _ => true
  | .leaving 0 => true
  | _ => false

/-- The invariant of the runs. -/
structure CacheThreads.Held (s : CacheThreads ι κ) : Prop where
  places : ∀ i, s.pc i ≠ .early ∧ ∀ n, s.pc i ≠ .leaving (n + 1)
  holder : ∀ i, (s.pc i).holds = true ↔ s.holder = some i
  once : ∀ n ∈ s.completed, n = 1

variable {s s' : CacheThreads ι κ}

theorem CacheThreads.Held.disciplined
    (h : s.Held) :
    s.Disciplined := by
  refine ⟨?_, h.once, ?_⟩
  · rintro i (hearly | ⟨n, hleaving⟩)
    · exact absurd hearly (h.places i).1
    · cases n with
      | zero => exact (h.holder i).mp (by rw [hleaving]; rfl)
      | succ n => exact absurd hleaving ((h.places i).2 n)
  · rintro i j ⟨call, hi⟩ ⟨call', hj⟩
    have hi' := (h.holder i).mp (by rw [hi]; rfl)
    have hj' := (h.holder j).mp (by rw [hj]; rfl)
    exact Option.some.inj (hi'.symm.trans hj')

/-- A thread that holds the mutex lets go of it. -/
theorem CacheThreads.Held.other
    {i j : ι}
    (h : s.Held)
    (hi : (s.pc i).holds = true)
    (hj : j ≠ i) :
    s.holder = some j ↔ (none : Option ι) = some j := by
  rw [(h.holder i).mp hi]
  simp [Ne.symm hj]

theorem CacheThreads.held_init (slots : Cache κ) : (CacheThreads.init slots : CacheThreads ι κ).Held :=
  ⟨fun _ => ⟨by simp [CacheThreads.init], by simp [CacheThreads.init]⟩,
    by simp [CacheThreads.init, CachePc.holds], by simp [CacheThreads.init]⟩

variable [DecidableEq ι]

/-- A thread moves; the others stay where they are. -/
theorem CacheThreads.Held.move
    {i : ι} {p : CachePc κ}
    (h : s.Held)
    (hpc : s'.pc = Function.update s.pc i p)
    (hplace : p ≠ .early ∧ ∀ n, p ≠ .leaving (n + 1))
    (hown : p.holds = true ↔ s'.holder = some i)
    (hother : ∀ j, j ≠ i → ((s.holder = some j) ↔ s'.holder = some j))
    (honce : ∀ n ∈ s'.completed, n = 1) :
    s'.Held := by
  refine ⟨?_, ?_, honce⟩
  · intro j
    rw [hpc]
    by_cases hj : j = i
    · subst hj
      simpa using hplace
    · simpa [Function.update_of_ne hj] using h.places j
  · intro j
    rw [hpc]
    by_cases hj : j = i
    · subst hj
      simpa using hown
    · rw [Function.update_of_ne hj, h.holder j]
      exact hother j hj

theorem CacheThreads.Held.step
    {x : ι × Option (CacheCall κ)}
    (h : s.Held)
    (hok : s.pushes x = true)
    (hstep : s.step x = some s') :
    s'.Held := by
  obtain ⟨i, a⟩ := x
  have hfree : ∀ p : CachePc κ, s.pc i = p → p.holds = false → s.holder ≠ some i := by
    intro p hp hnot hholder
    have hholds := (h.holder i).mpr hholder
    rw [hp, hnot] at hholds
    cases hholds
  cases a with
  | some call =>
      cases hpc : s.pc i with
      | idle =>
          simp only [CacheThreads.step, hpc, Option.some.injEq] at hstep
          subst hstep
          refine h.move rfl ⟨by simp, by simp⟩ ?_ (fun _ _ => Iff.rfl) h.once
          simpa [CachePc.holds, CacheThreads.setPc] using hfree .idle hpc rfl
      | _ => simp [CacheThreads.step, hpc] at hstep
  | none =>
      cases hpc : s.pc i with
      | idle => simp [CacheThreads.step, hpc] at hstep
      | waiting call =>
          simp only [CacheThreads.step, hpc] at hstep
          split at hstep
          · rename_i hnone
            cases hstep
            refine h.move rfl ⟨by simp, by simp⟩ ?_ ?_ h.once
            · simp [CachePc.holds, CacheThreads.setPc]
            · intro j hj
              rw [Option.isNone_iff_eq_none.mp hnone]
              simp [CacheThreads.setPc, Ne.symm hj]
          · cases hstep
      | inside call =>
          -- the early exit is not taken
          have hearly : call.exitsEarly s.slots = false := by
            cases call with
            | search href => exact exitsEarly_search s.slots href
            | update href item => simpa [CacheThreads.pushes, hpc, CacheCall.exitsEarly] using hok
            | invalidate href => rfl
          simp only [CacheThreads.step, hpc, hearly, Bool.false_eq_true, if_false,
            Option.some.injEq] at hstep
          subst hstep
          refine h.move rfl ⟨by simp, by simp⟩ ?_ (fun _ _ => Iff.rfl) h.once
          have hholder := (h.holder i).mp (by rw [hpc]; rfl)
          simpa [CachePc.holds, CacheThreads.setPc] using hholder
      | early => exact absurd hpc (h.places i).1
      | leaving n =>
          cases n with
          | succ n => exact absurd hpc ((h.places i).2 n)
          | zero =>
              simp only [CacheThreads.step, hpc, Option.some.injEq] at hstep
              subst hstep
              refine h.move rfl ⟨by simp, by simp⟩ ?_ ?_ ?_
              · simp [CachePc.holds, CacheThreads.setPc]
              · exact fun j hj => h.other (by rw [hpc]; rfl) hj
              · intro n hn
                rcases List.mem_cons.mp hn with rfl | hn
                · rfl
                · exact h.once n hn

/-- The mutex is unlocked once in each call, by the thread that holds it, in every run in which
`cache_update` does not come upon its href in the first slot. -/
theorem cache_mutex_kept
    (slots : Cache κ)
    (s : CacheThreads ι κ)
    (hs : Runs.Reaches CacheThreads.step (fun s x => s.pushes x = true) (.init slots) s) :
    s.Disciplined :=
  (hs.invariant (fun _ _ _ h hok hstep => h.step hok hstep)
    (CacheThreads.held_init slots)).disciplined

end Discipline

/-- Two threads put the same item into an empty cache. -/
def updateLamp : List (Fin 2 × Option (CacheCall Nat)) :=
  [(0, some (.update "/obix/deviceRoot/d/".toList 1)), (0, none), (0, none), (0, none)]

theorem cache_mutex_kept_lamp :
    ∃ s : CacheThreads (Fin 2) Nat,
      Runs.exec CacheThreads.step (.init [none]) updateLamp = some s ∧
        s.completed = [1] ∧ s.Disciplined :=
  ⟨_, rfl, rfl, cache_mutex_kept [none] _
    (Runs.Reaches.refl.exec updateLamp (by decide +kernel) rfl)⟩

/-- The second thread has the same item. -/
def updateLampTwice : List (Fin 2 × Option (CacheCall Nat)) :=
  updateLamp ++
    [(1, some (.update "/obix/deviceRoot/d/".toList 1)), (1, none), (1, none), (1, none), (1, none)]

theorem cache_mutex_not_kept :
    ¬ ∀ (slots : Cache Nat) (s : CacheThreads (Fin 2) Nat),
      Runs.Reaches CacheThreads.step (fun _ _ => True) (.init slots) s → s.Disciplined := by
  intro hall
  have hsome : ((Runs.exec CacheThreads.step (.init [none] : CacheThreads (Fin 2) Nat)
      updateLampTwice).map CacheThreads.completed) = some [2, 1] := by
    decide +kernel
  obtain ⟨s, hexec, hcompleted⟩ := Option.map_eq_some_iff.mp hsome
  have honce := (hall [none] s (Runs.Reaches.refl.free updateLampTwice hexec)).once 2
    (by rw [hcompleted]; simp)
  cases honce

end Obix
