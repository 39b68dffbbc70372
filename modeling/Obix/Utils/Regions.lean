import Obix.Lib.WaitGraph
import Obix.Utils.Tsync

/-!
# Programs that enter regions

A `Regional ο σ` is what a thread does between the start and the end of a
request, as far as the objects `ο` with their `tsync_t` and the shared data `σ`
are concerned.  The two halves of an entry, an exit and an access to the data are
atomic steps.  An exit lowers the counters of its object even when the thread is
not inside, as `tsync_reader_exit` does.

`Careful` programs hold at most one region of each kind of object and ask for no
region of a kind they hold one of.
-/

namespace Obix

/-- The region of an object to enter or to leave. -/
inductive Mode
  | read
  | write
  deriving DecidableEq, Repr

/-- What is left of a request. -/
inductive Regional (ο σ : Type)
  | done
  /-- `tsync_reader_entry` or `tsync_writer_entry`. -/
  | enter (m : Mode) (o : ο) (granted refused : Regional ο σ)
  /-- An entry that is tried again until it is not refused. -/
  | insist (m : Mode) (o : ο) (granted : Regional ο σ)
  /-- `tsync_reader_exit` or `tsync_writer_exit`. -/
  | exit (m : Mode) (o : ο) (next : Regional ο σ)
  /-- `tsync_shutdown_entry`. -/
  | shutdown (o : ο) (granted refused : Regional ο σ)
  /-- `tsync_shutdown_revoke`. -/
  | revoke (o : ο) (next : Regional ο σ)
  | access (upd : σ → σ) (next : σ → Regional ο σ)

/-- An access that only reads. -/
def Regional.look {ο σ : Type} (next : σ → Regional ο σ) : Regional ο σ :=
  .access id next

namespace Tsync

/-- An entry up to its waiting loop. -/
def request (sync : Tsync) : Mode → Option Tsync
  | .read => sync.readerRequest
  | .write => sync.writerRequest

/-- An entry behind its waiting loop. -/
def grant (sync : Tsync) : Mode → Option Tsync
  | .read => sync.readerGrant
  | .write => sync.writerGrant

def leave (sync : Tsync) : Mode → Tsync
  | .read => sync.readerExit
  | .write => sync.writerExit

end Tsync

/-- A thread: the rest of its request, whether it is in the waiting loop of the
entry at its head, and the regions it is inside of. -/
structure Thread (ο σ : Type) where
  prog : Regional ο σ
  waiting : Bool
  held : ο → Option Mode

/-- The objects, the shared data and the threads. -/
structure Regions (ι ο σ : Type) where
  sync : ο → Tsync
  data : σ
  thread : ι → Thread ο σ

section Steps

variable {ι ο σ : Type} [DecidableEq ι] [DecidableEq ο]

/-- An idle thread. -/
def Thread.idle : Thread ο σ :=
  { prog := .done, waiting := false, held := fun _ => none }

/-- The region a thread is waiting for. -/
def Thread.waitsFor (t : Thread ο σ) : Option (Mode × ο) :=
  match t.waiting, t.prog with
  | true, .enter m o _ _ => some (m, o)
  | true, .insist m o _ => some (m, o)
  | _, _ => none

namespace Regions

/-- The first half of an entry. -/
def ask
    (s : Regions ι ο σ)
    (i : ι)
    (m : Mode)
    (o : ο)
    (refused : Regional ο σ) :
    Regions ι ο σ :=
  match (s.sync o).request m with
  | none => { s with thread := Function.update s.thread i { s.thread i with prog := refused } }
  | some sync =>
      { s with
        sync := Function.update s.sync o sync
        thread := Function.update s.thread i { s.thread i with waiting := true } }

/-- The second half of an entry. -/
def pass
    (s : Regions ι ο σ)
    (i : ι)
    (m : Mode)
    (o : ο)
    (granted : Regional ο σ) :
    Option (Regions ι ο σ) :=
  ((s.sync o).grant m).map fun sync =>
    { s with
      sync := Function.update s.sync o sync
      thread := Function.update s.thread i
        { prog := granted
          waiting := false
          held := Function.update (s.thread i).held o (some m) } }

/-- `tsync_shutdown_entry`; the thread waits when it has raised the flag. -/
def askShutdown
    (s : Regions ι ο σ)
    (i : ι)
    (o : ο)
    (refused : Regional ο σ) :
    Regions ι ο σ :=
  match (s.sync o).shutdownRequest with
  | none => { s with thread := Function.update s.thread i { s.thread i with prog := refused } }
  | some sync =>
      { s with
        sync := Function.update s.sync o sync
        thread := Function.update s.thread i { s.thread i with waiting := true } }

def passShutdown
    (s : Regions ι ο σ)
    (i : ι)
    (o : ο)
    (granted : Regional ο σ) :
    Option (Regions ι ο σ) :=
  ((s.sync o).shutdownGrant).map fun sync =>
    { s with
      sync := Function.update s.sync o sync
      thread := Function.update s.thread i
        { s.thread i with prog := granted, waiting := false } }

/-- One atomic step of a thread; `none` if it has to wait or has nothing to do. -/
def proceed (s : Regions ι ο σ) (i : ι) : Option (Regions ι ο σ) :=
  match (s.thread i).prog with
  | .done => none
  | .enter m o granted refused =>
      if (s.thread i).waiting then s.pass i m o granted else some (s.ask i m o refused)
  | .insist m o granted =>
      if (s.thread i).waiting then s.pass i m o granted
      else some (s.ask i m o (.insist m o granted))
  | .exit m o next =>
      some
        { s with
          sync := Function.update s.sync o ((s.sync o).leave m)
          thread := Function.update s.thread i
            { s.thread i with
              prog := next
              held := Function.update (s.thread i).held o none } }
  | .shutdown o granted refused =>
      if (s.thread i).waiting then s.passShutdown i o granted
      else some (s.askShutdown i o refused)
  | .revoke o next =>
      some
        { s with
          sync := Function.update s.sync o (s.sync o).shutdownRevoke
          thread := Function.update s.thread i { s.thread i with prog := next } }
  | .access upd next =>
      some
        { s with
          data := upd s.data
          thread := Function.update s.thread i { s.thread i with prog := next s.data } }

/-- Begin a request in an idle thread. -/
def start (s : Regions ι ο σ) (i : ι) (request : Regional ο σ) : Option (Regions ι ο σ) :=
  match (s.thread i).prog with
  | .done => some { s with thread := Function.update s.thread i { s.thread i with prog := request } }
  | _ => none

/-- A step of the system: a thread begins a request or goes on with its own. -/
def act (s : Regions ι ο σ) (i : ι) : Option (Regional ο σ) → Option (Regions ι ο σ)
  | none => s.proceed i
  | some request => s.start i request

/-- A run of the system. -/
def exec : Regions ι ο σ → List (ι × Option (Regional ο σ)) → Option (Regions ι ο σ)
  | s, [] => some s
  | s, (i, a) :: rest => (s.act i a).bind fun s' => s'.exec rest

end Regions

end Steps

section Waiting

variable {ι ο σ : Type}

/-- `t` waits to enter a region that cannot be granted until `t'` leaves one: a
reader waits for writers and, when a writer is waiting, for the readers inside; a
writer waits for everybody inside. -/
def Regions.Blocks (s : Regions ι ο σ) (t t' : ι) : Prop :=
  ∃ o,
    ((s.thread t).waitsFor = some (.read, o) ∧ (s.thread t').held o = some .write) ∨
    ((s.thread t).waitsFor = some (.read, o) ∧ (s.thread t').held o = some .read ∧
      ∃ w, (s.thread w).waitsFor = some (.write, o)) ∨
    ((s.thread t).waitsFor = some (.write, o) ∧ (s.thread t').held o ≠ none)

/-- `t` waits for a region of an object that `t'` is inside of. -/
def Regions.Meets (s : Regions ι ο σ) (t t' : ι) : Prop :=
  ∃ m o, (s.thread t).waitsFor = some (m, o) ∧ (s.thread t').held o ≠ none

theorem Regions.Blocks.meets
    {s : Regions ι ο σ} {t t' : ι}
    (h : s.Blocks t t') :
    s.Meets t t' := by
  obtain ⟨o, ⟨hw, hh⟩ | ⟨hw, hh, -⟩ | ⟨hw, hh⟩⟩ := h
  · exact ⟨.read, o, hw, by simp [hh]⟩
  · exact ⟨.read, o, hw, by simp [hh]⟩
  · exact ⟨.write, o, hw, hh⟩

/-- The region a thread is about to ask for. -/
def Thread.asksFor (t : Thread ο σ) : Option ο :=
  match t.waiting, t.prog with
  | false, .enter _ o _ _ => some o
  | false, .insist _ o _ => some o
  | _, _ => none

/-- A thread that is inside a region asks for another one only when nobody inside a
region of that object is waiting. -/
def Regions.Considerate (s : Regions ι ο σ) (i : ι) : Prop :=
  ∀ o, (s.thread i).asksFor = some o →
    (∃ o', (s.thread i).held o' ≠ none) →
    ∀ j, (s.thread j).held o ≠ none → (s.thread j).waitsFor = none

/-- Every step of a run is considerate. -/
def Regions.Orderly
    [DecidableEq ι] [DecidableEq ο] :
    Regions ι ο σ → List (ι × Option (Regional ο σ)) → Prop
  | _, [] => True
  | s, (i, a) :: rest =>
      (a = none → s.Considerate i) ∧ ∀ s' ∈ s.act i a, s'.Orderly rest

end Waiting

section Discipline

variable {ι ο σ κ : Type} [DecidableEq κ]

/-- A program that is inside of at most the regions `reg` and asks for no region of a
kind it may be inside of. -/
def Careful (kind : ο → κ) : (κ → Option ο) → Regional ο σ → Prop
  | reg, .done => ∀ k, reg k = none
  | reg, .enter _ o granted refused =>
      reg (kind o) = none ∧ Careful kind (Function.update reg (kind o) (some o)) granted ∧
        Careful kind reg refused
  | reg, .insist _ o granted =>
      reg (kind o) = none ∧ Careful kind (Function.update reg (kind o) (some o)) granted
  | reg, .exit _ o next =>
      (reg (kind o) = none ∨ reg (kind o) = some o) ∧
        Careful kind (Function.update reg (kind o) none) next
  | reg, .shutdown _ granted refused => Careful kind reg granted ∧ Careful kind reg refused
  | reg, .revoke _ next => Careful kind reg next
  | reg, .access _ next => ∀ s, Careful kind reg (next s)

/-- Whether a program begins with an entry, the only place to wait. -/
def Regional.blocking : Regional ο σ → Bool
  | .enter .. | .insist .. | .shutdown .. => true
  | _ => false

/-- A thread in the middle of a careful program. -/
structure Thread.Ok (kind : ο → κ) (t : Thread ο σ) : Prop where
  careful : ∃ reg : κ → Option ο,
    (∀ o, t.held o ≠ none → reg (kind o) = some o) ∧ Careful kind reg t.prog
  blocking : t.waiting = true → t.prog.blocking = true

variable {kind : ο → κ} {reg : κ → Option ο}

/-- Inside of at most some of the regions. -/
def Within (reg' reg : κ → Option ο) : Prop :=
  ∀ k, reg' k = none ∨ reg' k = reg k

theorem Within.update
    {reg' : κ → Option ο}
    (h : Within reg' reg)
    (k : κ)
    (o : Option ο) :
    Within (Function.update reg' k o) (Function.update reg k o) := by
  intro k'
  by_cases hk : k' = k
  · subst hk
    simp
  · simpa [Function.update_of_ne hk] using h k'

/-- A program that may be inside of a region may also be outside. -/
theorem Careful.within
    {p : Regional ο σ} {reg' : κ → Option ο}
    (h : Careful kind reg p)
    (hsub : Within reg' reg) :
    Careful kind reg' p := by
  have hfree : ∀ {reg reg' : κ → Option ο} {k}, Within reg' reg → reg k = none →
      reg' k = none := by
    intro reg reg' k hsub hk
    rcases hsub k with hk' | hk'
    · exact hk'
    · rw [hk', hk]
  induction p generalizing reg reg' with
  | done => exact fun k => hfree hsub (h k)
  | enter m o granted refused ihg ihr =>
      exact ⟨hfree hsub h.1, ihg h.2.1 (hsub.update _ _), ihr h.2.2 hsub⟩
  | insist m o granted ihg => exact ⟨hfree hsub h.1, ihg h.2 (hsub.update _ _)⟩
  | exit m o next ih =>
      refine ⟨?_, ih h.2 (hsub.update _ _)⟩
      rcases hsub (kind o) with hk | hk
      · exact .inl hk
      · rw [hk]
        exact h.1
  | shutdown o granted refused ihg ihr => exact ⟨ihg h.1 hsub, ihr h.2 hsub⟩
  | revoke o next ih => exact ih h hsub
  | access upd next ih => exact fun s => ih s (h s) hsub

/-- A thread that waits for an object is not inside of it. -/
theorem Thread.Ok.not_held
    {t : Thread ο σ} {m : Mode} {o : ο}
    (h : t.Ok kind)
    (hw : t.waitsFor = some (m, o) ∨ t.asksFor = some o) :
    t.held o = none := by
  obtain ⟨reg, hheld, hcare⟩ := h.careful
  have hfree : reg (kind o) = none := by
    unfold Thread.waitsFor Thread.asksFor at hw
    cases hp : t.prog with
    | enter m' o' granted refused =>
        rw [hp] at hcare
        have ho : o' = o := by
          cases hwait : t.waiting <;> simp [hp, hwait] at hw <;> tauto
        exact ho ▸ hcare.1
    | insist m' o' granted =>
        rw [hp] at hcare
        have ho : o' = o := by
          cases hwait : t.waiting <;> simp [hp, hwait] at hw <;> tauto
        exact ho ▸ hcare.1
    | done => cases hwait : t.waiting <;> simp [hp, hwait] at hw
    | exit => cases hwait : t.waiting <;> simp [hp, hwait] at hw
    | shutdown => cases hwait : t.waiting <;> simp [hp, hwait] at hw
    | revoke => cases hwait : t.waiting <;> simp [hp, hwait] at hw
    | access => cases hwait : t.waiting <;> simp [hp, hwait] at hw
  by_contra hne
  rw [hheld o hne] at hfree
  cases hfree

/-- Entering a region of a kind of which the thread is inside of none. -/
theorem held_update
    {held : ο → Option Mode}
    [DecidableEq ο]
    (hheld : ∀ o, held o ≠ none → reg (kind o) = some o)
    {o : ο}
    (hfree : reg (kind o) = none)
    (m : Mode) :
    ∀ o', Function.update held o (some m) o' ≠ none →
      Function.update reg (kind o) (some o) (kind o') = some o' := by
  intro o' ho'
  by_cases heq : o' = o
  · subst heq
    simp
  · rw [Function.update_of_ne heq] at ho'
    have hreg := hheld o' ho'
    have hkind : kind o' ≠ kind o := by
      intro hk
      rw [hk, hfree] at hreg
      cases hreg
    rw [Function.update_of_ne hkind]
    exact hreg

/-- Leaving a region. -/
theorem held_erase
    {held : ο → Option Mode}
    [DecidableEq ο]
    (hheld : ∀ o, held o ≠ none → reg (kind o) = some o)
    {o : ο}
    (hreg : reg (kind o) = none ∨ reg (kind o) = some o) :
    ∀ o', Function.update held o none o' ≠ none →
      Function.update reg (kind o) none (kind o') = some o' := by
  intro o' ho'
  have heq : o' ≠ o := by
    rintro rfl
    simp at ho'
  rw [Function.update_of_ne heq] at ho'
  have hheld' := hheld o' ho'
  have hkind : kind o' ≠ kind o := by
    intro hk
    rw [hk] at hheld'
    rcases hreg with h | h
    · rw [h] at hheld'
      cases hheld'
    · rw [h] at hheld'
      exact heq (Option.some.inj hheld').symm
  rw [Function.update_of_ne hkind]
  exact hheld'

end Discipline

end Obix
