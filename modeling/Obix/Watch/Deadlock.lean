import Obix.Utils.RegionRuns
import Obix.Watch.Visits

/-!
# Devices and watches waiting for each other

Every request is inside at most one region of a device and at most one region of a
watch at a time, and asks for neither when it is inside one of the same kind
(`Request.careful`).  So threads that wait for each other in a cycle are by turns
inside a watch and waiting for a device, as Watch.add, Watch.remove and the
harvests may be, and inside a device and waiting for a watch, as a change
notification may be.

Both orders occur in the code, and two threads are enough for a deadlock
(`blocks_cycle_add_write`).  `blocks_acyclic` is about the runs in which nobody asks
for a second region of an object that a waiting thread is inside of.
-/

namespace Obix
namespace Server

open CString

/-- The kinds of objects with regions. -/
inductive LockKind
  | device
  | watch
  deriving DecidableEq, Repr

def Lock.kind : Lock → LockKind
  | device _ => .device
  | watch _ => .watch

/-- Inside of at most one device and at most one watch. -/
def regs (d w : Option Nat) : LockKind → Option Lock
  | .device => d.map .device
  | .watch => w.map .watch

/-- A task that is careful when it is inside of at most the given device and watch. -/
def Safe (d w : Option Nat) (task : Task) : Prop :=
  Careful Lock.kind (regs d w) task

section Rules

variable {m : Mode} {x : Nat} {d w : Option Nat} {granted refused next task : Task}

theorem regs_update_device (o : Option Nat) :
    Function.update (regs d w) .device (o.map .device) = regs o w := by
  funext k
  cases k with
  | device => simp [regs]
  | watch => rfl

theorem regs_update_watch (o : Option Nat) :
    Function.update (regs d w) .watch (o.map .watch) = regs d o := by
  funext k
  cases k with
  | device => rfl
  | watch => simp [regs]

theorem Safe.done : Safe none none .done := by
  intro k
  cases k with
  | device => rfl
  | watch => rfl

theorem Safe.enterDevice
    (hg : Safe (some x) w granted)
    (hr : Safe none w refused) :
    Safe none w (.enter m (.device x) granted refused) := by
  refine ⟨rfl, ?_, hr⟩
  have h := regs_update_device (d := none) (w := w) (some x)
  exact h ▸ hg

theorem Safe.enterWatch
    (hg : Safe d (some x) granted)
    (hr : Safe d none refused) :
    Safe d none (.enter m (.watch x) granted refused) := by
  refine ⟨rfl, ?_, hr⟩
  have h := regs_update_watch (d := d) (w := none) (some x)
  exact h ▸ hg

theorem Safe.insistDevice
    (hg : Safe (some x) w granted) :
    Safe none w (.insist m (.device x) granted) := by
  refine ⟨rfl, ?_⟩
  have h := regs_update_device (d := none) (w := w) (some x)
  exact h ▸ hg

theorem Safe.exitDevice
    (hn : Safe none w next) :
    Safe (some x) w (.exit m (.device x) next) := by
  refine ⟨.inr rfl, ?_⟩
  have h := regs_update_device (d := some x) (w := w) none
  exact h ▸ hn

theorem Safe.exitWatch
    (hn : Safe d none next) :
    Safe d (some x) (.exit m (.watch x) next) := by
  refine ⟨.inr rfl, ?_⟩
  have h := regs_update_watch (d := d) (w := some x) none
  exact h ▸ hn

/-- An entry that has been refused leaves the thread outside. -/
theorem Safe.outside
    (h : Safe d w task) :
    Safe none w task := by
  refine Careful.within h ?_
  intro k
  cases k with
  | device => exact .inl rfl
  | watch => exact .inr rfl

theorem Visits.safe
    {d w : Option (Nat × Mode)}
    (h : Visits d w task) :
    Safe (d.map Prod.fst) (w.map Prod.fst) task := by
  induction h with
  | done => exact .done
  | enterDevice _ _ ihg ihr => exact .enterDevice ihg ihr
  | enterWatch _ _ ihg ihr => exact .enterWatch ihg ihr
  | insistDevice _ ihg => exact .insistDevice ihg
  | exitDevice _ ihn => exact .exitDevice ihn
  | exitWatch _ ihn => exact .exitWatch ihn
  | shutdown _ _ ihg ihr => exact ⟨ihg, ihr⟩
  | revoke _ ihn => exact ihn
  | access _ ihn => exact ihn
  -- a walk that has been refused is outside and goes on
  | reenter _ ihg => exact .enterDevice ihg ihg.outside
  | climb _ _ ihg ihk => exact .enterDevice ihg ihk.outside

/-- No request asks for a second device while it is inside of one, nor for a second
watch. -/
theorem Request.careful (depth : Nat) (request : Request) :
    Careful Lock.kind (fun _ => none) (request.task depth) := by
  refine Careful.within (ServerTask.request depth request).visits.safe ?_
  intro k
  exact .inl rfl

end Rules

section System

variable {ι : Type} [DecidableEq ι] {s s' : Regions ι Lock World}

/-- A run of the server: threads take requests and go on with them. -/
def runRequests
    (depth : Nat)
    (acts : List (ι × Option Request)) :
    List (ι × Option Task) :=
  acts.map fun act => (act.1, act.2.map (Request.task depth))

/-- No cycle of blocked threads, in a run in which a thread that is inside a region
asks for another one only when nobody inside a region of that object is waiting. -/
theorem blocks_acyclic
    {depth : Nat} {acts : List (ι × Option Request)}
    (hidle : ∀ j, s.thread j = Thread.idle)
    (horder : s.Orderly (runRequests depth acts))
    (hrun : s.exec (runRequests depth acts) = some s') :
    Acyclic s'.Blocks := by
  have hcareful : ∀ i task, (i, some task) ∈ runRequests depth acts →
      Careful Lock.kind (fun _ => none) task := by
    intro i task hmem
    obtain ⟨⟨j, act⟩, -, hact⟩ := List.mem_map.mp hmem
    obtain ⟨-, hact⟩ := Prod.mk.inj hact
    obtain ⟨request, -, rfl⟩ := Option.map_eq_some_iff.mp hact
    exact request.careful depth
  exact horder.acyclic hidle hcareful hrun

end System

section Instances

/-- A server with one watch and no devices besides the device root. -/
def newServer : Regions (Fin 2) Lock World :=
  { sync := fun _ => Tsync.init
    data :=
      { devices := [{ id := 0, href := [] }]
        next := 1
        nodes := [[]]
        val := fun _ => none
        metas := []
        watch := fun id =>
          if id = 0 then some { items := [], changed := false, tasksCount := 0 } else none }
    thread := fun _ => Thread.idle }

/-- Steps of one thread. -/
def stepsOf (i : Fin 2) (steps : Nat) : List (Fin 2 × Option Request) :=
  List.replicate steps (i, none)

/-- A device with two points is signed up, the watch monitors one of them, and
Watch.add for the other one is inside of the watch. -/
def addInside : List (Fin 2 × Option Request) :=
  [(1, some (.signUp ["a".toList] [[], ["p".toList], ["q".toList]]))] ++ stepsOf 1 10 ++
    [(0, some (.watchAdd 0 [["a".toList, "p".toList]]))] ++ stepsOf 0 17 ++
    [(0, some (.watchAdd 0 [["a".toList, "q".toList]]))] ++ stepsOf 0 12

/-- A write of the monitored point. -/
def writePoint : List (Fin 2 × Option Request) :=
  [(1, some (.write ["a".toList, "p".toList] "1".toList))]

/-- Watch.add leaves the watch before the change notification asks for it. -/
theorem blocks_acyclic_in_turn :
    ∃ s, newServer.exec (runRequests 4 (addInside ++ writePoint ++ stepsOf 1 5 ++
        stepsOf 0 5 ++ stepsOf 1 20)) = some s ∧ Acyclic s.Blocks := by
  have hcalm : newServer.calm (runRequests 4 (addInside ++ writePoint ++ stepsOf 1 5 ++
      stepsOf 0 5 ++ stepsOf 1 20)) = true := by
    decide +kernel
  have hend : (newServer.exec (runRequests 4 (addInside ++ writePoint ++ stepsOf 1 5 ++
      stepsOf 0 5 ++ stepsOf 1 20))).isSome = true := by
    decide +kernel
  obtain ⟨s, hrun⟩ := Option.isSome_iff_exists.mp hend
  exact ⟨s, hrun, blocks_acyclic (fun _ => rfl) (.of_calm hcalm) hrun⟩

/-- Watch.add is inside of the watch and waits for the device, and the change
notification is inside of the device and waits for the watch. -/
theorem blocks_cycle_add_write :
    ∃ s, (∀ j, newServer.thread j = Thread.idle) ∧
      newServer.exec (runRequests 4 (addInside ++ writePoint ++ stepsOf 1 10 ++
        stepsOf 0 1 ++ stepsOf 1 1)) = some s ∧
      s.Blocks 0 1 ∧ s.Blocks 1 0 ∧ ¬ Acyclic s.Blocks := by
  have hend : (newServer.exec (runRequests 4 (addInside ++ writePoint ++ stepsOf 1 10 ++
      stepsOf 0 1 ++ stepsOf 1 1))).any (fun s =>
        (s.thread 0).waitsFor = some (.write, .device 1) ∧
        (s.thread 1).held (.device 1) = some .read ∧
        (s.thread 1).waitsFor = some (.write, .watch 0) ∧
        (s.thread 0).held (.watch 0) = some .write) = true := by
    decide +kernel
  obtain ⟨s, hrun, hs⟩ := (Option.any_eq_true _ _).mp hend
  obtain ⟨hw₀, hh₁, hw₁, hh₀⟩ := of_decide_eq_true hs
  have h₀₁ : s.Blocks 0 1 := ⟨_, .inr (.inr ⟨hw₀, by simp [hh₁]⟩)⟩
  have h₁₀ : s.Blocks 1 0 := ⟨_, .inr (.inr ⟨hw₁, by simp [hh₀]⟩)⟩
  refine ⟨s, fun _ => rfl, hrun, h₀₁, h₁₀, ?_⟩
  intro hacyclic
  exact hacyclic 0 ((Relation.TransGen.single h₀₁).tail h₁₀)

end Instances

end Server
end Obix
