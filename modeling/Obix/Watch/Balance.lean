import Obix.Utils.RegionBalance
import Obix.Watch.Deadlock

/-!
# Entries and exits of the walks through the device tree

Every request leaves only regions it is inside of, but for the entries of
`__device_copy_node` and `__device_notify_watches` whose refusal the code has no way to
cope with (`WalkEntry`): when a walk wants to get back into the device it came from,
and when a notification goes up to the device above.  If none of these is refused, all
exits match entries.
-/

namespace Obix
namespace Server

open CString

/-- The entries of a walk that go on as if they could not be refused. -/
inductive WalkEntry : Task → Prop
  | back (dev : Nat) (k : Task) : WalkEntry (reenter dev k)
  | up (path : List Text) (previous current : Nat) (k : Task) :
      WalkEntry (climb path previous current k)

/-- Inside of at most one device and at most one watch. -/
def inside (d w : Option (Nat × Mode)) : Lock → Option Mode
  | .device x => d.bind fun p => if p.1 = x then some p.2 else none
  | .watch x => w.bind fun p => if p.1 = x then some p.2 else none

/-- A task that leaves what it is inside of, if no entry of a walk is refused. -/
def Even (d w : Option (Nat × Mode)) (task : Task) : Prop :=
  Balanced WalkEntry (inside d w) task

section Rules

variable {m : Mode} {x : Nat} {d w : Option (Nat × Mode)} {granted refused next task : Task}

theorem inside_enter_device :
    Function.update (inside none w) (.device x) (some m) = inside (some (x, m)) w := by
  funext o
  cases o with
  | device y =>
      by_cases hxy : y = x
      · subst hxy
        simp [inside]
      · have hne : Lock.device y ≠ .device x := fun h => hxy (Lock.device.inj h)
        simp [inside, Function.update_of_ne hne, Ne.symm hxy]
  | watch y => rfl

theorem inside_enter_watch :
    Function.update (inside d none) (.watch x) (some m) = inside d (some (x, m)) := by
  funext o
  cases o with
  | device y => rfl
  | watch y =>
      by_cases hxy : y = x
      · subst hxy
        simp [inside]
      · have hne : Lock.watch y ≠ .watch x := fun h => hxy (Lock.watch.inj h)
        simp [inside, Function.update_of_ne hne, Ne.symm hxy]

theorem inside_exit_device :
    Function.update (inside (some (x, m)) w) (.device x) none = inside none w := by
  rw [← inside_enter_device, Function.update_idem]
  exact Function.update_eq_self _ _

theorem inside_exit_watch :
    Function.update (inside d (some (x, m))) (.watch x) none = inside d none := by
  rw [← inside_enter_watch, Function.update_idem]
  exact Function.update_eq_self _ _

theorem Even.done : Even none none .done := by
  intro o
  cases o with
  | device => rfl
  | watch => rfl

theorem Even.enterDevice
    (hg : Even (some (x, m)) w granted)
    (hr : WalkEntry (.enter m (.device x) granted refused) ∨ Even none w refused) :
    Even none w (.enter m (.device x) granted refused) := by
  refine ⟨rfl, ?_, hr⟩
  rw [inside_enter_device]
  exact hg

theorem Even.enterWatch
    (hg : Even d (some (x, m)) granted)
    (hr : Even d none refused) :
    Even d none (.enter m (.watch x) granted refused) := by
  refine ⟨rfl, ?_, .inr hr⟩
  rw [inside_enter_watch]
  exact hg

theorem Even.insistDevice
    (hg : Even (some (x, m)) w granted) :
    Even none w (.insist m (.device x) granted) := by
  refine ⟨rfl, ?_⟩
  rw [inside_enter_device]
  exact hg

theorem Even.exitDevice
    (hn : Even none w next) :
    Even (some (x, m)) w (.exit m (.device x) next) := by
  refine ⟨by simp [inside], ?_⟩
  rw [inside_exit_device]
  exact hn

theorem Even.exitWatch
    (hn : Even d none next) :
    Even d (some (x, m)) (.exit m (.watch x) next) := by
  refine ⟨by simp [inside], ?_⟩
  rw [inside_exit_watch]
  exact hn

theorem Visits.even
    (h : Visits d w task) :
    Even d w task := by
  induction h with
  | done => exact .done
  | enterDevice _ _ ihg ihr => exact .enterDevice ihg (.inr ihr)
  | enterWatch _ _ ihg ihr => exact .enterWatch ihg ihr
  | insistDevice _ ihg => exact .insistDevice ihg
  | exitDevice _ ihn => exact .exitDevice ihn
  | exitWatch _ ihn => exact .exitWatch ihn
  | shutdown _ _ ihg ihr => exact ⟨ihg, ihr⟩
  | revoke _ ihn => exact ihn
  | access _ ihn => exact ihn
  | reenter _ ihg => exact .enterDevice ihg (.inl (.back _ _))
  | climb _ _ ihg _ => exact .enterDevice ihg (.inl (.up _ _ _ _))

theorem ServerTask.balanced
    (h : ServerTask task) :
    Balanced WalkEntry (fun _ => none) task := by
  have hempty : inside none none = fun _ => none := by
    funext o
    cases o with
    | device => rfl
    | watch => rfl
  rw [← hempty]
  exact h.visits.even

end Rules

section System

variable {ι : Type} [Fintype ι] [DecidableEq ι] {s s' : Regions ι Lock World}

/-- Exits match entries in every run of the server in which no walk is refused when it
gets back into a device or goes up to the one above, that is, in which the device is
not being shut down then. -/
theorem walks_in_order
    {acts : List (ι × Option Task)}
    (hidle : ∀ j, s.thread j = Thread.idle)
    (hsync : ∀ o, s.sync o = Tsync.init)
    (htasks : ∀ i task, (i, some task) ∈ acts → ServerTask task)
    (hfirm : s.Firm WalkEntry acts)
    (hrun : s.exec acts = some s') :
    s'.InOrder := by
  have hmatched : s.Matched WalkEntry := Regions.matched_idle hidle hsync
  exact (hmatched.exec (fun i task hmem => (htasks i task hmem).balanced) hfirm hrun).inOrder

end System

section Instances

/-- Steps of one thread with its request. -/
def goOn (i : Fin 2) (steps : Nat) : List (Fin 2 × Option Task) :=
  List.replicate steps (i, none)

/-- The device `a` and the device `a/b` below it are signed up. -/
def signUpTwo : List (Fin 2 × Option Task) :=
  [(1, some (Request.task 0 (.signUp ["a".toList] [[]])))] ++ goOn 1 10 ++
    [(1, some (Request.task 0 (.signUp ["a".toList, "b".toList] [[]])))] ++ goOn 1 18

/-- A read of `a`. -/
def readA : Task := deviceCopyUri 3 ["a".toList] fun _ => .done

/-- A read of `a` has left `a` and is inside of `a/b`. -/
def readCrosses : List (Fin 2 × Option Task) :=
  signUpTwo ++ [(0, some readA)] ++ goOn 0 10

/-- Nobody signs off a device while the read goes through both. -/
theorem walks_in_order_read :
    ∃ s, newServer.exec (readCrosses ++ goOn 0 5) = some s ∧ s.InOrder := by
  have hsteady : newServer.steady (readCrosses ++ goOn 0 5) = true := by decide +kernel
  have hend : (newServer.exec (readCrosses ++ goOn 0 5)).isSome = true := by decide +kernel
  obtain ⟨s, hrun⟩ := Option.isSome_iff_exists.mp hend
  refine ⟨s, hrun, walks_in_order (fun _ => rfl) (fun _ => rfl) ?_ (.of_steady hsteady) hrun⟩
  intro i task hmem
  simp only [readCrosses, signUpTwo, goOn, List.append_assoc, List.mem_append, List.mem_cons,
    List.mem_replicate, Prod.mk.injEq, reduceCtorEq, and_false, Option.some.injEq, List.not_mem_nil,
    or_false, false_or] at hmem
  obtain ⟨-, rfl⟩ | ⟨-, rfl⟩ | ⟨-, rfl⟩ := hmem
  · exact .request 0 _
  · exact .request 0 _
  · exact .read 3 _

/-- The region a thread is about to leave. -/
def leaves (t : Thread Lock World) : Option (Mode × Lock) :=
  match t.prog with
  | .exit m o _ => some (m, o)
  | _ => none

theorem prog_of_leaves
    {t : Thread Lock World} {m : Mode} {o : Lock}
    (h : leaves t = some (m, o)) :
    ∃ next, t.prog = .exit m o next := by
  unfold leaves at h
  cases hp : t.prog with
  | exit m' o' next =>
      simp only [hp, Option.some.injEq, Prod.mk.injEq] at h
      obtain ⟨rfl, rfl⟩ := h
      exact ⟨next, rfl⟩
  | done => simp [hp] at h
  | enter => simp [hp] at h
  | insist => simp [hp] at h
  | shutdown => simp [hp] at h
  | revoke => simp [hp] at h
  | access => simp [hp] at h

/-- While the read is inside of `a/b`, a signOff of `a` raises the shutdown flag of `a`,
and the read, on its way back, is refused. -/
def signOffMeanwhile : List (Fin 2 × Option Task) :=
  readCrosses ++ [(1, some (Request.task 0 (.signOff ["a".toList])))] ++ goOn 1 3 ++ goOn 0 3

/-- The signOff gives up because of `a/b`; then `a` is read and written. -/
def readAndWrite : List (Fin 2 × Option Task) :=
  goOn 0 1 ++ goOn 1 2 ++ [(0, some readA)] ++ goOn 0 3 ++
    [(1, some (Request.task 0 (.write ["a".toList] "1".toList)))] ++ goOn 1 3

/-- The read is about to leave `a` without being inside. -/
theorem walk_exit_unmatched :
    ¬ ∀ acts s, (∀ i task, (i, some task) ∈ acts → ServerTask task) →
      newServer.exec acts = some s → s.InOrder := by
  intro h
  have hend : (newServer.exec signOffMeanwhile).any (fun s =>
      leaves (s.thread 0) = some (.read, .device 1) ∧
        (s.thread 0).held (.device 1) = none) = true := by
    decide +kernel
  obtain ⟨s, hrun, hs⟩ := (Option.any_eq_true _ _).mp hend
  obtain ⟨hleaves, hheld⟩ := of_decide_eq_true hs
  obtain ⟨next, hp⟩ := prog_of_leaves hleaves
  have horder : s.InOrder := by
    refine h signOffMeanwhile s ?_ hrun
    intro i task hmem
    simp only [signOffMeanwhile, readCrosses, signUpTwo, goOn, List.append_assoc, List.mem_append,
      List.mem_cons, List.mem_replicate, Prod.mk.injEq, reduceCtorEq, and_false,
      Option.some.injEq, List.not_mem_nil, or_false, false_or] at hmem
    obtain ⟨-, rfl⟩ | ⟨-, rfl⟩ | ⟨-, rfl⟩ | ⟨-, rfl⟩ := hmem
    · exact .request 0 _
    · exact .request 0 _
    · exact .read 3 _
    · exact .request 0 _
  simp [horder.exit 0 _ _ _ hp] at hheld

-- Then the counters of `a` are negative, and a reader and a writer get in together.
example :
    ((newServer.exec (signOffMeanwhile ++ goOn 0 1)).any fun s =>
        (s.sync (.device 1)).readers = -1 ∧ (s.sync (.device 1)).runningReaders = -1) = true ∧
      ((newServer.exec (signOffMeanwhile ++ readAndWrite)).any fun s =>
        (s.thread 0).held (.device 1) = some .read ∧
          (s.thread 1).held (.device 1) = some .write) = true := by
  decide +kernel

end Instances

end Server
end Obix
