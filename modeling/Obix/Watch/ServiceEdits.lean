import Obix.Utils.RegionBalance
import Obix.Watch.Service

/-!
# Who may change the set of watches

`watchset->watches` and the children below `/obix/watchService` are looked at in the read
region of the watch service.  `watch_del` and `delete_watch_task` change them in its write
region, but `watch_create` changes them in the read region.  Nobody looks at them or changes
them at the same time as somebody who changes them in the runs in which `watch_create` is
alone in the read region and the walks of `watch_set_copy_uri` give back the regions
(`service_edits_alone`).

The watch service is not being shut down; that an entry is refused is modelled all the same.
-/

namespace Obix
namespace Watches

open CString

/-- What a thread does as far as the set of watches is concerned. -/
inductive Instr
  | enter (m : Mode)
  | leave (m : Mode)
  /-- A look at `watchset->watches` or at the children below `/obix/watchService`. -/
  | look
  /-- An insertion or a removal there. -/
  | edit
  deriving DecidableEq, Repr

/-- What an event of a walk is to the set of watches.  After an entry the walk looks for a
node or for the next child. -/
def Event.instrs : Event → List Instr
  | enterSet => [.enter .read, .look]
  | leaveSet => [.leave .read]
  | copy (some (.watch _)) => []
  | copy _ => [.look]
  | _ => []

/-- The operations on the set of watches. -/
inductive SetOp
  /-- `watch_create`; `xmldb_put_node` may fail. -/
  | make (registered : Bool)
  /-- `watch_search_helper`. -/
  | lookup
  /-- `watch_del`; whether there is such a watch that nobody else has begun to delete. -/
  | delete (won : Bool)
  /-- `delete_watch_task`, likewise. -/
  | expire (won : Bool)
  /-- `watch_set_copy_uri`; `root` is the tree and `down` are the watches being shut down as
  the walk finds them. -/
  | read (flags : CopyFlags) (down : Nat → Bool) (root : XmlNode Owner) (href : Text)

/-- A search of `watchset->watches`. -/
def searchScript : List Instr := [.enter .read, .look, .leave .read]

/-- The node and the watch are taken away. -/
def removalScript : List Instr := [.enter .write, .edit, .edit, .leave .write]

/-- What an operation does. -/
def SetOp.script : SetOp → List Instr
  | make registered =>
      if registered then [.enter .read, .edit, .edit, .leave .read]
      else [.enter .read, .edit, .leave .read]
  | lookup => searchScript
  | delete won => if won then searchScript ++ removalScript else searchScript
  | expire won => if won then removalScript else []
  | read flags down root href => (watchSetCopyUri flags down root href).2.flatMap Event.instrs

/-- Whether an operation is `watch_create`. -/
def SetOp.isMake : SetOp → Bool
  | make _ => true
  | _ => false

/-- A thread: whether it is in `watch_create`, the rest of its operation, whether it is in the
waiting loop of the entry at its head, and the region it is inside of. -/
structure Worker where
  making : Bool
  script : List Instr
  waiting : Bool
  inside : Option Mode
  deriving DecidableEq, Repr

def Worker.idle : Worker :=
  { making := false, script := [], waiting := false, inside := none }

/-- The `tsync_t` of the watch service and the threads. -/
structure Service (ι : Type) where
  sync : Tsync
  worker : ι → Worker

namespace Service

variable {ι : Type}

def init : Service ι :=
  { sync := Tsync.init, worker := fun _ => Worker.idle }

/-- A thread is inserting or removing. -/
def Editing (s : Service ι) (i : ι) : Prop :=
  (s.worker i).script.head? = some .edit

/-- A thread is traversing. -/
def Traversing (s : Service ι) (i : ι) : Prop :=
  (s.worker i).script.head? = some .look

/-- Nobody else inserts, removes or traverses while a thread inserts or removes. -/
def EditsAlone (s : Service ι) : Prop :=
  ∀ i j, i ≠ j → s.Editing i → ¬ s.Editing j ∧ ¬ s.Traversing j

variable [DecidableEq ι]

/-- One atomic step of a thread; `none` if it has to wait or has nothing to do. -/
def proceed (s : Service ι) (i : ι) : Option (Service ι) :=
  let w := s.worker i
  match w.script with
  | [] => none
  | .enter m :: rest =>
      if w.waiting then
        (s.sync.grant m).map fun sync =>
          { sync := sync
            worker := Function.update s.worker i
              { w with script := rest, waiting := false, inside := some m } }
      else
        match s.sync.request m with
        | none => some { s with worker := Function.update s.worker i { w with script := [] } }
        | some sync =>
            some
              { sync := sync
                worker := Function.update s.worker i { w with waiting := true } }
  | .leave m :: rest =>
      some
        { sync := s.sync.leave m
          worker := Function.update s.worker i { w with script := rest, inside := none } }
  | .look :: rest => some { s with worker := Function.update s.worker i { w with script := rest } }
  | .edit :: rest => some { s with worker := Function.update s.worker i { w with script := rest } }

/-- Begin an operation in an idle thread. -/
def start (s : Service ι) (i : ι) (op : SetOp) : Option (Service ι) :=
  match (s.worker i).script with
  | [] =>
      some
        { s with
          worker := Function.update s.worker i
            { s.worker i with making := op.isMake, script := op.script } }
  | _ :: _ => none

/-- A step of the system: a thread begins an operation or goes on with its own. -/
def act (s : Service ι) (i : ι) : Option SetOp → Option (Service ι)
  | none => s.proceed i
  | some op => s.start i op

/-- A run of the system. -/
def exec : Service ι → List (ι × Option SetOp) → Option (Service ι)
  | s, [] => some s
  | s, (i, a) :: rest => (s.act i a).bind fun s' => s'.exec rest

/-- A thread that is about to be let into the read region finds nobody in the region if it is
in `watch_create`, and nobody who is in `watch_create`. -/
def Spaced (s : Service ι) (i : ι) : Prop :=
  (s.worker i).waiting = true → (s.worker i).script.head? = some (.enter .read) →
    ∀ j, j ≠ i → ((s.worker i).making = true ∨ (s.worker j).making = true) →
      (s.worker j).inside = none

/-- The walk of a read gives back what it takes. -/
def Tidy : SetOp → Prop
  | .read flags down root href =>
      ∀ node level, watchSetGetNodeCore root href = some (node, level) →
        Harmless flags down level 0 node
  | _ => True

/-- Every step of a run goes well: `watch_create` has the read region for itself, and the
reads are tidy. -/
def Orderly : Service ι → List (ι × Option SetOp) → Prop
  | _, [] => True
  | s, (i, a) :: rest =>
      (a = none → s.Spaced i) ∧ (∀ op ∈ a, Tidy op) ∧ ∀ s' ∈ s.act i a, s'.Orderly rest

end Service

section Scripts

/-- A script of a thread that is inside of a region, or of none: it looks and edits only
inside, and edits only in the write region unless it is the script of `watch_create`. -/
def Nested (making : Bool) : Option Mode → List Instr → Prop
  | inside, [] => inside = none
  | inside, .enter m :: rest => inside = none ∧ Nested making (some m) rest
  | inside, .leave m :: rest => inside = some m ∧ Nested making none rest
  | inside, .look :: rest => inside ≠ none ∧ Nested making inside rest
  | inside, .edit :: rest =>
      (inside = some .write ∨ making = true ∧ inside = some .read) ∧ Nested making inside rest

/-- Events that begin and end in the read region of the watch service. -/
def Calm (events : List Event) : Prop :=
  ∀ making rest, Nested making (some .read) rest →
    Nested making (some .read) (events.flatMap Event.instrs ++ rest)

variable {flags : CopyFlags} {down : Nat → Bool} {level size : Nat} {owner : Option Owner}
  {skip : Bool} {copy : Xml} {inner : List Event}

theorem calm_nil : Calm [] := fun _ _ h => h

theorem calm_append
    {events others : List Event}
    (h : Calm events)
    (h' : Calm others) :
    Calm (events ++ others) := by
  intro making rest hrest
  rw [List.flatMap_append, List.append_assoc]
  exact h making _ (h' making rest hrest)

theorem calm_copyAround
    (hat : FreeOfHarm down level owner skip size)
    (hempty : size = 0 → inner = [])
    (hinner : skip = false → Calm inner) :
    Calm (copyAround down level owner skip size copy inner).2 := by
  intro making rest hrest
  unfold copyAround
  split
  · rename_i hcross
    unfold copyBody
    split
    · rw [getOut, if_neg (by simp [hcross])]
      exact hrest
    · rename_i hskip
      have hskip : skip = false := by simpa using hskip
      obtain ⟨howner, hnone⟩ := hat.not_watch hcross hskip
      have hlook : (Event.copy owner).instrs = [.look] := by
        unfold Event.instrs
        split
        · rename_i id heq
          cases heq
        · rename_i heq
          cases heq
        · rename_i id heq
          exact absurd (Event.copy.inj heq) (howner id)
        · rfl
        · rename_i hother
          exact absurd rfl (hother owner)
      rw [getOut, if_neg (by simp [hnone]), List.append_nil, List.flatMap_cons, hlook]
      exact ⟨by simp, hinner hskip making rest hrest⟩
  · rename_i id hcross
    obtain ⟨rfl, rfl⟩ := crossed_eq_some hcross
    obtain ⟨hdown, hsize⟩ := hat id rfl
    rw [if_neg (by simp [hdown rfl])]
    -- out of the read region, into the watch and back again
    have hback : Nested making none ([.enter .read, .look] ++ rest) :=
      ⟨rfl, by simp, hrest⟩
    unfold copyBody
    split
    · rw [getOut, if_pos (by simp [hcross])]
      exact ⟨rfl, hback⟩
    · rename_i hskip
      obtain ⟨-, hzero⟩ := hsize.resolve_left hskip
      rw [hempty hzero, hzero, Nat.add_zero, getOut, if_pos (by simp [hcross])]
      exact ⟨rfl, hback⟩

mutual

theorem Harmless.calm (level depth : Nat) :
    ∀ node, Harmless flags down level depth node →
      Calm (watchSetCopyNode flags down level depth node).2
  | .element o name attrs cs, h => by
      simp only [Harmless] at h
      simp only [watchSetCopyNode]
      refine calm_copyAround ((harmlessAt_iff _ _ _).mp h.1) ?_ fun hskip => ?_
      · intro hsize
        rw [List.length_eq_zero_iff.mp hsize]
        rfl
      · exact HarmlessAll.calm level depth cs (h.2 hskip)
  | .text o content, h => by
      simp only [Harmless] at h
      simp only [watchSetCopyNode]
      exact calm_copyAround ((harmlessAt_iff _ _ _).mp h) (fun _ => rfl) fun _ => calm_nil
  | .comment o content, h => by
      simp only [Harmless] at h
      simp only [watchSetCopyNode]
      exact calm_copyAround ((harmlessAt_iff _ _ _).mp h) (fun _ => rfl) fun _ => calm_nil

theorem HarmlessAll.calm (level depth : Nat) :
    ∀ nodes, HarmlessAll flags down level depth nodes →
      Calm (copyChildren flags down level depth nodes).2
  | [], _ => calm_nil
  | node :: rest, h => by
      simp only [HarmlessAll] at h
      simp only [copyChildren]
      exact calm_append (Harmless.calm (level + 1) (depth + 1) node h.1)
        (HarmlessAll.calm (level + 1) (depth + 1) rest h.2)

end

/-- The script of a tidy operation is well nested. -/
theorem nested_script
    (op : SetOp)
    (h : Service.Tidy op) :
    Nested op.isMake none op.script := by
  cases op with
  | make registered => cases registered <;> simp [SetOp.script, SetOp.isMake, Nested]
  | lookup => simp [SetOp.script, searchScript, Nested]
  | delete won => cases won <;> simp [SetOp.script, searchScript, removalScript, Nested]
  | expire won => cases won <;> simp [SetOp.script, removalScript, Nested]
  | read flags down root href =>
      have hwalk : Calm ((watchSetGetNodeCore root href).elim (none, []) fun x =>
          watchSetCopyNode flags down x.2 0 x.1).2 := by
        cases hfound : watchSetGetNodeCore root href with
        | none => exact calm_nil
        | some x => exact Harmless.calm x.2 0 x.1 (h x.1 x.2 hfound)
      simp only [SetOp.script, watchSetCopyUri, List.flatMap_append, List.append_assoc]
      exact ⟨rfl, by simp, hwalk false [.leave .read] ⟨rfl, rfl⟩⟩

end Scripts

section Runs

variable {ι : Type}

/-- Where a thread is with respect to the watch service. -/
def Worker.phase (w : Worker) : Phase :=
  match w.waiting, w.script with
  | true, .enter m :: _ => m.waiting
  | _, _ => (w.inside.map Mode.running).getD .out

/-- Every thread runs a nested script, the counters count the threads, and a thread in
`watch_create` is alone inside of the regions. -/
structure Service.Kept [Fintype ι] (s : Service ι) : Prop where
  nested : ∀ i, Nested (s.worker i).making (s.worker i).inside (s.worker i).script
  waiting : ∀ i, (s.worker i).waiting = true → ∃ m rest, (s.worker i).script = .enter m :: rest
  tracked : Tracked s.sync fun i => (s.worker i).phase
  exclusive : Exclusive fun i => (s.worker i).phase
  alone : ∀ i j, j ≠ i → (s.worker i).making = true → (s.worker i).inside ≠ none →
    (s.worker j).inside = none

variable [Fintype ι] {s s' : Service ι} {i : ι}

theorem Service.kept_init : (Service.init : Service ι).Kept := by
  constructor
  · intro i
    rfl
  · intro i hw
    cases hw
  · exact tracked_init
  · exact exclusive_init
  · intro i j _ hm
    cases hm

theorem Worker.phase_of_not_waiting
    {w : Worker}
    (h : w.waiting = false) :
    w.phase = (w.inside.map Mode.running).getD .out := by
  simp [Worker.phase, h]

/-- A thread inside of a region is in the phase of the region. -/
theorem Service.Kept.phase_of_inside
    {m : Mode}
    (h : s.Kept)
    (hin : (s.worker i).inside = some m) :
    (s.worker i).phase = m.running := by
  have hw : (s.worker i).waiting = false := by
    by_contra hw
    obtain ⟨m', rest, hs⟩ := h.waiting i (by simpa using hw)
    have hn := h.nested i
    rw [hs, hin] at hn
    cases hn.1
  rw [Worker.phase_of_not_waiting hw, hin]
  rfl

/-- Nobody else is inside of the regions with a thread in the write region. -/
theorem Service.Kept.not_inside
    {j : ι}
    (h : s.Kept)
    (hi : (s.worker i).inside = some .write)
    (hj : j ≠ i) :
    (s.worker j).inside = none := by
  by_contra hne
  obtain ⟨m, hm⟩ := Option.ne_none_iff_exists'.mp hne
  refine hj (h.exclusive i j (h.phase_of_inside hi) ?_).symm
  cases m with
  | read => exact .inl (h.phase_of_inside hm)
  | write => exact .inr (h.phase_of_inside hm)

theorem Service.Kept.editsAlone (h : s.Kept) : s.EditsAlone := by
  intro i j hij hi
  have hn := h.nested i
  obtain ⟨rest, hs⟩ := List.head?_eq_some_iff.mp hi
  rw [hs] at hn
  have hout : (s.worker j).inside = none := by
    rcases hn.1 with hw | ⟨hmake, hr⟩
    · exact h.not_inside hw (Ne.symm hij)
    · exact h.alone i j (Ne.symm hij) hmake (by simp [hr])
  have hj := h.nested j
  rw [hout] at hj
  constructor
  · intro hedit
    obtain ⟨rest', hs'⟩ := List.head?_eq_some_iff.mp hedit
    rw [hs'] at hj
    simp [Nested] at hj
  · intro hlook
    obtain ⟨rest', hs'⟩ := List.head?_eq_some_iff.mp hlook
    rw [hs'] at hj
    exact hj.1 rfl

variable [DecidableEq ι]

/-- One thread has moved. -/
theorem Service.Kept.move
    {w : Worker}
    (h : s.Kept)
    (hworker : s'.worker = Function.update s.worker i w)
    (hnested : Nested w.making w.inside w.script)
    (hwaiting : w.waiting = true → ∃ m rest, w.script = .enter m :: rest)
    (hstep : TsyncStep s.sync (s.worker i).phase s'.sync w.phase ∨
      s'.sync = s.sync ∧ w.phase = (s.worker i).phase)
    (halone : w.inside ≠ none → ∀ j, j ≠ i → w.making = true ∨ (s.worker j).making = true →
      (s.worker j).inside = none) :
    s'.Kept := by
  have hmine : s'.worker i = w := by simp [hworker]
  have hother : ∀ j, j ≠ i → s'.worker j = s.worker j := by
    intro j hj
    rw [hworker, Function.update_of_ne hj]
  have hphase : (fun j => (s'.worker j).phase) =
      Function.update (fun j => (s.worker j).phase) i w.phase := by
    rw [hworker]
    exact Function.comp_update Worker.phase s.worker i w
  constructor
  · intro j
    by_cases hj : j = i
    · rw [hj, hmine]
      exact hnested
    · rw [hother j hj]
      exact h.nested j
  · intro j
    by_cases hj : j = i
    · rw [hj, hmine]
      exact hwaiting
    · rw [hother j hj]
      exact h.waiting j
  · rw [hphase]
    rcases hstep with hstep | ⟨hsync, hsame⟩
    · exact h.tracked.step hstep
    · rw [hsame, hsync, Function.update_eq_self i fun j => (s.worker j).phase]
      exact h.tracked
  · rw [hphase]
    rcases hstep with hstep | ⟨-, hsame⟩
    · exact h.exclusive.step h.tracked hstep
    · rw [hsame, Function.update_eq_self i fun j => (s.worker j).phase]
      exact h.exclusive
  · intro a b hba hmake hin
    by_cases ha : a = i
    · subst ha
      rw [hmine] at hmake hin
      rw [hother b hba]
      exact halone hin b hba (.inl hmake)
    · rw [hother a ha] at hmake hin
      by_cases hb : b = i
      · rw [hb, hmine]
        by_contra hne
        exact hin (halone hne a ha (.inr hmake))
      · rw [hother b hb]
        exact h.alone a b hba hmake hin

theorem Service.Kept.start
    {op : SetOp}
    (h : s.Kept)
    (htidy : Service.Tidy op)
    (hstep : s.start i op = some s') :
    s'.Kept := by
  have hn := h.nested i
  unfold Service.start at hstep
  split at hstep
  · rename_i hs
    obtain rfl := Option.some.inj hstep
    rw [hs] at hn
    have hidle : (s.worker i).waiting = false := by
      by_contra hw
      obtain ⟨m, rest, hs'⟩ := h.waiting i (by simpa using hw)
      simp [hs] at hs'
    refine h.move rfl ?_ ?_ (.inr ⟨rfl, ?_⟩) ?_
    · show Nested op.isMake (s.worker i).inside op.script
      rw [show (s.worker i).inside = none from hn]
      exact nested_script op htidy
    · intro hw
      simp [hidle] at hw
    · rw [Worker.phase_of_not_waiting hidle, Worker.phase_of_not_waiting (by exact hidle)]
    · intro hin
      exact absurd hn hin
  · cases hstep

theorem Service.Kept.proceed
    (h : s.Kept)
    (hspaced : s.Spaced i)
    (hstep : s.proceed i = some s') :
    s'.Kept := by
  have hn := h.nested i
  unfold Service.proceed at hstep
  cases hs : (s.worker i).script with
  | nil => simp [hs] at hstep
  | cons instr rest =>
      rw [hs] at hn
      -- a thread that is in no waiting loop
      have hquiet : (∀ m, instr ≠ .enter m) → (s.worker i).waiting = false := by
        intro hne
        by_contra hw
        obtain ⟨m, rest', hs'⟩ := h.waiting i (by simpa using hw)
        rw [hs] at hs'
        exact hne m (List.cons.inj hs').1
      -- a thread that has gone on to its next instruction
      have hgoOn : (∀ m, instr ≠ .enter m) →
          Nested (s.worker i).making (s.worker i).inside rest →
          s' = { s with worker := Function.update s.worker i { s.worker i with script := rest } } →
          s'.Kept := by
        intro hne hnext heq
        have hw := hquiet hne
        subst heq
        refine h.move rfl hnext ?_ (.inr ⟨rfl, ?_⟩) ?_
        · intro hw'
          simp [hw] at hw'
        · rw [Worker.phase_of_not_waiting hw, Worker.phase_of_not_waiting (by exact hw)]
        · intro hin j hj hmake
          rcases hmake with hmake | hmake
          · exact h.alone i j hj hmake hin
          · by_contra hne'
            exact hin (h.alone j i (Ne.symm hj) hmake hne')
      cases instr with
      | enter m =>
          obtain ⟨hin, hnext⟩ := hn
          cases hw : (s.worker i).waiting with
          | true =>
              simp only [hs, hw, if_true] at hstep
              obtain ⟨sync, hgrant, rfl⟩ := Option.map_eq_some_iff.mp hstep
              have hbefore : (s.worker i).phase = m.waiting := by simp [Worker.phase, hw, hs]
              have hgranted : TsyncStep s.sync (s.worker i).phase sync m.running := by
                rw [hbefore]
                exact .grant hgrant
              refine h.move rfl hnext (fun hw' => by cases hw') (.inl ?_) ?_
              · exact hgranted
              · intro _ j hj hmake
                cases m with
                | read => exact hspaced hw (by simp [hs]) j hj hmake
                | write =>
                    -- the write region is granted to one thread only
                    have hex := h.exclusive.step h.tracked hgranted
                    by_contra hne
                    obtain ⟨m', hm'⟩ := Option.ne_none_iff_exists'.mp hne
                    have hphase := h.phase_of_inside hm'
                    refine hj (hex i j (by simp [Mode.running]) ?_).symm
                    rw [Function.update_of_ne hj, hphase]
                    cases m' with
                    | read => exact .inl rfl
                    | write => exact .inr rfl
          | false =>
              simp only [hs, hw, Bool.false_eq_true, if_false] at hstep
              have hbefore : (s.worker i).phase = .out := by
                rw [Worker.phase_of_not_waiting hw, hin]
                rfl
              cases hreq : s.sync.request m with
              | none =>
                  simp only [hreq, Option.some.injEq] at hstep
                  subst hstep
                  refine h.move rfl hin (fun hw' => by cases hw') (.inr ⟨rfl, ?_⟩)
                    fun hne => absurd hin hne
                  rw [hbefore, Worker.phase_of_not_waiting (by rfl)]
                  simp [hin]
              | some sync =>
                  simp only [hreq, Option.some.injEq] at hstep
                  subst hstep
                  refine h.move rfl ⟨hin, hnext⟩ (fun _ => ⟨m, rest, rfl⟩) (.inl ?_)
                    fun hne => absurd hin hne
                  rw [hbefore]
                  exact .request hreq
      | leave m =>
          obtain ⟨hin, hnext⟩ := hn
          have hw := hquiet (by simp)
          simp only [hs, Option.some.injEq] at hstep
          subst hstep
          refine h.move rfl hnext (fun hw' => by simp [hw] at hw') (.inl ?_)
            fun hne => absurd rfl hne
          rw [Worker.phase_of_not_waiting hw, Worker.phase_of_not_waiting (by exact hw)]
          simpa [hin] using TsyncStep.leave s.sync m
      | look =>
          simp only [hs, Option.some.injEq] at hstep
          exact hgoOn (by simp) hn.2 hstep.symm
      | edit =>
          simp only [hs, Option.some.injEq] at hstep
          exact hgoOn (by simp) hn.2 hstep.symm

/-- A run in which every step goes well. -/
theorem Service.Kept.exec
    {acts : List (ι × Option SetOp)}
    (h : s.Kept)
    (horderly : s.Orderly acts)
    (hrun : s.exec acts = some s') :
    s'.Kept := by
  induction acts generalizing s with
  | nil =>
      obtain rfl := Option.some.inj hrun
      exact h
  | cons x rest ih =>
      obtain ⟨i, a⟩ := x
      obtain ⟨hspaced, htidy, hrest⟩ := horderly
      obtain ⟨mid, hact, hrun⟩ := Option.bind_eq_some_iff.mp hrun
      refine ih ?_ (hrest mid hact) hrun
      cases a with
      | none => exact h.proceed (hspaced rfl) hact
      | some op => exact h.start (htidy op rfl) hact

/-- While a thread changes the set of watches nobody else changes it or looks at it, in every
run in which `watch_create` has the read region for itself and the reads are tidy. -/
theorem service_edits_alone
    (acts : List (ι × Option SetOp))
    (s : Service ι)
    (horderly : Service.init.Orderly acts)
    (hrun : Service.init.exec acts = some s) :
    s.EditsAlone :=
  (Service.kept_init.exec horderly hrun).editsAlone

/-- One thread is in the middle of `watch_create` and another one waits to be let in. -/
def makeThenDelete : List (Fin 2 × Option SetOp) :=
  [(0, some (.make true)), (0, none), (1, some (.delete true)), (1, none), (0, none)]

theorem service_edits_alone_make :
    ∃ s : Service (Fin 2), Service.init.exec makeThenDelete = some s ∧ s.Editing 0 ∧
      (s.worker 1).waiting = true ∧ s.EditsAlone := by
  refine ⟨_, rfl, rfl, rfl, service_edits_alone makeThenDelete _ ?_ rfl⟩
  refine ⟨by simp, by simp [Service.Tidy], ?_⟩
  rintro _ ⟨⟩
  refine ⟨fun _ => ?_, by simp, ?_⟩
  · unfold Service.Spaced
    decide
  rintro _ ⟨⟩
  refine ⟨by simp, by simp [Service.Tidy], ?_⟩
  rintro _ ⟨⟩
  refine ⟨fun _ => ?_, by simp, ?_⟩
  · unfold Service.Spaced
    decide
  rintro _ ⟨⟩
  refine ⟨fun _ => ?_, by simp, ?_⟩
  · unfold Service.Spaced
    decide
  rintro _ ⟨⟩
  trivial

/-- Two threads are in `watch_create` at the same time. -/
def twoMakes : List (Fin 2 × Option SetOp) :=
  [(0, some (.make true)), (0, none), (0, none), (1, some (.make true)), (1, none), (1, none)]

theorem twoMakes_edit_both :
    ¬ ∀ (acts : List (Fin 2 × Option SetOp)) (s : Service (Fin 2)),
      Service.init.exec acts = some s → s.EditsAlone := by
  intro h
  exact (h twoMakes _ rfl 0 1 (by decide) rfl).1 rfl

end Runs

end Watches
end Obix
