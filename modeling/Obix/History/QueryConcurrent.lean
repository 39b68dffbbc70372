import Obix.History.Append
import Obix.History.QueryAlone
import Obix.History.QueryAnswer
import Obix.Utils.Tsync

/-!
# Concurrent queries and appends

Threads of the server handle History.Query and History.Append requests on any
number of facilities.  A query holds the read region of its facility, an append
the write region; entering and leaving a region, every round of the record loop
of `parse_log` and the body of an append are atomic steps.  The static buffers of
`parse_log` are shared by all of them.

Readers of one facility, and those of different ones, are not kept apart by any
region.  A query is answered as if it were alone when no two queries are in
`parse_log` at the same time (`answered_alone`).
-/

namespace Obix
namespace History

open CString

/-- What a thread of the server is doing; `entry` is the facility at the moment the
query entered the read region. -/
inductive Worker (φ : Type)
  | idle
  | queryWait (fac : φ) (input : Xml)
  | querying
      (fac : φ)
      (input : Xml)
      (entry : HistDev)
      (prog : Resumption HistDev ParseStatics QueryReply)
  | answered (input : Xml) (entry : HistDev) (reply : QueryReply)
  | appendWait (fac : φ) (input : Xml)
  | appending (fac : φ) (input : Xml)
  | appended (fac : φ) (reply : AppendReply)
  | finished (reply : AppendReply)

/-- The history subsystem: the facilities with their `sync` objects, the static
buffers of `parse_log`, and the threads. -/
structure Server (ι φ : Type) where
  dev : φ → HistDev
  sync : φ → Tsync
  statics : ParseStatics
  worker : ι → Worker φ

/-- The next step of a thread. -/
inductive Action (φ : Type)
  /-- Start to handle a History.Query request. -/
  | query (fac : φ) (input : Xml)
  /-- Start to handle a History.Append request. -/
  | append (fac : φ) (input : Xml)
  /-- Go on; `io` are the faults an append meets. -/
  | proceed (io : IoFaults)

section Steps

variable {ι φ : Type} [DecidableEq φ]

/-- Whether a thread can take a new request. -/
def Worker.free : Worker φ → Bool
  | idle | answered .. | finished .. => true
  | _ => false

/-- Whether a thread is inside `parse_log`. -/
def Worker.parsing : Worker φ → Bool
  | querying _ _ _ prog => prog.inside
  | _ => false

/-- Where a thread is with respect to the `sync` object of a facility. -/
def Worker.phase (w : Worker φ) (f : φ) : Phase :=
  match w with
  | idle | answered .. | finished .. => .out
  | queryWait g _ => if f = g then .waitRead else .out
  | querying g .. => if f = g then .read else .out
  | appendWait g _ => if f = g then .waitWrite else .out
  | appending g _ | appended g _ => if f = g then .write else .out

theorem Worker.phase_of_free
    {w : Worker φ}
    (h : w.free = true)
    (f : φ) :
    w.phase f = .out := by
  cases w with
  | idle => rfl
  | answered => rfl
  | finished => rfl
  | queryWait => cases h
  | querying => cases h
  | appendWait => cases h
  | appending => cases h
  | appended => cases h

variable [DecidableEq ι]

/-- A thread at a `sync` object. -/
def Server.enter
    (s : Server ι φ)
    (i : ι)
    (f : φ)
    (w : Worker φ)
    (sync : Option Tsync) :
    Option (Server ι φ) :=
  sync.map fun sync' =>
    { s with
      sync := Function.update s.sync f sync'
      worker := Function.update s.worker i w }

/-- A thread with a request in hand goes on. -/
def Server.proceed
    (dump : Xml → Text)
    (io : IoFaults)
    (s : Server ι φ)
    (i : ι) :
    Option (Server ι φ) :=
  match s.worker i with
  | .idle | .answered .. | .finished .. => none
  | .queryWait f input =>
      s.enter i f (.querying f input (s.dev f) (histQueryCore dump input)) (s.sync f).readerGrant
  | .querying f input entry (.step _ upd next) =>
      some
        { s with
          statics := upd (s.dev f) s.statics
          worker := Function.update s.worker i
            (.querying f input entry (next (s.dev f) s.statics)) }
  | .querying f input entry (.ret reply) =>
      s.enter i f (.answered input entry reply) (some (s.sync f).readerExit)
  | .appendWait f input => s.enter i f (.appending f input) (s.sync f).writerGrant
  | .appending f input =>
      some
        { s with
          dev := Function.update s.dev f (histAppendDev io (s.dev f) input).1
          worker := Function.update s.worker i
            (.appended f (histAppendDev io (s.dev f) input).2) }
  | .appended f reply => s.enter i f (.finished reply) (some (s.sync f).writerExit)

/-- One atomic step of a thread; `none` if it has to wait. -/
def Server.act
    (dump : Xml → Text)
    (s : Server ι φ)
    (i : ι) :
    Action φ → Option (Server ι φ)
  | .query f input =>
      if (s.worker i).free then s.enter i f (.queryWait f input) (s.sync f).readerRequest
      else none
  | .append f input =>
      if (s.worker i).free then s.enter i f (.appendWait f input) (s.sync f).writerRequest
      else none
  | .proceed io => s.proceed dump io i

/-- A run of the system. -/
def Server.exec (dump : Xml → Text) : Server ι φ → List (ι × Action φ) → Option (Server ι φ)
  | s, [] => some s
  | s, (i, a) :: rest => (s.act dump i a).bind fun s' => s'.exec dump rest

end Steps

/-- No request is being handled. -/
structure Server.Initial {ι φ : Type} (s : Server ι φ) : Prop where
  sync : s.sync = fun _ => Tsync.init
  worker : s.worker = fun _ => .idle

/-- At most one thread is inside `parse_log`. -/
def Server.OneParses {ι φ : Type} (s : Server ι φ) : Prop :=
  ∀ i j, (s.worker i).parsing = true → (s.worker j).parsing = true → i = j

/-- At most one thread is inside `parse_log` whenever a step of the run begins. -/
def Server.Orderly
    {ι φ : Type} [DecidableEq ι] [DecidableEq φ]
    (dump : Xml → Text) :
    Server ι φ → List (ι × Action φ) → Prop
  | _, [] => True
  | s, (i, a) :: rest =>
      s.OneParses ∧ ∀ s' ∈ s.act dump i a, s'.Orderly dump rest

instance {ι φ : Type} [Fintype ι] [DecidableEq ι] :
    DecidablePred (Server.OneParses : Server ι φ → Prop) :=
  fun s => inferInstanceAs (Decidable (∀ i j, (s.worker i).parsing = true → _ → i = j))

instance Server.decidableOrderly
    {ι φ : Type} [Fintype ι] [DecidableEq ι] [DecidableEq φ]
    (dump : Xml → Text) :
    (s : Server ι φ) → (acts : List (ι × Action φ)) → Decidable (s.Orderly dump acts)
  | _, [] => .isTrue trivial
  | s, (i, a) :: rest =>
      have : DecidablePred fun s' : Server ι φ => s'.Orderly dump rest :=
        fun s' => Server.decidableOrderly dump s' rest
      inferInstanceAs (Decidable (s.OneParses ∧ ∀ s' ∈ s.act dump i a, s'.Orderly dump rest))

section Invariant

variable {ι φ : Type} {dump : Xml → Text} {s s' : Server ι φ} {i : ι}

/-- A thread and its query: the facility has not changed since the query entered,
and the rest of the query still gives the reply it gives alone. -/
def Undisturbed (dump : Xml → Text) (s : Server ι φ) : Worker φ → Prop
  | .querying f input entry prog =>
      s.dev f = entry ∧ Resumption.Confined entry prog ∧
        ∀ st, Resumption.Tracks entry prog s.statics ((histQueryCore dump input).run entry st).1
  | .answered input entry reply =>
      ∀ st, reply = ((histQueryCore dump input).run entry st).1
  | _ => True

/-- A query is not disturbed by a step that leaves its facility alone and, while it
is inside `parse_log`, the buffers too. -/
theorem Undisturbed.mono
    {w : Worker φ}
    (h : Undisturbed dump s w)
    (hsame : ∀ f input entry prog, w = .querying f input entry prog →
      s'.dev f = s.dev f ∧ (prog.inside = true → s'.statics = s.statics)) :
    Undisturbed dump s' w := by
  cases w with
  | querying f input entry prog =>
      obtain ⟨hdev, hconf, htracks⟩ := h
      obtain ⟨hdev', hstatics⟩ := hsame f input entry prog rfl
      refine ⟨hdev'.trans hdev, hconf, ?_⟩
      intro st
      cases hin : prog.inside with
      | false => exact (htracks st).of_outside hin
      | true =>
          rw [hstatics hin]
          exact htracks st
  | idle => trivial
  | queryWait => trivial
  | answered => exact h
  | appendWait => trivial
  | appending => trivial
  | appended => trivial
  | finished => trivial

section Others

variable [DecidableEq ι]

/-- One thread takes a step, the others are not disturbed. -/
theorem undisturbed_update
    {w : Worker φ}
    (h : ∀ j, Undisturbed dump s (s.worker j))
    (hworker : s'.worker = Function.update s.worker i w)
    (hw : Undisturbed dump s' w)
    (hother : ∀ j f input entry prog, j ≠ i → s.worker j = .querying f input entry prog →
      s'.dev f = s.dev f ∧ (prog.inside = true → s'.statics = s.statics)) :
    ∀ j, Undisturbed dump s' (s'.worker j) := by
  intro j
  rw [hworker]
  by_cases hj : j = i
  · subst hj
    simpa using hw
  · rw [Function.update_of_ne hj]
    exact (h j).mono fun f input entry prog => hother j f input entry prog hj

variable [DecidableEq φ]

theorem phase_update (workers : ι → Worker φ) (i : ι) (w : Worker φ) :
    (fun j => (Function.update workers i w j).phase) =
      Function.update (fun j => (workers j).phase) i w.phase :=
  Function.comp_update Worker.phase workers i w

end Others

variable [Fintype ι] [DecidableEq φ]

structure ServerInv (dump : Xml → Text) (s : Server ι φ) : Prop where
  regulated : Regulated s.sync fun j => (s.worker j).phase
  undisturbed : ∀ j, Undisturbed dump s (s.worker j)

theorem ServerInv.init
    (h : s.Initial) :
    ServerInv dump s := by
  constructor
  · rw [h.sync, h.worker]
    exact regulated_init
  · intro j
    rw [h.worker]
    trivial

variable [DecidableEq ι]

/-- A thread goes on inside a region. -/
theorem regulated_body
    {w : Worker φ}
    (h : Regulated s.sync fun j => (s.worker j).phase)
    (hw : w.phase = (s.worker i).phase) :
    Regulated s.sync fun j => (Function.update s.worker i w j).phase := by
  rw [phase_update, hw, Function.update_eq_self]
  exact h

/-- A step at a `sync` object. -/
theorem ServerInv.enter
    {f : φ} {w : Worker φ} {sync : Option Tsync}
    (h : ServerInv dump s)
    (hstep : s.enter i f w sync = some s')
    (hsync : ∀ sync', sync = some sync' →
      TsyncStep (s.sync f) ((s.worker i).phase f) sync' (w.phase f))
    (hphase : ∀ g, g ≠ f → w.phase g = (s.worker i).phase g)
    (hw : Undisturbed dump s w) :
    ServerInv dump s' := by
  unfold Server.enter at hstep
  obtain ⟨sync', rfl, rfl⟩ := Option.map_eq_some_iff.mp hstep
  constructor
  · dsimp only
    rw [phase_update]
    exact h.regulated.step (hsync sync' rfl) hphase
  · refine undisturbed_update h.undisturbed rfl ?_ ?_
    · exact hw.mono fun _ _ _ _ _ => ⟨rfl, fun _ => rfl⟩
    · intro _ _ _ _ _ _ _
      exact ⟨rfl, fun _ => rfl⟩

/-- A step of a query.  Inside `parse_log` it writes the buffers, and then no other
query may be inside. -/
theorem ServerInv.queryStep
    {f : φ} {input : Xml} {entry : HistDev} {ins : Bool}
    {upd : HistDev → ParseStatics → ParseStatics}
    {next : HistDev → ParseStatics → Resumption HistDev ParseStatics QueryReply}
    (h : ServerInv dump s)
    (hone : s.OneParses)
    (hi : s.worker i = .querying f input entry (.step ins upd next)) :
    ServerInv dump
      { s with
        statics := upd (s.dev f) s.statics
        worker := Function.update s.worker i
          (.querying f input entry (next (s.dev f) s.statics)) } := by
  have hquery := h.undisturbed i
  rw [hi] at hquery
  obtain ⟨hdev, hconf, htracks⟩ := hquery
  refine ⟨regulated_body h.regulated ?_, undisturbed_update h.undisturbed rfl ?_ ?_⟩
  · rw [hi]
    rfl
  · refine ⟨hdev, ?_, ?_⟩
    · rw [hdev]
      exact hconf.2 s.statics
    · intro st
      dsimp only
      rw [hdev]
      exact (htracks st).step hconf
  · intro j g input' entry' prog hj hw
    refine ⟨rfl, ?_⟩
    intro hin
    cases ins with
    | false =>
        dsimp only
        rw [hdev]
        exact (hconf.1 rfl).1 s.statics
    | true =>
        refine absurd (hone j i ?_ ?_) hj
        · rw [hw]
          exact hin
        · rw [hi]
          rfl

/-- The body of an append: no query is in the read region of its facility. -/
theorem ServerInv.appendStep
    {f : φ} {input : Xml}
    (h : ServerInv dump s)
    (hi : s.worker i = .appending f input)
    (dev : HistDev)
    (reply : AppendReply) :
    ServerInv dump
      { s with
        dev := Function.update s.dev f dev
        worker := Function.update s.worker i (.appended f reply) } := by
  refine ⟨regulated_body h.regulated ?_, undisturbed_update h.undisturbed rfl ?_ ?_⟩
  · rw [hi]
    rfl
  · trivial
  · intro j g input' entry' prog hj hw
    have hg : g ≠ f := by
      rintro rfl
      refine hj (h.regulated.exclusive g i j ?_ (.inl ?_)).symm
      · simp [hi, Worker.phase]
      · simp [hw, Worker.phase]
    exact ⟨Function.update_of_ne hg _ _, fun _ => rfl⟩

theorem ServerInv.proceed
    {io : IoFaults}
    (h : ServerInv dump s)
    (hone : s.OneParses)
    (hstep : s.proceed dump io i = some s') :
    ServerInv dump s' := by
  unfold Server.proceed at hstep
  have hmine := h.undisturbed i
  cases hi : s.worker i with
  | idle => simp [hi] at hstep
  | answered => simp [hi] at hstep
  | finished => simp [hi] at hstep
  | queryWait f input =>
      simp only [hi] at hstep
      refine h.enter hstep ?_ ?_ ?_
      · intro sync' hgrant
        simpa [hi, Worker.phase] using TsyncStep.readerGrant hgrant
      · intro g hg
        simp [hi, Worker.phase, hg]
      · have hconf := histQueryCore_confined dump input (s.dev f)
        refine ⟨rfl, hconf, ?_⟩
        intro st
        refine hconf.tracks ?_
        exact (hconf.1 rfl).2 s.statics st
  | querying f input entry prog =>
      cases prog with
      | step ins upd next =>
          simp only [hi, Option.some.injEq] at hstep
          rw [← hstep]
          exact h.queryStep hone hi
      | ret reply =>
          simp only [hi] at hstep
          refine h.enter hstep ?_ ?_ ?_
          · rintro sync' ⟨rfl⟩
            simpa [hi, Worker.phase] using TsyncStep.readerExit
          · intro g hg
            simp [hi, Worker.phase, hg]
          · rw [hi] at hmine
            intro st
            exact (hmine.2.2 st).run_eq
  | appendWait f input =>
      simp only [hi] at hstep
      refine h.enter hstep ?_ ?_ trivial
      · intro sync' hgrant
        simpa [hi, Worker.phase] using TsyncStep.writerGrant hgrant
      · intro g hg
        simp [hi, Worker.phase, hg]
  | appending f input =>
      simp only [hi, Option.some.injEq] at hstep
      rw [← hstep]
      exact h.appendStep hi _ _
  | appended f reply =>
      simp only [hi] at hstep
      refine h.enter hstep ?_ ?_ trivial
      · rintro sync' ⟨rfl⟩
        simpa [hi, Worker.phase] using TsyncStep.writerExit
      · intro g hg
        simp [hi, Worker.phase, hg]

theorem ServerInv.act
    {a : Action φ}
    (h : ServerInv dump s)
    (hone : s.OneParses)
    (hstep : s.act dump i a = some s') :
    ServerInv dump s' := by
  cases a with
  | query f input =>
      simp only [Server.act, Option.ite_none_right_eq_some] at hstep
      obtain ⟨hfree, hstep⟩ := hstep
      refine h.enter hstep ?_ ?_ trivial
      · intro sync' hreq
        rw [Worker.phase_of_free hfree]
        simpa [Worker.phase] using TsyncStep.readerRequest hreq
      · intro g hg
        rw [Worker.phase_of_free hfree]
        simp [Worker.phase, hg]
  | append f input =>
      simp only [Server.act, Option.ite_none_right_eq_some] at hstep
      obtain ⟨hfree, hstep⟩ := hstep
      refine h.enter hstep ?_ ?_ trivial
      · intro sync' hreq
        rw [Worker.phase_of_free hfree]
        simpa [Worker.phase] using TsyncStep.writerRequest hreq
      · intro g hg
        rw [Worker.phase_of_free hfree]
        simp [Worker.phase, hg]
  | proceed io => exact h.proceed hone hstep

theorem ServerInv.exec
    {acts : List (ι × Action φ)}
    (h : ServerInv dump s)
    (horder : s.Orderly dump acts)
    (hrun : s.exec dump acts = some s') :
    ServerInv dump s' := by
  induction acts generalizing s with
  | nil =>
      obtain rfl : s = s' := Option.some.inj hrun
      exact h
  | cons step rest ih =>
      obtain ⟨i, a⟩ := step
      obtain ⟨t, hstep, hrest⟩ := Option.bind_eq_some_iff.mp hrun
      exact ih (h.act horder.1 hstep) (horder.2 t hstep) hrest

/-- In a run in which no two queries are in `parse_log` at the same time every
query is answered as if it had been alone on the facility it found. -/
theorem answered_alone
    {s₀ : Server ι φ} {acts : List (ι × Action φ)} {input : Xml} {entry : HistDev}
    {reply : QueryReply}
    (hinit : s₀.Initial)
    (horder : s₀.Orderly dump acts)
    (hrun : s₀.exec dump acts = some s)
    (hi : s.worker i = .answered input entry reply)
    (st : ParseStatics) :
    reply = ((histQueryCore dump input).run entry st).1 := by
  have h := ((ServerInv.init hinit).exec horder hrun).undisturbed i
  rw [hi] at h
  exact h st

end Invariant

section Instances

/-- Two threads and one facility with the two records of a day. -/
def dayServer : Server (Fin 2) Unit :=
  { dev := fun _ => dayDev
    sync := fun _ => Tsync.init
    statics := ⟨[], [], []⟩
    worker := fun _ => .idle }

theorem initial_dayServer : dayServer.Initial := ⟨rfl, rfl⟩

/-- A filter for the first record of the day. -/
def earlyFilter : Xml :=
  queryIn "2014-04-25T15:43:50Z".toList "2014-04-25T15:43:55Z".toList

/-- A filter for the second record of the day. -/
def lateFilter : Xml :=
  queryIn "2014-04-25T15:44:00Z".toList "2014-04-25T15:44:10Z".toList

/-- Steps of one thread. -/
def goOn (i : Fin 2) (steps : Nat) : List (Fin 2 × Action Unit) :=
  List.replicate steps (i, .proceed noFaults)

/-- Both threads are in the read region, and one is in `parse_log` after the other. -/
def queriesInTurn : List (Fin 2 × Action Unit) :=
  [(0, .query () earlyFilter), (1, .query () lateFilter)] ++ goOn 0 1 ++ goOn 1 2 ++ goOn 0 5 ++
    goOn 1 5 ++ goOn 0 1

/-- The second thread runs two rounds of the record loop between the first and the
second round of the first thread. -/
def queriesMixed : List (Fin 2 × Action Unit) :=
  [(0, .query () earlyFilter), (1, .query () lateFilter)] ++ goOn 0 1 ++ goOn 1 1 ++ goOn 0 3 ++
    goOn 1 4 ++ goOn 0 3

/-- Whether a query has been answered with a given result of a comparison with the
reply it gets alone. -/
def Worker.answeredWith {φ : Type} (same : Bool) : Worker φ → Bool
  | .answered input entry reply =>
      decide (reply = ((histQueryCore xmlDumpNode input).run entry ⟨[], [], []⟩).1) = same
  | _ => false

theorem Worker.answeredWith_eq_true
    {φ : Type} {same : Bool} {w : Worker φ}
    (h : w.answeredWith same = true) :
    ∃ input entry reply, w = .answered input entry reply ∧
      decide (reply = ((histQueryCore xmlDumpNode input).run entry ⟨[], [], []⟩).1) = same := by
  cases w with
  | answered input entry reply => exact ⟨input, entry, reply, rfl, by simpa [answeredWith] using h⟩
  | idle => cases h
  | queryWait => cases h
  | querying => cases h
  | appendWait => cases h
  | appending => cases h
  | appended => cases h
  | finished => cases h

/-- Two queries that take turns in `parse_log`. -/
theorem answered_alone_in_turn :
    ∃ s input entry reply,
      dayServer.exec xmlDumpNode queriesInTurn = some s ∧
      s.worker 0 = .answered input entry reply ∧
      reply = ((histQueryCore xmlDumpNode input).run entry ⟨[], [], []⟩).1 := by
  have horder : dayServer.Orderly xmlDumpNode queriesInTurn := by decide +kernel
  have hend : (dayServer.exec xmlDumpNode queriesInTurn).any
      (fun s => (s.worker 0).answeredWith true) = true := by
    decide +kernel
  obtain ⟨s, hrun, hs⟩ := (Option.any_eq_true _ _).mp hend
  obtain ⟨input, entry, reply, hw, -⟩ := Worker.answeredWith_eq_true hs
  exact ⟨s, input, entry, reply, hrun, hw,
    answered_alone initial_dayServer horder hrun hw ⟨[], [], []⟩⟩

/-- A query whose buffers are overwritten by another one is answered with other
timestamps. -/
theorem answered_otherwise_mixed :
    ∃ s input entry reply,
      dayServer.Initial ∧
      dayServer.exec xmlDumpNode queriesMixed = some s ∧
      s.worker 0 = .answered input entry reply ∧
      reply ≠ ((histQueryCore xmlDumpNode input).run entry ⟨[], [], []⟩).1 := by
  have hend : (dayServer.exec xmlDumpNode queriesMixed).any
      (fun s => (s.worker 0).answeredWith false) = true := by
    decide +kernel
  obtain ⟨s, hrun, hs⟩ := (Option.any_eq_true _ _).mp hend
  obtain ⟨input, entry, reply, hw, hne⟩ := Worker.answeredWith_eq_true hs
  exact ⟨s, input, entry, reply, initial_dayServer, hrun, hw, of_decide_eq_false hne⟩

end Instances

end History
end Obix
