import Obix.History.Query

/-!
# What a query needs of the static buffers

A query reads the static buffers of `parse_log` only after it has written them in
the same call of `parse_log`: its reply does not depend on what they hold when
the call begins (`histQueryCore_confined`).

`Agree` relates two runs of the record loop that started with different buffers.
As long as no record has been taken the buffers may differ; the item that is made
then is empty and refused, whatever its timestamps are.
-/

namespace Obix
namespace History

open CString

/-- Two states of the buffers that make no difference to the rest of `parse_log`. -/
structure Agree (args : ParseArgs) (loc : ParseLocal) (st st' : ParseStatics) : Prop where
  current : loc.useValPrev = false
  buffers : (loc.w = 0 ∧ loc.isStartSet = false) ∨
    (st.val = st'.val ∧
      (args.wantStart = true → loc.isStartSet = true ∧ st.logStart = st'.logStart))

/-- Two outcomes of `parse_log` that make no difference to the query. -/
def SameOutcome (o o' : ParseOutcome) : Prop :=
  o = o' ∨ ∃ res res', o = .ok res ∧ o' = .ok res' ∧ res.data = [] ∧ res'.data = []

variable {ρ : Type} {e : ρ} {args : ParseArgs} {loc loc' : ParseLocal} {st st' : ParseStatics}

theorem agree_parseStart (args : ParseArgs) (data : Text) (st st' : ParseStatics) :
    Agree args (parseStart data) st st' :=
  ⟨rfl, .inl ⟨rfl, rfl⟩⟩

theorem Agree.finish
    (h : Agree args loc st st') :
    SameOutcome ((parseFinish args loc).run e st).1 ((parseFinish args loc).run e st').1 := by
  rcases h.buffers with ⟨hw, -⟩ | ⟨hval, hstart⟩
  · exact .inr ⟨_, _, rfl, rfl, by simp [hw], by simp [hw]⟩
  · left
    simp only [parseFinish, Resumption.run_step, Resumption.run_ret, h.current,
      Bool.false_eq_true, if_false, hval]
    cases hwant : args.wantStart with
    | false => rfl
    | true => simp [(hstart hwant).2]

/-- `break` at a record behind the range: the end is the timestamp before. -/
theorem Agree.finish_prev
    (h : Agree args loc st st')
    (v : Text)
    (q : Nat) :
    SameOutcome
      ((parseFinish args { loc with n := q, useValPrev := true }).run e (st.copied v)).1
      ((parseFinish args { loc with n := q, useValPrev := true }).run e (st'.copied v)).1 := by
  rcases h.buffers with ⟨hw, -⟩ | ⟨hval, hstart⟩
  · exact .inr ⟨_, _, rfl, rfl, by simp [hw], by simp [hw]⟩
  · left
    simp only [parseFinish, Resumption.run_step, Resumption.run_ret, if_true,
      ParseStatics.copied, hval]
    cases hwant : args.wantStart with
    | false => rfl
    | true => simp [(hstart hwant).2]

theorem Agree.skip
    (h : Agree args loc st st')
    (v : Text)
    (q : Nat) :
    Agree args { loc with n := q } (st.copied v) (st'.copied v) := by
  refine ⟨h.current, ?_⟩
  rcases h.buffers with hnone | ⟨-, hstart⟩
  · exact .inl hnone
  · exact .inr ⟨rfl, hstart⟩

/-- A taken record leaves the same values in the buffers that are read later. -/
theorem Agree.take
    (h : Agree args loc st st')
    (v : Text)
    (p q : Nat) :
    Agree args (takeRecord args p q loc)
      (if loc.isStartSet = false ∧ args.wantStart = true then { st.copied v with logStart := v }
      else st.copied v)
      (if loc.isStartSet = false ∧ args.wantStart = true then { st'.copied v with logStart := v }
      else st'.copied v) := by
  refine ⟨h.current, .inr ?_⟩
  by_cases hset : loc.isStartSet = false ∧ args.wantStart = true
  · simp [hset, takeRecord, ParseStatics.copied]
  · rw [if_neg hset, if_neg hset]
    refine ⟨rfl, ?_⟩
    intro hwant
    rcases h.buffers with ⟨-, hno⟩ | ⟨-, hstart⟩
    · exact absurd ⟨hno, hwant⟩ hset
    · exact ⟨by simp [takeRecord, hwant], (hstart hwant).2⟩

/-- What a round of the record loop does from two states of the buffers. -/
theorem Agree.round_cases
    (h : Agree args loc st st') :
    ((parseRound args loc st).1 = .done ∧ (parseRound args loc st').1 = .done ∧
      (parseRound args loc st).2 = st ∧ (parseRound args loc st').2 = st') ∨
    (∃ loc', (parseRound args loc st).1 = .next loc' ∧ (parseRound args loc st').1 = .next loc' ∧
      Agree args loc' (parseRound args loc st).2 (parseRound args loc st').2) ∨
    (∃ loc', (parseRound args loc st).1 = .stop loc' ∧ (parseRound args loc st').1 = .stop loc' ∧
      ∀ e : ρ, SameOutcome
        ((parseFinish args loc').run e (parseRound args loc st).2).1
        ((parseFinish args loc').run e (parseRound args loc st').2).1) ∨
    ((parseRound args loc st).1 = .failed ∧ (parseRound args loc st').1 = .failed) ∨
    ((parseRound args loc st).1 = .overflow ∧ (parseRound args loc st').1 = .overflow) := by
  rcases parseRound_cases args loc with ⟨-, hround⟩ | hround | hround |
    ⟨v, q, -, hround | hround | ⟨p, hround⟩⟩
  · rw [hround, hround]
    exact .inl ⟨rfl, rfl, rfl, rfl⟩
  · exact .inr (.inr (.inr (.inl ⟨hround st, hround st'⟩)))
  · rw [hround, hround]
    exact .inr (.inr (.inr (.inr ⟨rfl, rfl⟩)))
  · rw [hround, hround]
    exact .inr (.inl ⟨_, rfl, rfl, h.skip v q⟩)
  · rw [hround, hround]
    exact .inr (.inr (.inl ⟨_, rfl, rfl, fun _ => h.finish_prev v q⟩))
  · have htake := h.take v p q
    rw [hround, hround]
    by_cases hlim : ((takeRecord args p q loc).r : Int) = args.limit
    · simp only [if_pos hlim]
      exact .inr (.inr (.inl ⟨_, rfl, rfl, fun _ => htake.finish⟩))
    · simp only [if_neg hlim]
      exact .inr (.inl ⟨_, rfl, rfl, htake⟩)

theorem parseLoop_same
    (fuel : Nat)
    (h : Agree args loc st st') :
    SameOutcome ((parseLoop fuel args loc).run e st).1 ((parseLoop fuel args loc).run e st').1 := by
  induction fuel generalizing loc st st' with
  | zero => exact .inl rfl
  | succ fuel ih =>
    simp only [parseLoop, Resumption.run_step]
    rcases @Agree.round_cases ρ _ _ _ _ h with ⟨hd, hd', hst, hst'⟩ | ⟨loc', hn, hn', hagree⟩ |
      ⟨loc', hs, hs', hsame⟩ | ⟨hf, hf'⟩ | ⟨ho, ho'⟩
    · rw [hd, hd', hst, hst']
      exact h.finish
    · rw [hn, hn']
      exact ih hagree
    · rw [hs, hs']
      exact hsame e
    · rw [hf, hf']
      exact .inl rfl
    · rw [ho, ho']
      exact .inl rfl

/-- What the buffers hold when `parse_log` is called makes no difference. -/
theorem parseLog_same (data : Text) (st st' : ParseStatics) :
    SameOutcome ((parseLog args data).run e st).1 ((parseLog args data).run e st').1 :=
  parseLoop_same _ (agree_parseStart args data st st')

theorem parseLoop_allInside
    (fuel : Nat)
    (args : ParseArgs)
    (loc : ParseLocal) :
    Resumption.AllInside e (parseLoop fuel args loc) := by
  induction fuel generalizing loc with
  | zero => trivial
  | succ fuel ih =>
    refine ⟨rfl, ?_⟩
    intro st
    dsimp only
    split
    · exact ⟨rfl, fun _ => trivial⟩
    · exact ih _
    · exact ⟨rfl, fun _ => trivial⟩
    · trivial
    · trivial

theorem queryNext_same
    {dev : HistDev}
    {next : QueryState → Resumption HistDev ParseStatics QueryReply}
    (hnext : ∀ qs st st', ((next qs).run dev st).1 = ((next qs).run dev st').1)
    (item : Option QueryState)
    (st st' : ParseStatics) :
    ((queryNext next item).run dev st).1 = ((queryNext next item).run dev st').1 := by
  cases item with
  | none => rfl
  | some qs =>
      simp only [queryNext]
      split
      · rfl
      · exact hnext qs st st'

theorem SameOutcome.parsed
    {o o' : ParseOutcome}
    (h : SameOutcome o o')
    {dev : HistDev}
    {next : QueryState → Resumption HistDev ParseStatics QueryReply}
    (hnext : ∀ qs st st', ((next qs).run dev st).1 = ((next qs).run dev st').1)
    (qs : QueryState)
    (st st' : ParseStatics) :
    ((queryParsed qs next o).run dev st).1 = ((queryParsed qs next o').run dev st').1 := by
  rcases h with rfl | ⟨res, res', rfl, rfl, hdata, hdata'⟩
  · cases o with
    | ok res => exact queryNext_same hnext _ st st'
    | failed => rfl
    | overflow => rfl
  · -- both items have length zero and are refused
    simp [queryParsed, queryItem, hdata, hdata', queryNext]

theorem queryFiles_same
    (dump : Xml → Text)
    (dev : HistDev)
    (left : Nat)
    (qs : QueryState)
    (i : Nat)
    (st st' : ParseStatics) :
    ((queryFiles dump left qs i).run dev st).1 = ((queryFiles dump left qs i).run dev st').1 := by
  induction left generalizing qs i st st' with
  | zero => rfl
  | succ left ih =>
    have hnext := fun qs' => ih qs' (i + 1)
    simp only [queryFiles, Resumption.run_step]
    cases dev.files[i]? with
    | none => rfl
    | some file =>
      dsimp only
      cases queryFile dump qs file with
      | skip => exact hnext qs st st'
      | finish => rfl
      | fail code => rfl
      | whole => exact queryNext_same hnext _ st st'
      | parse args =>
          simp only [Resumption.run_bind]
          exact (parseLog_same _ st st').parsed hnext qs _ _

theorem queryNext_confined
    {dev : HistDev}
    {next : QueryState → Resumption HistDev ParseStatics QueryReply}
    (hnext : ∀ qs, Resumption.Confined dev (next qs))
    (item : Option QueryState) :
    Resumption.Confined dev (queryNext next item) := by
  cases item with
  | none => trivial
  | some qs =>
      simp only [queryNext]
      split
      · trivial
      · exact hnext qs

theorem queryFiles_confined
    (dump : Xml → Text)
    (dev : HistDev)
    (left : Nat)
    (qs : QueryState)
    (i : Nat) :
    Resumption.Confined dev (queryFiles dump left qs i) := by
  induction left generalizing qs i with
  | zero => trivial
  | succ left ih =>
    have hnext := fun qs' => ih qs' (i + 1)
    refine ⟨fun _ => ⟨fun _ => rfl, ?_⟩, ?_⟩
    · intro st st'
      exact queryFiles_same dump dev (left + 1) qs i st st'
    · intro st
      dsimp only
      cases dev.files[i]? with
      | none => trivial
      | some file =>
        dsimp only
        cases queryFile dump qs file with
        | skip => exact hnext qs
        | finish => trivial
        | fail code => trivial
        | whole => exact queryNext_confined hnext _
        | parse args =>
            refine Resumption.Confined.bind (parseLoop_allInside _ _ _) ?_
            intro o
            cases o with
            | ok res => exact queryNext_confined hnext _
            | failed => trivial
            | overflow => trivial

/-- Outside `parse_log` a query neither writes the static buffers nor depends on
them. -/
theorem histQueryCore_confined (dump : Xml → Text) (input : Xml) (dev : HistDev) :
    Resumption.Confined dev (histQueryCore dump input) := by
  refine ⟨fun _ => ⟨fun _ => rfl, ?_⟩, ?_⟩
  · intro st st'
    dsimp only
    cases queryOpen dev input with
    | inl reply => rfl
    | inr qs => exact queryFiles_same dump dev _ qs 0 st st'
  · intro st
    dsimp only
    cases queryOpen dev input with
    | inl reply => trivial
    | inr qs => exact queryFiles_confined dump dev _ qs 0

end History
end Obix
