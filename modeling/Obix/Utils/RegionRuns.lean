import Obix.Utils.Regions

/-!
# Runs of careful programs

When all threads run careful programs, a cycle of waiting threads can only be
closed by a thread that asks for a region while it is inside another one, and only
when somebody inside a region of the object asked for is waiting.  A run without
such a step has no cycle of blocked threads (`Regions.Orderly.acyclic`).
-/

namespace Obix

section Runs

variable {ι ο σ κ : Type} [DecidableEq κ] {kind : ο → κ} {s s' : Regions ι ο σ} {i : ι}

/-- The threads run careful programs and do not wait in a cycle. -/
structure Regions.Inv (kind : ο → κ) (s : Regions ι ο σ) : Prop where
  ok : ∀ j, (s.thread j).Ok kind
  acyclic : Acyclic s.Meets

/-- Nobody is inside a region and nobody waits. -/
theorem Regions.inv_idle
    (h : ∀ j, s.thread j = Thread.idle) :
    s.Inv kind := by
  constructor
  · intro j
    rw [h j]
    exact ⟨⟨fun _ => none, fun o ho => absurd rfl ho, fun _ => rfl⟩, fun hw => by cases hw⟩
  · intro t
    refine not_transGen_of_no_successor ?_
    rintro b ⟨m, o, hw, -⟩
    rw [h t] at hw
    cases hw

theorem Thread.Ok.next
    {t : Thread ο σ} {p : Regional ο σ}
    (h : t.Ok kind)
    (hwait : t.waiting = false)
    (hp : ∀ reg : κ → Option ο, Careful kind reg t.prog → Careful kind reg p) :
    Thread.Ok kind { t with prog := p } := by
  obtain ⟨reg, hheld, hcare⟩ := h.careful
  refine ⟨⟨reg, hheld, hp reg hcare⟩, ?_⟩
  intro hw
  rw [hwait] at hw
  cases hw

theorem Thread.waitsFor_of_not_waiting
    {t : Thread ο σ}
    (h : t.waiting = false) :
    t.waitsFor = none := by
  unfold Thread.waitsFor
  rw [h]

variable [DecidableEq ι]

/-- One thread has moved; it does not wait. -/
theorem Regions.Inv.move
    {t : Thread ο σ}
    (h : s.Inv kind)
    (hthread : s'.thread = Function.update s.thread i t)
    (hok : t.Ok kind)
    (hwait : t.waitsFor = none) :
    s'.Inv kind := by
  have hother : ∀ j, j ≠ i → s'.thread j = s.thread j := by
    intro j hj
    rw [hthread, Function.update_of_ne hj]
  have hmine : s'.thread i = t := by simp [hthread]
  constructor
  · intro j
    by_cases hj : j = i
    · rw [hj, hmine]
      exact hok
    · rw [hother j hj]
      exact h.ok j
  · refine h.acyclic.of_local ?_ (not_transGen_of_no_successor (t := i) ?_)
    · rintro a b ⟨m, o, hw, hh⟩ ha hb
      rw [hother a ha] at hw
      rw [hother b hb] at hh
      exact ⟨m, o, hw, hh⟩
    · rintro b ⟨m, o, hw, -⟩
      rw [hmine, hwait] at hw
      cases hw

/-- A thread asks for a region and waits. -/
theorem Regions.Inv.ask
    {o : ο}
    (h : s.Inv kind)
    (hcons : s.Considerate i)
    (hasks : (s.thread i).asksFor = some o)
    (hthread : s'.thread = Function.update s.thread i { s.thread i with waiting := true })
    (hblock : (s.thread i).prog.blocking = true) :
    s'.Inv kind := by
  have hother : ∀ j, j ≠ i → s'.thread j = s.thread j := by
    intro j hj
    rw [hthread, Function.update_of_ne hj]
  have hmine : s'.thread i = { s.thread i with waiting := true } := by simp [hthread]
  have hheld : ∀ j, (s'.thread j).held = (s.thread j).held := by
    intro j
    by_cases hj : j = i
    · rw [hj, hmine]
    · rw [hother j hj]
  have hwaits : ∀ m o', (s'.thread i).waitsFor = some (m, o') → o' = o := by
    intro m o' hw
    rw [hmine] at hw
    unfold Thread.waitsFor at hw
    unfold Thread.asksFor at hasks
    cases hp : (s.thread i).prog <;> cases hwt : (s.thread i).waiting <;>
      simp [hp, hwt] at hw hasks <;> grind
  have hfree : (s.thread i).held o = none := (h.ok i).not_held (m := .read) (.inr hasks)
  constructor
  · intro j
    by_cases hj : j = i
    · rw [hj, hmine]
      exact ⟨(h.ok i).careful, fun _ => hblock⟩
    · rw [hother j hj]
      exact h.ok j
  · refine h.acyclic.of_local (t := i) ?_ ?_
    · rintro a b ⟨m, o', hw, hh⟩ ha hb
      rw [hother a ha] at hw
      rw [hother b hb] at hh
      exact ⟨m, o', hw, hh⟩
    · by_cases hin : ∃ o', (s.thread i).held o' ≠ none
      · refine not_transGen_of_successors ?_ ?_
        · rintro ⟨m, o', hw, hh⟩
          rw [hwaits m o' hw, hheld] at hh
          exact hh hfree
        · rintro b ⟨m, o', hw, hh⟩ c ⟨m', o'', hw', -⟩
          rw [hwaits m o' hw, hheld] at hh
          have hb : b ≠ i := by
            rintro rfl
            exact hh hfree
          rw [hother b hb, hcons o hasks hin b hh] at hw'
          cases hw'
      · -- a thread that is inside no region is waited for by nobody
        refine not_transGen_of_no_predecessor ?_
        rintro a ⟨m, o', -, hh⟩
        rw [hheld] at hh
        exact hin ⟨o', hh⟩

theorem Regions.Inv.start
    {request : Regional ο σ}
    (h : s.Inv kind)
    (hcareful : Careful kind (fun _ => none) request)
    (hstep : s.start i request = some s') :
    s'.Inv kind := by
  obtain ⟨reg, hheld, hcare⟩ := (h.ok i).careful
  unfold Regions.start at hstep
  cases hp : (s.thread i).prog with
  | done =>
      simp only [hp, Option.some.injEq] at hstep
      subst hstep
      rw [hp] at hcare
      have hwait : (s.thread i).waiting = false := by
        cases hw : (s.thread i).waiting with
        | false => rfl
        | true => simpa [hp, Regional.blocking] using (h.ok i).blocking hw
      refine h.move rfl ⟨⟨reg, hheld, ?_⟩, ?_⟩ (Thread.waitsFor_of_not_waiting hwait)
      · exact hcareful.within fun k => .inl (hcare k)
      · intro hw
        rw [hwait] at hw
        cases hw
  | enter => simp [hp] at hstep
  | insist => simp [hp] at hstep
  | exit => simp [hp] at hstep
  | shutdown => simp [hp] at hstep
  | revoke => simp [hp] at hstep
  | access => simp [hp] at hstep

variable [DecidableEq ο]

/-- The first half of an entry, refused or not. -/
theorem Regions.Inv.ask_step
    {m : Mode} {o : ο} {refused : Regional ο σ}
    (h : s.Inv kind)
    (hcons : s.Considerate i)
    (hwait : (s.thread i).waiting = false)
    (hasks : (s.thread i).asksFor = some o)
    (hblock : (s.thread i).prog.blocking = true)
    (hrefused : ∀ reg : κ → Option ο, Careful kind reg (s.thread i).prog →
      Careful kind reg refused) :
    (s.ask i m o refused).Inv kind := by
  unfold Regions.ask
  cases (s.sync o).request m with
  | none =>
      exact h.move rfl ((h.ok i).next hwait hrefused) (Thread.waitsFor_of_not_waiting hwait)
  | some sync => exact h.ask hcons hasks rfl hblock

/-- The second half of an entry. -/
theorem Regions.Inv.pass_step
    {m : Mode} {o : ο} {granted : Regional ο σ}
    (h : s.Inv kind)
    (hgranted : ∀ reg : κ → Option ο, Careful kind reg (s.thread i).prog →
      reg (kind o) = none ∧ Careful kind (Function.update reg (kind o) (some o)) granted)
    (hstep : s.pass i m o granted = some s') :
    s'.Inv kind := by
  obtain ⟨sync, -, rfl⟩ := Option.map_eq_some_iff.mp hstep
  obtain ⟨reg, hheld, hcare⟩ := (h.ok i).careful
  obtain ⟨hfree, hcare'⟩ := hgranted reg hcare
  refine h.move rfl ⟨⟨_, held_update hheld hfree m, hcare'⟩, ?_⟩ rfl
  intro hw
  cases hw

/-- A step of a thread with a request in hand. -/
theorem Regions.Inv.proceed
    (h : s.Inv kind)
    (hcons : s.Considerate i)
    (hstep : s.proceed i = some s') :
    s'.Inv kind := by
  obtain ⟨reg, hheld, hcare⟩ := (h.ok i).careful
  have hnot : (s.thread i).prog.blocking = false → (s.thread i).waiting = false := by
    intro hb
    cases hw : (s.thread i).waiting with
    | false => rfl
    | true => simp [(h.ok i).blocking hw] at hb
  unfold Regions.proceed at hstep
  cases hp : (s.thread i).prog with
  | done => simp [hp] at hstep
  | enter m o granted refused =>
      cases hwait : (s.thread i).waiting with
      | true =>
          simp only [hp, hwait, if_true] at hstep
          refine h.pass_step ?_ hstep
          rw [hp]
          exact fun reg hc => ⟨hc.1, hc.2.1⟩
      | false =>
          simp only [hp, hwait, Bool.false_eq_true, if_false, Option.some.injEq] at hstep
          subst hstep
          refine h.ask_step hcons hwait ?_ ?_ ?_
          · simp [Thread.asksFor, hwait, hp]
          · simp [hp, Regional.blocking]
          · rw [hp]
            exact fun reg hc => hc.2.2
  | insist m o granted =>
      cases hwait : (s.thread i).waiting with
      | true =>
          simp only [hp, hwait, if_true] at hstep
          refine h.pass_step ?_ hstep
          rw [hp]
          exact fun reg hc => hc
      | false =>
          simp only [hp, hwait, Bool.false_eq_true, if_false, Option.some.injEq] at hstep
          subst hstep
          refine h.ask_step hcons hwait ?_ ?_ ?_
          · simp [Thread.asksFor, hwait, hp]
          · simp [hp, Regional.blocking]
          · rw [hp]
            exact fun reg hc => hc
  | exit m o next =>
      have hwait := hnot (by simp [hp, Regional.blocking])
      simp only [hp, Option.some.injEq] at hstep
      subst hstep
      rw [hp] at hcare
      refine h.move rfl ⟨⟨_, held_erase hheld hcare.1, hcare.2⟩, ?_⟩
        (Thread.waitsFor_of_not_waiting hwait)
      intro hw
      rw [hwait] at hw
      cases hw
  | shutdown o granted refused =>
      cases hwait : (s.thread i).waiting with
      | true =>
          simp only [hp, hwait, if_true] at hstep
          obtain ⟨sync, -, rfl⟩ := Option.map_eq_some_iff.mp hstep
          rw [hp] at hcare
          refine h.move rfl ⟨⟨reg, hheld, hcare.1⟩, ?_⟩ rfl
          intro hw
          cases hw
      | false =>
          simp only [hp, hwait, Bool.false_eq_true, if_false, Option.some.injEq] at hstep
          subst hstep
          unfold Regions.askShutdown
          cases (s.sync o).shutdownRequest with
          | none =>
              refine h.move rfl ((h.ok i).next hwait ?_) (Thread.waitsFor_of_not_waiting hwait)
              rw [hp]
              exact fun reg hc => hc.2
          | some sync =>
              refine h.move rfl ⟨(h.ok i).careful, fun _ => by simp [hp, Regional.blocking]⟩ ?_
              simp [Thread.waitsFor, hp]
  | revoke o next =>
      have hwait := hnot (by simp [hp, Regional.blocking])
      simp only [hp, Option.some.injEq] at hstep
      subst hstep
      refine h.move rfl ((h.ok i).next hwait ?_) (Thread.waitsFor_of_not_waiting hwait)
      rw [hp]
      exact fun reg hc => hc
  | access upd next =>
      have hwait := hnot (by simp [hp, Regional.blocking])
      simp only [hp, Option.some.injEq] at hstep
      subst hstep
      refine h.move rfl ((h.ok i).next hwait ?_) (Thread.waitsFor_of_not_waiting hwait)
      rw [hp]
      exact fun reg hc => hc s.data

/-- A run of careful requests in which every step is considerate. -/
theorem Regions.Inv.exec
    {acts : List (ι × Option (Regional ο σ))}
    (h : s.Inv kind)
    (hcareful : ∀ i request, (i, some request) ∈ acts → Careful kind (fun _ => none) request)
    (horder : s.Orderly acts)
    (hrun : s.exec acts = some s') :
    s'.Inv kind := by
  induction acts generalizing s with
  | nil =>
      obtain rfl : s = s' := Option.some.inj hrun
      exact h
  | cons step rest ih =>
      obtain ⟨i, a⟩ := step
      obtain ⟨t, hstep, hrest⟩ := Option.bind_eq_some_iff.mp hrun
      have ht : t.Inv kind := by
        cases a with
        | none => exact h.proceed (horder.1 rfl) hstep
        | some request => exact h.start (hcareful i request (by simp)) hstep
      refine ih ht ?_ (horder.2 t hstep) hrest
      intro i request hmem
      exact hcareful i request (List.mem_cons_of_mem _ hmem)

/-- In a run of careful requests in which every step is considerate no threads block
each other in a cycle. -/
theorem Regions.Orderly.acyclic
    {acts : List (ι × Option (Regional ο σ))}
    (horder : s.Orderly acts)
    (hidle : ∀ j, s.thread j = Thread.idle)
    (hcareful : ∀ i request, (i, some request) ∈ acts → Careful kind (fun _ => none) request)
    (hrun : s.exec acts = some s') :
    Acyclic s'.Blocks := by
  have h := (Regions.inv_idle hidle).exec hcareful horder hrun
  intro t hcycle
  exact h.acyclic t (hcycle.lift id fun _ _ => Regions.Blocks.meets)

/-- Nobody else is waiting whenever a thread takes a step. -/
def Regions.calm [Fintype ι] : Regions ι ο σ → List (ι × Option (Regional ο σ)) → Bool
  | _, [] => true
  | s, (i, a) :: rest =>
      decide (∀ j, (s.thread j).waitsFor = none ∨ j = i) &&
        (s.act i a).all fun s' => s'.calm rest

theorem Regions.Orderly.of_calm
    [Fintype ι] {acts : List (ι × Option (Regional ο σ))}
    (h : s.calm acts = true) :
    s.Orderly acts := by
  induction acts generalizing s with
  | nil => trivial
  | cons step rest ih =>
      obtain ⟨i, a⟩ := step
      simp only [Regions.calm, Bool.and_eq_true, decide_eq_true_eq, Option.all_eq_true] at h
      obtain ⟨hothers, hrest⟩ := h
      refine ⟨?_, fun s' hs' => ih (hrest s' hs')⟩
      intro _ o hasks _ j _
      rcases hothers j with hj | rfl
      · exact hj
      · unfold Thread.asksFor at hasks
        cases hw : (s.thread j).waiting with
        | false => exact Thread.waitsFor_of_not_waiting hw
        | true => simp [hw] at hasks

end Runs

end Obix
