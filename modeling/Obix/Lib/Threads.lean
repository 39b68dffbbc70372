import Mathlib.Logic.Function.Basic
import Mathlib.Tactic

/-!
# Threads over shared data

Threads take atomic steps; a step changes the shared data and the place of one thread.
`Threads.Outlined` is a proof outline: an assertion about the shared data, one for each place
of a thread, and a relation between the places of different threads.  It is kept by a step
that establishes the assertion at its new place and does not interfere with the others
(`Outlined.act`), and what every allowed step keeps holds along a run (`exec_invariant`).
-/

/-- Shared data and the places of the threads. -/
structure Threads (ι δ π : Type) where
  shared : δ
  pc : ι → π

namespace Threads

variable {ι δ π α : Type} [DecidableEq ι]

section Runs

variable (step : δ → π → α → Option (δ × π))

/-- A step of one thread. -/
def act (s : Threads ι δ π) (x : ι × α) : Option (Threads ι δ π) :=
  (step s.shared (s.pc x.1) x.2).map fun r =>
    { shared := r.1, pc := Function.update s.pc x.1 r.2 }

/-- A run. -/
def exec : Threads ι δ π → List (ι × α) → Option (Threads ι δ π)
  | s, [] => some s
  | s, x :: rest => (s.act step x).bind fun s' => s'.exec rest

/-- Every step of a run is allowed. -/
def Guarded (ok : Threads ι δ π → ι × α → Prop) : Threads ι δ π → List (ι × α) → Prop
  | _, [] => True
  | s, x :: rest => ok s x ∧ ∀ s' ∈ s.act step x, s'.Guarded ok rest

instance decidableGuarded
    (ok : Threads ι δ π → ι × α → Prop)
    [∀ s x, Decidable (ok s x)] :
    ∀ (acts : List (ι × α)) (s : Threads ι δ π), Decidable (s.Guarded step ok acts)
  | [], _ => isTrue trivial
  | x :: rest, s =>
      haveI := fun s' => decidableGuarded ok rest s'
      inferInstanceAs (Decidable (ok s x ∧ ∀ s' ∈ s.act step x, s'.Guarded step ok rest))

end Runs

variable {step : δ → π → α → Option (δ × π)} {ok : Threads ι δ π → ι × α → Prop}
  {s s' : Threads ι δ π} {x : ι × α}

theorem act_eq_some_iff :
    s.act step x = some s' ↔
      ∃ d p, step s.shared (s.pc x.1) x.2 = some (d, p) ∧
        s' = { shared := d, pc := Function.update s.pc x.1 p } := by
  unfold act
  rw [Option.map_eq_some_iff]
  constructor
  · rintro ⟨⟨d, p⟩, hstep, rfl⟩
    exact ⟨d, p, hstep, rfl⟩
  · rintro ⟨d, p, hstep, rfl⟩
    exact ⟨(d, p), hstep, rfl⟩

/-- What every allowed step keeps holds at the end of a run. -/
theorem exec_invariant
    {Inv : Threads ι δ π → Prop} {acts : List (ι × α)}
    (hstep : ∀ s x s', Inv s → ok s x → s.act step x = some s' → Inv s')
    (h : Inv s)
    (hguard : s.Guarded step ok acts)
    (hrun : s.exec step acts = some s') :
    Inv s' := by
  induction acts generalizing s with
  | nil =>
      obtain rfl := Option.some.inj hrun
      exact h
  | cons x rest ih =>
      obtain ⟨hok, hrest⟩ := hguard
      obtain ⟨mid, hact, hrun⟩ := Option.bind_eq_some_iff.mp hrun
      exact ih (hstep s x mid h hok hact) (hrest mid hact) hrun

theorem guarded_of_forall
    (h : ∀ s x, ok s x)
    (acts : List (ι × α))
    (s : Threads ι δ π) :
    s.Guarded step ok acts := by
  induction acts generalizing s with
  | nil => trivial
  | cons x rest ih => exact ⟨h s x, fun s' _ => ih s'⟩

/-- A proof outline. -/
structure Outlined
    (G : δ → Prop)
    (F : δ → π → Prop)
    (C : π → π → Prop)
    (s : Threads ι δ π) : Prop where
  shared : G s.shared
  pc : ∀ i, F s.shared (s.pc i)
  apart : ∀ i j, i ≠ j → C (s.pc i) (s.pc j)

/-- A step establishes the assertion at its new place and does not interfere with the
assertions at the places of other threads. -/
theorem Outlined.act
    {G : δ → Prop} {F : δ → π → Prop} {C : π → π → Prop} {d : δ} {p : π}
    (h : s.Outlined G F C)
    (hsymm : ∀ p q, C p q → C q p)
    (hs' : s' = { shared := d, pc := Function.update s.pc x.1 p })
    (hshared : G d)
    (hown : F d p)
    (hother : ∀ j, j ≠ x.1 → F d (s.pc j) ∧ C p (s.pc j)) :
    s'.Outlined G F C := by
  subst hs'
  refine ⟨hshared, ?_, ?_⟩
  · intro i
    by_cases hi : i = x.1
    · subst hi
      simpa using hown
    · simpa [Function.update_of_ne hi] using (hother i hi).1
  · intro i j hij
    by_cases hi : i = x.1
    · subst hi
      simpa [Function.update_of_ne (Ne.symm hij)] using (hother j (Ne.symm hij)).2
    · by_cases hj : j = x.1
      · subst hj
        simpa [Function.update_of_ne hi] using hsymm _ _ (hother i hi).2
      · simpa [Function.update_of_ne hi, Function.update_of_ne hj] using h.apart i j hij

/-- Everything that needs a thread has one that sees to it. -/
def Covered
    {ρ : Type}
    (W : δ → ρ → Prop)
    (H : π → ρ → Prop)
    (s : Threads ι δ π) : Prop :=
  ∀ r, W s.shared r → ∃ i, H (s.pc i) r

/-- After a step, a thing that needs a thread is seen to by the thread that made the step, or
it needed one before and another thread sees to it. -/
theorem Covered.act
    {ρ : Type} {W : δ → ρ → Prop} {H : π → ρ → Prop} {d : δ} {p : π}
    (h : s.Covered W H)
    (hs' : s' = { shared := d, pc := Function.update s.pc x.1 p })
    (hneed : ∀ r, W d r → H p r ∨ W s.shared r ∧ ¬ H (s.pc x.1) r) :
    s'.Covered W H := by
  subst hs'
  intro r hr
  rcases hneed r hr with hown | ⟨hneeded, hnot⟩
  · exact ⟨x.1, by simpa using hown⟩
  · obtain ⟨i, hi⟩ := h r hneeded
    have hne : i ≠ x.1 := by
      rintro rfl
      exact hnot hi
    exact ⟨i, by simpa [Function.update_of_ne hne] using hi⟩

end Threads
