import Mathlib.Init

/-!
# Runs of a partial step function

The states that allowed steps lead to, the rule that what every allowed step keeps holds in all
of them, and the execution of a list of steps.
-/

namespace Runs

variable {σ α : Type} (step : σ → α → Option σ)

/-- The states that allowed steps lead to. -/
inductive Reaches (ok : σ → α → Prop) (s : σ) : σ → Prop
  | refl : Reaches ok s s
  | tail
      {t u : σ} {x : α}
      (ht : Reaches ok s t)
      (hok : ok t x)
      (h : step t x = some u) :
      Reaches ok s u

/-- Steps one after the other. -/
def exec (s : σ) (xs : List α) : Option σ := xs.foldlM step s

/-- Every step of an execution is allowed. -/
def meets (ok : σ → α → Bool) (s : σ) : List α → Bool
  | [] => true
  | x :: xs => ok s x && (step s x).all fun t => meets ok t xs

variable {step} {s t : σ}

theorem Reaches.invariant
    {ok : σ → α → Prop} {Inv : σ → Prop}
    (hr : Reaches step ok s t)
    (hstep : ∀ s x t, Inv s → ok s x → step s x = some t → Inv t)
    (h : Inv s) :
    Inv t := by
  induction hr with
  | refl => exact h
  | tail _ hok hx ih => exact hstep _ _ _ ih hok hx

theorem Reaches.exec
    {ok : σ → α → Bool} {r : σ}
    (hs : Reaches step (fun s x => ok s x = true) r s)
    (xs : List α)
    (hmeets : meets step ok s xs = true)
    (hexec : Runs.exec step s xs = some t) :
    Reaches step (fun s x => ok s x = true) r t := by
  induction xs generalizing s with
  | nil =>
      cases hexec
      exact hs
  | cons x xs ih =>
      obtain ⟨u, hu, hexec⟩ := Option.bind_eq_some_iff.mp hexec
      rw [meets, Bool.and_eq_true, hu] at hmeets
      exact ih (hs.tail hmeets.1 hu) hmeets.2 hexec

theorem Reaches.free
    {r : σ}
    (hs : Reaches step (fun _ _ => True) r s)
    (xs : List α)
    (hexec : Runs.exec step s xs = some t) :
    Reaches step (fun _ _ => True) r t := by
  induction xs generalizing s with
  | nil =>
      cases hexec
      exact hs
  | cons x xs ih =>
      obtain ⟨u, hu, hexec⟩ := Option.bind_eq_some_iff.mp hexec
      exact ih (hs.tail trivial hu) hexec

end Runs
