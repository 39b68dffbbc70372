import Mathlib.Tactic

/-!
# Programs that run in atomic steps

A `Resumption ρ σ α` is a program that reads an environment of type `ρ`, reads
and writes a shared state of type `σ` and returns a value of type `α`.  It is a
tree of atomic steps: between two of them other programs may change the shared
state.  A step marked `inside` belongs to a section in which the program keeps
intermediate values in the shared state.

`run` executes a program alone.  The second part is about programs that use the
shared state in marked sections only (`Confined`): as long as nobody else writes
the shared state during such a section, the program returns what it returns when
run alone, whatever happens to the shared state between its sections.
-/

/-- A program over an environment `ρ` and a shared state `σ`. -/
inductive Resumption (ρ σ α : Type)
  | ret (a : α)
  | step (inside : Bool) (upd : ρ → σ → σ) (next : ρ → σ → Resumption ρ σ α)

namespace Resumption

variable {ρ σ α β : Type}

/-- Execute a program alone. -/
def run : Resumption ρ σ α → ρ → σ → α × σ
  | ret a, _, s => (a, s)
  | step _ upd next, e, s => (next e s).run e (upd e s)

/-- Continue with the value of a program. -/
def bind : Resumption ρ σ α → (α → Resumption ρ σ β) → Resumption ρ σ β
  | ret a, f => f a
  | step inside upd next, f => step inside upd fun e s => (next e s).bind f

/-- Whether the next step belongs to a marked section. -/
def inside : Resumption ρ σ α → Bool
  | ret _ => false
  | step i _ _ => i

@[simp] theorem run_ret (a : α) (e : ρ) (s : σ) :
    (ret a : Resumption ρ σ α).run e s = (a, s) := rfl

@[simp] theorem run_step
    (i : Bool)
    (upd : ρ → σ → σ)
    (next : ρ → σ → Resumption ρ σ α)
    (e : ρ)
    (s : σ) :
    (step i upd next).run e s = (next e s).run e (upd e s) := rfl

theorem run_bind
    (p : Resumption ρ σ α)
    (f : α → Resumption ρ σ β)
    (e : ρ)
    (s : σ) :
    (p.bind f).run e s = (f (p.run e s).1).run e (p.run e s).2 := by
  induction p generalizing s with
  | ret a => rfl
  | step i upd next ih => exact ih e s (upd e s)

section Confinement

variable {e : ρ} {p : Resumption ρ σ α}

/-- All steps of a program belong to marked sections. -/
def AllInside (e : ρ) : Resumption ρ σ α → Prop
  | ret _ => True
  | step i _ next => i = true ∧ ∀ s, AllInside e (next e s)

/-- Outside its marked sections a program neither writes the shared state nor
depends on it. -/
def Confined (e : ρ) : Resumption ρ σ α → Prop
  | ret _ => True
  | step i upd next =>
      (i = false →
        (∀ s, upd e s = s) ∧
        ∀ s s', ((next e s).run e (upd e s)).1 = ((next e s').run e (upd e s')).1) ∧
      ∀ s, Confined e (next e s)

theorem Confined.bind
    {f : α → Resumption ρ σ β}
    (hp : AllInside e p)
    (hf : ∀ a, Confined e (f a)) :
    Confined e (p.bind f) := by
  induction p with
  | ret a => exact hf a
  | step i upd next ih =>
      refine ⟨?_, ?_⟩
      · intro hi
        rw [hp.1] at hi
        cases hi
      · intro s
        exact ih e s (hp.2 s)

/-- A program in the middle of its execution still returns `a`: from the present
shared state if it is inside a marked section, from any shared state otherwise. -/
def Tracks (e : ρ) (p : Resumption ρ σ α) (s : σ) (a : α) : Prop :=
  if p.inside then (p.run e s).1 = a else ∀ s', (p.run e s').1 = a

theorem Tracks.run_eq
    {s : σ} {a : α}
    (h : Tracks e p s a) :
    (p.run e s).1 = a := by
  unfold Tracks at h
  split at h
  · exact h
  · exact h s

/-- Outside the marked sections a change of the shared state does no harm. -/
theorem Tracks.of_outside
    {s s' : σ} {a : α}
    (hout : p.inside = false)
    (h : Tracks e p s a) :
    Tracks e p s' a := by
  simp only [Tracks, hout, Bool.false_eq_true, if_false] at h ⊢
  exact h

theorem Confined.tracks
    {s : σ} {a : α}
    (hp : Confined e p)
    (h : (p.run e s).1 = a) :
    Tracks e p s a := by
  unfold Tracks
  split
  · exact h
  · rename_i hout
    intro s'
    cases p with
    | ret b => exact h
    | step i upd next =>
        have hi : i = false := by simpa [inside] using hout
        rw [← h]
        exact (hp.1 hi).2 s' s

/-- One step of the program itself. -/
theorem Tracks.step
    {i : Bool} {upd : ρ → σ → σ} {next : ρ → σ → Resumption ρ σ α} {s : σ} {a : α}
    (hp : Confined e (Resumption.step i upd next))
    (h : Tracks e (Resumption.step i upd next) s a) :
    Tracks e (next e s) (upd e s) a :=
  (hp.2 s).tracks h.run_eq

end Confinement

end Resumption
