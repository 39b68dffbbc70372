import Mathlib.Data.Fintype.Card
import Mathlib.Tactic

/-!
# Counting the members of a finite family

`occupancy p f` is the number of indices at which a finite family has the
property `p`.  Counters that a program keeps about its threads are occupancies;
`occupancy_update` says how such a counter has to change when one thread moves.
-/

/-- A family with two members has members 0 and 1. -/
instance neZeroTwo : NeZero (2 : Nat) :=
  ⟨two_ne_zero⟩

section Occupancy

variable {ι α : Type} [Fintype ι]

/-- The number of indices at which `p` holds. -/
def occupancy (p : α → Prop) [DecidablePred p] (f : ι → α) : Nat :=
  (Finset.univ.filter fun i => p (f i)).card

variable {p : α → Prop} [DecidablePred p] {f : ι → α}

theorem occupancy_eq_zero_iff : occupancy p f = 0 ↔ ∀ i, ¬ p (f i) := by
  simp [occupancy, Finset.filter_eq_empty_iff]

/-- Moving one member changes the count by that member alone. -/
theorem occupancy_update
    [DecidableEq ι]
    (i : ι)
    (a : α) :
    occupancy p (Function.update f i a) + (if p (f i) then 1 else 0) =
      occupancy p f + (if p a then 1 else 0) := by
  have hsplit : ∀ g : ι → α, occupancy p g =
      ((Finset.univ.erase i).filter fun j => p (g j)).card + if p (g i) then 1 else 0 := by
    intro g
    unfold occupancy
    have huniv : (Finset.univ : Finset ι) = insert i (Finset.univ.erase i) :=
      (Finset.insert_erase (Finset.mem_univ i)).symm
    rw [huniv, Finset.filter_insert]
    split
    · rw [Finset.card_insert_of_notMem (by simp)]
      simp
    · simp
  have hsame : ((Finset.univ.erase i).filter fun j => p (Function.update f i a j)) =
      (Finset.univ.erase i).filter fun j => p (f j) := by
    refine Finset.filter_congr ?_
    intro j hj
    rw [Function.update_of_ne (Finset.ne_of_mem_erase hj)]
  rw [hsplit (Function.update f i a), hsplit f, hsame, Function.update_self]
  omega

end Occupancy
