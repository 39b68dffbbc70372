import Mathlib.Logic.Relation
import Mathlib.Tactic

/-!
# Threads that wait for each other

`Acyclic r` says that no thread reaches itself along `r`.  The relation meant is
"waits for something the other one holds"; a step of one thread changes the edges
at that thread only, and `Acyclic.of_local` says what has to be checked then.
-/

section WaitGraph

variable {ι ο : Type}

/-- No cycle. -/
def Acyclic (r : ι → ι → Prop) : Prop :=
  ∀ t, ¬ Relation.TransGen r t t

variable {r r' : ι → ι → Prop} {t : ι}

/-- A path of the new relation is a path of the old one, or it visits `t`. -/
theorem transGen_or_visits
    (hsame : ∀ a b, r' a b → a ≠ t → b ≠ t → r a b)
    {a b : ι}
    (h : Relation.TransGen r' a b) :
    Relation.TransGen r a b ∨
      (Relation.ReflTransGen r' a t ∧ Relation.ReflTransGen r' t b) := by
  have hedge : ∀ a b, r' a b →
      r a b ∨ (Relation.ReflTransGen r' a t ∧ Relation.ReflTransGen r' t b) := by
    intro a b hab
    by_cases ha : a = t
    · subst ha
      exact .inr ⟨.refl, .single hab⟩
    · by_cases hb : b = t
      · subst hb
        exact .inr ⟨.single hab, .refl⟩
      · exact .inl (hsame a b hab ha hb)
  induction h with
  | single hab => exact (hedge _ _ hab).imp_left .single
  | tail hab hbc ih =>
      rcases ih with ih | ⟨hat, htb⟩
      · rcases hedge _ _ hbc with hr | ⟨hbt, htc⟩
        · exact .inl (ih.tail hr)
        · exact .inr ⟨hab.to_reflTransGen.trans hbt, htc⟩
      · exact .inr ⟨hat, htb.tail hbc⟩

/-- Only the edges at `t` have changed, and `t` is on no new cycle. -/
theorem Acyclic.of_local
    (h : Acyclic r)
    (hsame : ∀ a b, r' a b → a ≠ t → b ≠ t → r a b)
    (ht : ¬ Relation.TransGen r' t t) :
    Acyclic r' := by
  intro a ha
  rcases transGen_or_visits hsame ha with hold | ⟨hat, hta⟩
  · exact h a hold
  · refine ht ?_
    rcases Relation.reflTransGen_iff_eq_or_transGen.mp hta with rfl | hta
    · exact ha
    · exact hta.trans_left hat

/-- A thread that does not wait is on no cycle. -/
theorem not_transGen_of_no_successor
    (h : ∀ b, ¬ r t b) :
    ¬ Relation.TransGen r t t := by
  intro hcycle
  obtain ⟨b, hb, -⟩ := Relation.TransGen.head'_iff.mp hcycle
  exact h b hb

/-- A thread that holds nothing is on no cycle. -/
theorem not_transGen_of_no_predecessor
    (h : ∀ a, ¬ r a t) :
    ¬ Relation.TransGen r t t := by
  intro hcycle
  obtain ⟨a, -, ha⟩ := Relation.TransGen.tail'_iff.mp hcycle
  exact h a ha

/-- A thread whose successors do not wait is on no cycle, if it is not its own
successor. -/
theorem not_transGen_of_successors
    (hself : ¬ r t t)
    (h : ∀ b, r t b → ∀ c, ¬ r b c) :
    ¬ Relation.TransGen r t t := by
  intro hcycle
  obtain ⟨b, hb, hbt⟩ := Relation.TransGen.head'_iff.mp hcycle
  rcases Relation.ReflTransGen.cases_head hbt with rfl | ⟨c, hc, -⟩
  · exact hself hb
  · exact h b hb c hc

end WaitGraph
