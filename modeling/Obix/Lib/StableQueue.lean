import Mathlib.Data.List.Basic
import Mathlib.Data.List.Pairwise
import Mathlib.Data.List.TakeWhile
import Mathlib.Tactic.Cases

/-!
# Queues sorted by a time

A queue whose entries are put before the first later one.  Any relation that is
"later than" in a linear order of times will do; entries with the same time are
told apart.  The queue stays sorted (`Sorted.insert`), and entries of the same
time stay in the order in which they came (`Fifo.insert`).
-/

namespace StableQueue

variable {α : Type} (later : α → α → Prop)

/-- "Not later than" is transitive, and one of two entries is not later than the other. -/
structure Timed : Prop where
  trans : ∀ {p q r}, ¬ later p q → ¬ later q r → ¬ later p r
  asymm : ∀ {p q}, later p q → ¬ later q p

/-- No entry is later than one behind it. -/
def Sorted (l : List α) : Prop :=
  l.Pairwise fun p q => ¬ later p q

/-- Entries of the same time are in the order in which they stand in the history. -/
def Fifo (history l : List α) : Prop :=
  ∀ p q, ¬ later p q → ¬ later q p → [p, q].Sublist l → [p, q].Sublist history

/-- An entry is put before the first later one, or at the end. -/
def insert
    [DecidableRel later]
    (x : α)
    (l : List α) :
    List α :=
  l.takeWhile (fun p => ¬ later p x) ++ x :: l.dropWhile (fun p => ¬ later p x)

variable {later} {l l' history : List α} {x : α}

theorem Sorted.sublist
    (h : Sorted later l)
    (hl : l'.Sublist l) :
    Sorted later l' :=
  List.Pairwise.sublist hl h

theorem Fifo.sublist
    (h : Fifo later history l)
    (hl : l'.Sublist l) :
    Fifo later history l' :=
  fun p q hpq hqp hsub => h p q hpq hqp (hsub.trans hl)

section Insert

variable [DecidableRel later]

theorem mem_insert
    {p : α} :
    p ∈ insert later x l ↔ p = x ∨ p ∈ l := by
  have hsplit := List.takeWhile_append_dropWhile (p := fun p => decide ¬ later p x) (l := l)
  constructor
  · intro hp
    rcases List.mem_append.mp hp with hp | hp
    · exact Or.inr (List.takeWhile_subset _ hp)
    · rcases List.mem_cons.mp hp with hp | hp
      · exact Or.inl hp
      · exact Or.inr (List.dropWhile_subset _ hp)
  · rintro (rfl | hp)
    · simp [insert]
    · rw [← hsplit] at hp
      rcases List.mem_append.mp hp with hp | hp
      · exact List.mem_append_left _ hp
      · exact List.mem_append_right _ (List.mem_cons_of_mem _ hp)

/-- Everything behind the new entry is later. -/
theorem later_of_mem_dropWhile
    (htimed : Timed later)
    (h : Sorted later l)
    {q : α}
    (hq : q ∈ l.dropWhile (fun p => ¬ later p x)) :
    later q x := by
  induction l with
  | nil => cases hq
  | cons p l ih =>
      have ⟨hp, hl⟩ := List.pairwise_cons.mp h
      by_cases hlater : later p x
      · rw [List.dropWhile_cons_of_neg (by simpa using hlater)] at hq
        rcases List.mem_cons.mp hq with rfl | hq
        · exact hlater
        · by_contra hnot
          exact htimed.trans (hp q hq) hnot hlater
      · rw [List.dropWhile_cons_of_pos (by simpa using hlater)] at hq
        exact ih hl hq

theorem Sorted.insert
    (htimed : Timed later)
    (h : Sorted later l) :
    Sorted later (insert later x l) := by
  have hsplit := List.takeWhile_append_dropWhile (p := fun p => decide ¬ later p x) (l := l)
  have hbefore : ∀ p ∈ l.takeWhile (fun p => ¬ later p x), ¬ later p x := by
    intro p hp
    simpa using List.mem_takeWhile_imp hp
  have hbehind : ∀ q ∈ l.dropWhile (fun p => ¬ later p x), later q x :=
    fun q hq => later_of_mem_dropWhile htimed h hq
  unfold Sorted at h
  rw [← hsplit, List.pairwise_append] at h
  obtain ⟨htake, hdrop, hcross⟩ := h
  refine List.pairwise_append.mpr ⟨htake, List.pairwise_cons.mpr ⟨?_, hdrop⟩, ?_⟩
  · intro q hq
    exact htimed.asymm (hbehind q hq)
  · intro p hp q hq
    rcases List.mem_cons.mp hq with rfl | hq
    · exact hbefore p hp
    · exact hcross p hp q hq

/-- An entry of the same time as the new one stands before it. -/
theorem Fifo.insert
    (htimed : Timed later)
    (hsorted : Sorted later l)
    (h : Fifo later history l)
    (hmem : ∀ p ∈ l, p ∈ history) :
    Fifo later (history ++ [x]) (insert later x l) := by
  have hsplit := List.takeWhile_append_dropWhile (p := fun p => decide ¬ later p x) (l := l)
  intro p q hpq hqp hsub
  have hold : [p, q].Sublist l → [p, q].Sublist (history ++ [x]) :=
    fun hl => (h p q hpq hqp hl).trans (List.sublist_append_left _ _)
  obtain ⟨l₁, l₂, heq, h₁, h₂⟩ := List.sublist_append_iff.mp hsub
  rcases l₁ with _ | ⟨a, _ | ⟨b, l₁⟩⟩
  · -- both are behind the place of the new entry
    obtain rfl : [p, q] = l₂ := by simpa using heq
    rcases List.sublist_cons_iff.mp h₂ with h₂ | ⟨r, hr, h₂⟩
    · exact hold (h₂.trans (List.dropWhile_sublist _))
    · obtain ⟨rfl, rfl⟩ := List.cons.inj hr
      have hq := later_of_mem_dropWhile htimed hsorted (List.singleton_sublist.mp h₂)
      exact absurd hq hqp
  · obtain ⟨rfl, rfl⟩ : p = a ∧ [q] = l₂ := by simpa using heq
    have hp := List.singleton_sublist.mp h₁
    rcases List.mem_cons.mp (List.singleton_sublist.mp h₂) with rfl | hq
    · exact (List.singleton_sublist.mpr (hmem p (List.takeWhile_subset _ hp))).append
        (List.Sublist.refl _)
    · exact hold (hsplit ▸ h₁.append (List.singleton_sublist.mpr hq))
  · obtain ⟨rfl, rfl, rfl, rfl⟩ : p = a ∧ q = b ∧ [] = l₁ ∧ [] = l₂ := by
      simpa [eq_comm] using heq
    exact hold (h₁.trans (List.takeWhile_sublist _))

end Insert

/-- When the first entry is not due, none is. -/
theorem Sorted.none_due
    {due : α → Prop}
    (hdue : ∀ {p q}, ¬ later p q → due q → due p)
    (h : Sorted later (x :: l))
    (hx : ¬ due x) :
    ∀ p ∈ x :: l, ¬ due p := by
  intro p hp
  rcases List.mem_cons.mp hp with rfl | hp
  · exact hx
  · exact fun hduep => hx (hdue (List.rel_of_pairwise_cons h hp) hduep)

end StableQueue
