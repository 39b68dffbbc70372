import Mathlib.Data.List.Nodup
import Mathlib.Tactic.Cases

/-!
# Doubly linked lists

`Links` are the pointers of a doubly linked list: its head, and for every node the one before and
the one after it.  They thread a list of nodes if the head is its first member and the pointers
of each member are its neighbours.  The rules say which pointers have to change when a node is
taken out or put in between two others.
-/

namespace LinkedList

variable {α : Type}

/-- The pointers of a doubly linked list. -/
structure Links (α : Type) where
  head : Option α
  prev : α → Option α
  next : α → Option α

/-- The pointers are those of a list of nodes. -/
structure Links.Threads (k : Links α) (l : List α) : Prop where
  head : k.head = l.head?
  nodup : l.Nodup
  prev : ∀ l₁ x l₂, l = l₁ ++ x :: l₂ → k.prev x = l₁.getLast?
  next : ∀ l₁ x l₂, l = l₁ ++ x :: l₂ → k.next x = l₂.head?

theorem threads_nil
    {k : Links α}
    (h : k.head = none) :
    k.Threads [] :=
  ⟨h, List.nodup_nil, by simp, by simp⟩

/-- Only the pointers of the members count. -/
theorem Links.Threads.congr
    {k k' : Links α} {l : List α}
    (h : k.Threads l)
    (hhead : k'.head = k.head)
    (hlinks : ∀ x ∈ l, k'.prev x = k.prev x ∧ k'.next x = k.next x) :
    k'.Threads l := by
  refine ⟨hhead.trans h.head, h.nodup, ?_, ?_⟩
  · intro l₁ x l₂ heq
    rw [(hlinks x (by simp [heq])).1, h.prev l₁ x l₂ heq]
  · intro l₁ x l₂ heq
    rw [(hlinks x (by simp [heq])).2, h.next l₁ x l₂ heq]

/-- A member of two lists in a row is in the first or in the second one. -/
theorem append_eq_split
    {l₁ l₂ m₁ m₂ : List α} {y : α}
    (h : l₁ ++ l₂ = m₁ ++ y :: m₂) :
    (∃ k, l₁ = m₁ ++ y :: k ∧ m₂ = k ++ l₂) ∨ ∃ k, l₂ = k ++ y :: m₂ ∧ m₁ = l₁ ++ k := by
  rcases List.append_eq_append_iff.mp h with ⟨k, hm₁, hl₂⟩ | ⟨k, hl₁, hm₂⟩
  · exact .inr ⟨k, hl₂, hm₁⟩
  · cases k with
    | nil =>
        refine .inr ⟨[], ?_, ?_⟩
        · simpa using hm₂.symm
        · simpa using hl₁.symm
    | cons z k =>
        obtain ⟨rfl, rfl⟩ := List.cons.inj hm₂
        exact .inl ⟨k, hl₁, rfl⟩

/-- The last member of a list is not one that another member follows. -/
theorem getLast?_ne
    {l₁ l₂ : List α} {y z : α}
    (h : (l₁ ++ y :: z :: l₂).Nodup) :
    (l₁ ++ y :: z :: l₂).getLast? ≠ some y := by
  intro hlast
  rw [List.getLast?_append_cons, List.getLast?_cons_cons] at hlast
  have hmem := List.mem_of_getLast? hlast
  have hnodup := (List.nodup_append.mp h).2.1
  exact (List.nodup_cons.mp hnodup).1 hmem

/-- The first member of a list is not one that comes behind another member. -/
theorem head?_ne
    {l₁ l₂ : List α} {y : α}
    (hne : l₁ ≠ [])
    (h : (l₁ ++ y :: l₂).Nodup) :
    (l₁ ++ y :: l₂).head? ≠ some y := by
  intro hhead
  cases l₁ with
  | nil => exact hne rfl
  | cons z l₁ =>
      cases hhead
      exact (List.nodup_cons.mp h).1 (by simp)

section Change

variable [DecidableEq α] {k k' : Links α} {l₁ l₂ : List α} {x : α}

/-- A node is taken out. -/
theorem Links.Threads.unlink
    (h : k.Threads (l₁ ++ x :: l₂))
    (hhead : k'.head = if l₁ = [] then l₂.head? else k.head)
    (hnext : ∀ y, y ≠ x → k'.next y = if l₁.getLast? = some y then l₂.head? else k.next y)
    (hprev : ∀ y, y ≠ x → k'.prev y = if l₂.head? = some y then l₁.getLast? else k.prev y) :
    k'.Threads (l₁ ++ l₂) := by
  have hsub : (l₁ ++ l₂).Sublist (l₁ ++ x :: l₂) :=
    List.Sublist.append (List.Sublist.refl l₁) (List.sublist_cons_self x l₂)
  have hnodup := h.nodup.sublist hsub
  have hx : ∀ y ∈ l₁ ++ l₂, y ≠ x := by
    rintro y hy rfl
    have hperm : (y :: (l₁ ++ l₂)).Nodup := (List.perm_middle.nodup_iff).mp h.nodup
    exact (List.nodup_cons.mp hperm).1 hy
  have hdisjoint : ∀ y ∈ l₁, y ∉ l₂ := fun y h₁ h₂ =>
    (List.nodup_append.mp hnodup).2.2 y h₁ y h₂ rfl
  have hfirst : ∀ y ∈ l₁, l₂.head? ≠ some y := fun y hy hhead =>
    hdisjoint y hy (List.mem_of_mem_head? hhead)
  have hnodup₁ := (List.nodup_append.mp hnodup).1
  have hnodup₂ := (List.nodup_append.mp hnodup).2.1
  refine ⟨?_, hnodup, ?_, ?_⟩
  · rw [hhead]
    cases l₁ with
    | nil => simp
    | cons z l₁ => simpa using h.head
  · intro m₁ y m₂ heq
    rw [hprev y (hx y (by rw [heq]; simp))]
    rcases append_eq_split heq with ⟨r, rfl, rfl⟩ | ⟨r, rfl, rfl⟩
    · rw [if_neg (hfirst y (by simp))]
      exact h.prev m₁ y (r ++ x :: l₂) (by simp)
    · cases r with
      | nil => simp
      | cons z r =>
          rw [if_neg (head?_ne (by simp) hnodup₂)]
          rw [h.prev (l₁ ++ x :: z :: r) y m₂ (by simp), List.getLast?_append_cons,
            List.getLast?_append_cons, List.getLast?_cons_cons]
  · intro m₁ y m₂ heq
    rw [hnext y (hx y (by rw [heq]; simp))]
    rcases append_eq_split heq with ⟨r, rfl, rfl⟩ | ⟨r, rfl, rfl⟩
    · cases r with
      | nil => simp
      | cons z r =>
          rw [if_neg (getLast?_ne hnodup₁)]
          exact h.next m₁ y (z :: r ++ x :: l₂) (by simp)
    · rw [if_neg fun hlast => hdisjoint y (List.mem_of_getLast? hlast) (by simp)]
      exact h.next (l₁ ++ x :: r) y m₂ (by simp)

/-- A node is put in. -/
theorem Links.Threads.insert
    (h : k.Threads (l₁ ++ l₂))
    (hx : x ∉ l₁ ++ l₂)
    (hhead : k'.head = if l₁ = [] then some x else k.head)
    (hnext : ∀ y, y ≠ x → k'.next y = if l₁.getLast? = some y then some x else k.next y)
    (hprev : ∀ y, y ≠ x → k'.prev y = if l₂.head? = some y then some x else k.prev y)
    (hxnext : k'.next x = l₂.head?)
    (hxprev : k'.prev x = l₁.getLast?) :
    k'.Threads (l₁ ++ x :: l₂) := by
  have hnodup : (l₁ ++ x :: l₂).Nodup :=
    (List.perm_middle.nodup_iff).mpr (List.nodup_cons.mpr ⟨hx, h.nodup⟩)
  have hdisjoint : ∀ y ∈ l₁, y ∉ l₂ := fun y h₁ h₂ =>
    (List.nodup_append.mp h.nodup).2.2 y h₁ y h₂ rfl
  have hfirst : ∀ y ∈ l₁, l₂.head? ≠ some y := fun y hy hhead =>
    hdisjoint y hy (List.mem_of_mem_head? hhead)
  have hnodup₁ := (List.nodup_append.mp h.nodup).1
  have hnodup₂ := (List.nodup_append.mp h.nodup).2.1
  refine ⟨?_, hnodup, ?_, ?_⟩
  · rw [hhead]
    cases l₁ with
    | nil => simp
    | cons z l₁ => simpa using h.head
  · intro m₁ y m₂ heq
    rcases append_eq_split heq with ⟨r, rfl, rfl⟩ | ⟨r, hr, rfl⟩
    · have hyx : y ≠ x := fun hyx => hx (by simp [hyx])
      rw [hprev y hyx, if_neg (hfirst y (by simp))]
      exact h.prev m₁ y (r ++ l₂) (by simp)
    · cases r with
      | nil =>
          obtain ⟨rfl, rfl⟩ := List.cons.inj hr
          simpa using hxprev
      | cons z r =>
          rw [List.cons_append] at hr
          obtain ⟨rfl, rfl⟩ : x = z ∧ l₂ = r ++ y :: m₂ := List.cons.inj hr
          have hyx : y ≠ x := fun hyx => hx (by simp [hyx])
          rw [hprev y hyx]
          cases r with
          | nil => simp
          | cons w r =>
              rw [if_neg (head?_ne (by simp) hnodup₂)]
              rw [h.prev (l₁ ++ w :: r) y m₂ (by simp), List.getLast?_append_cons,
                List.getLast?_append_cons, List.getLast?_cons_cons]
  · intro m₁ y m₂ heq
    rcases append_eq_split heq with ⟨r, rfl, rfl⟩ | ⟨r, hr, rfl⟩
    · have hyx : y ≠ x := fun hyx => hx (by simp [hyx])
      rw [hnext y hyx]
      cases r with
      | nil => simp
      | cons z r =>
          rw [if_neg (getLast?_ne hnodup₁)]
          exact h.next m₁ y (z :: r ++ l₂) (by simp)
    · cases r with
      | nil =>
          obtain ⟨rfl, rfl⟩ := List.cons.inj hr
          exact hxnext
      | cons z r =>
          rw [List.cons_append] at hr
          obtain ⟨rfl, rfl⟩ : x = z ∧ l₂ = r ++ y :: m₂ := List.cons.inj hr
          have hyx : y ≠ x := fun hyx => hx (by simp [hyx])
          rw [hnext y hyx, if_neg fun hlast => hdisjoint y (List.mem_of_getLast? hlast) (by simp)]
          exact h.next (l₁ ++ r) y m₂ (by simp)

end Change

end LinkedList
